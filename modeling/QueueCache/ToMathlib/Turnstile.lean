import QueueCache.ToMathlib.Exclusion

/-! # A mutex around the wait for an auto-reset event

Each party takes the mutex, waits for the event, releases the mutex, works with the event its own and
signals the event again. The mutex is taken exactly while one party is between taking and releasing it,
and the event is clear exactly while one party has been let through. Neither can be lost: where every
party is stuck, all of them are away and both tokens are there.
-/

namespace List

/-- Where a party is on its way through the turnstile. -/
inductive Stage where
  | away
  | queueing
  | waiting
  | admitted
  | inside
deriving DecidableEq, Repr

namespace Stage

/-- The party has the mutex. -/
def locks : Stage → Bool
  | .waiting | .admitted => true
  | _ => false

/-- The party has been let through and has not signalled. -/
def within : Stage → Bool
  | .admitted | .inside => true
  | _ => false

/-- A step of a party, with the mutex and the event before and after it. -/
inductive Move : Stage → Bool → Bool → Stage → Bool → Bool → Prop
  | stay (stage : Stage) (mutex event : Bool) : Move stage mutex event stage mutex event
  | queue (mutex event : Bool) : Move .away mutex event .queueing mutex event
  | lock (event : Bool) : Move .queueing false event .waiting true event
  | enter (mutex : Bool) : Move .waiting mutex true .admitted mutex false
  | unlock (mutex event : Bool) : Move .admitted mutex event .inside false event
  | signal (mutex event : Bool) : Move .inside mutex event .away mutex true

/-- The party waits for a token that is not there, or it is away. -/
def Stuck (mutex event : Bool) : Stage → Prop
  | .away => True
  | .queueing => mutex = true
  | .waiting => event = false
  | .admitted | .inside => False

end Stage

variable {α : Type*} {stage : α → Stage} {mutex event mutex' event' : Bool} {parties : List α} {i : ℕ} {c c' : α}

/-- Whose the mutex and the event are. -/
structure Turnstile (stage : α → Stage) (mutex event : Bool) (parties : List α) : Prop where
  locked : parties.countP (fun c => (stage c).locks) = mutex.toNat
  shut : parties.countP (fun c => (stage c).within) = (!event).toNat

namespace Turnstile

theorem start : Turnstile stage false true [] := ⟨rfl, rfl⟩

/-- Another party comes along. -/
theorem join (turnstile : Turnstile stage mutex event parties) (free : (stage c).locks = false)
    (outside : (stage c).within = false) : Turnstile stage mutex event (parties ++ [c]) := by
  obtain ⟨locked, shut⟩ := turnstile
  refine ⟨?_, ?_⟩
  · rw [countP_append, locked, countP_cons_of_neg (by simp [free]), countP_nil]
    rfl
  · rw [countP_append, shut, countP_cons_of_neg (by simp [outside]), countP_nil]
    rfl

/-- A party that has the mutex or the event finds its token taken. -/
theorem taken (turnstile : Turnstile stage mutex event parties) (present : parties[i]? = some c) :
    ((stage c).locks = true → mutex = true) ∧ ((stage c).within = true → event = false) := by
  have member := mem_of_getElem? present
  constructor
  · intro locks
    have positive : 0 < parties.countP fun c => (stage c).locks := countP_pos_iff.mpr ⟨c, member, locks⟩
    rw [turnstile.locked] at positive
    cases mutex with
    | true => rfl
    | false => simp at positive
  · intro within
    have positive : 0 < parties.countP fun c => (stage c).within := countP_pos_iff.mpr ⟨c, member, within⟩
    rw [turnstile.shut] at positive
    cases event with
    | false => rfl
    | true => simp at positive

theorem move (turnstile : Turnstile stage mutex event parties) (present : parties[i]? = some c)
    (moved : Stage.Move (stage c) mutex event (stage c') mutex' event') :
    Turnstile stage mutex' event' (parties.set i c') := by
  obtain ⟨locked, shut⟩ := turnstile.taken present
  have locks := countP_set_add (p := fun c => (stage c).locks) present c'
  have within := countP_set_add (p := fun c => (stage c).within) present c'
  rw [turnstile.locked] at locks
  rw [turnstile.shut] at within
  suffices books : (parties.set i c').countP (fun c => (stage c).locks) = mutex'.toNat ∧
      (parties.set i c').countP (fun c => (stage c).within) = (!event').toNat from ⟨books.1, books.2⟩
  generalize (parties.set i c').countP (fun c => (stage c).locks) = locking at locks ⊢
  generalize (parties.set i c').countP (fun c => (stage c).within) = working at within ⊢
  generalize stage c = old at moved locked shut locks within
  generalize stage c' = new at moved locks within
  cases moved with
  | stay => exact ⟨by omega, by omega⟩
  | queue => exact ⟨locks, within⟩
  | lock => exact ⟨locks, within⟩
  | enter =>
    obtain rfl := locked rfl
    exact ⟨by simpa [Stage.locks] using locks, within⟩
  | unlock =>
    obtain rfl := locked rfl
    exact ⟨by simpa [Stage.locks] using locks, by simpa [Stage.within] using within⟩
  | signal =>
    obtain rfl := shut rfl
    exact ⟨locks, by simpa [Stage.within] using within⟩

/-- At most one party is let through at a time. -/
theorem alone (turnstile : Turnstile stage mutex event parties) :
    parties.countP (fun c => (stage c).within) ≤ 1 := by
  rw [turnstile.shut]
  exact Bool.toNat_le _

/-- Where every party is stuck, all of them are away. -/
theorem away_of_stuck (turnstile : Turnstile stage mutex event parties)
    (stuck : ∀ c ∈ parties, (stage c).Stuck mutex event) :
    (∀ c ∈ parties, stage c = .away) ∧ mutex = false ∧ event = true := by
  -- Nobody is past the wait, so the event is there, so nobody waits, so the mutex is there.
  have outside : parties.countP (fun c => (stage c).within) = 0 := by
    rw [countP_eq_zero]
    intro c member within
    have here := stuck c member
    cases at_ : stage c <;> simp [at_, Stage.within, Stage.Stuck] at within here
  have signalled : event = true := by
    have shut := turnstile.shut
    rw [outside] at shut
    simpa using shut.symm
  have unlocked : parties.countP (fun c => (stage c).locks) = 0 := by
    rw [countP_eq_zero]
    intro c member locks
    have here := stuck c member
    cases at_ : stage c <;> simp [at_, Stage.locks, Stage.Stuck, signalled] at locks here
  have free : mutex = false := by
    have locked := turnstile.locked
    rw [unlocked] at locked
    simpa using locked.symm
  refine ⟨?_, free, signalled⟩
  intro c member
  have here := stuck c member
  cases at_ : stage c <;> simp [at_, Stage.Stuck, signalled, free] at here ⊢

end Turnstile

end List
