import QueueCache.Model.ScsiPaging
import QueueCache.Proofs.PagingPath

/-! # Paging files without exclusion

Nobody ever takes the signal of the notification event, so notifications overlap freely. The count does not suffer:
it is adjusted by an interlocked operation once for every success below. The flag does: two additions may both find
more than one path. It is right where no notification passes the wait while another is on its way.
-/

namespace QueueCache.ScsiChk.Usage

open Transition List

/-- The lower driver has completed the notification with success, and it is still to be counted. -/
def adjusting (c : UsageCall) : ℤ := if c.pc = .adjustCount then ioAdjustPagingPathCount 0 c.notification.inPath else 0

/-- A removal of a paging file that the lower driver has not answered yet. -/
def removing (c : UsageCall) : Bool :=
  if c.pc = .entry then c.notification.type = .paging && !c.notification.inPath else c.removing

/-- A removal of a paging file matches an earlier successful addition, and a notification passes the wait while no
other is between its wait and its `KeSetEvent`. -/
def oneAtATime (s : PagingState) : PagingAction → Bool
  | .receive notification =>
    notification.type ≠ .paging || notification.inPath || s.calls.countP removing + s.path.removals < s.path.additions
  | .call i _ => (s.calls[i]?).all fun c => c.pc ≠ .waitEvent || s.calls.countP UsageCall.inside = 0

section Step

variable {path path' : PagingPath} {c c' : UsageCall} {lower : NtStatus}

/-- A step up to the wait, or one that `QCacheDeviceUsageNotification` has too. -/
inductive UsageMove (path : PagingPath) (c : UsageCall) (lower : NtStatus) : PagingPath → UsageCall → Prop
  | enter (at_ : c.pc = .entry) : UsageMove path c lower path
      (c.goto (if c.notification.type = .paging then .waitEvent else .sendToNextDriver))
  | wait (at_ : c.pc = .waitEvent) (signalled : path.pagingPathCountEvent = true) : UsageMove path c lower path
      { c with setPagable := false, pc := .testLast }
  | later {path' : PagingPath} {c' : UsageCall} (begun : c.pc ≠ .entry) (waited : c.pc ≠ .waitEvent)
      (taken : QueueCache.usageStep path c lower = some (path', c')) : UsageMove path c lower path' c'

theorem usageStep_cases (moved : usageStep path c lower = some (path', c')) : UsageMove path c lower path' c' := by
  unfold usageStep at moved
  split at moved
  · next at_ =>
    cases moved
    exact .enter at_
  · next at_ =>
    split at moved
    · next signalled =>
      cases moved
      exact .wait at_ signalled
    · contradiction
  · contradiction
  · contradiction
  · next begun waited _ _ => exact .later begun waited moved

/-- The lower driver's success is counted sooner or later. -/
theorem forwarded_adjusting (status : NtStatus) : (c.forwarded path status).1.pagingPathCount +
    adjusting (c.forwarded path status).2 - (c.forwarded path status).1.balance =
      path.pagingPathCount - path.balance := by
  unfold UsageCall.forwarded PagingPath.record adjusting ioAdjustPagingPathCount PagingPath.balance
  cases ntSuccess status <;> cases c.notification.inPath
  all_goals
    simp
    try omega

theorem later_adjusting (moved : QueueCache.usageStep path c lower = some (path', c')) :
    path'.pagingPathCount + adjusting c' - path'.balance = path.pagingPathCount + adjusting c - path.balance := by
  have quiet {path' : PagingPath} {c' : UsageCall} (count : path'.pagingPathCount = path.pagingPathCount)
      (balance : path'.balance = path.balance) (before : c.pc ≠ .adjustCount) (after : c'.pc ≠ .adjustCount) :
      path'.pagingPathCount + adjusting c' - path'.balance = path.pagingPathCount + adjusting c - path.balance := by
    rw [adjusting, adjusting, if_neg before, if_neg after, count, balance]
  unfold QueueCache.usageStep at moved
  cases at_ : c.pc <;> rw [at_] at moved <;> dsimp only at moved
  case callDriver =>
    split at moved
    · cases moved
      exact quiet rfl rfl (by simp [at_]) (by simp [UsageCall.goto])
    · obtain ⟨rfl, rfl⟩ := Prod.ext_iff.mp (Option.some.inj moved)
      rw [forwarded_adjusting, adjusting, if_neg (by simp [at_]), add_zero]
  case waitLower =>
    obtain ⟨rfl, rfl⟩ := Prod.ext_iff.mp (Option.some.inj moved)
    rw [forwarded_adjusting, adjusting, if_neg (by simp [at_]), add_zero]
  case adjustCount =>
    cases moved
    have after : (c.goto (if c.notification.inPath then .testFirst else .setEvent)).pc ≠ .adjustCount := by
      dsimp only [UsageCall.goto]
      split <;> simp
    rw [adjusting, adjusting, if_neg after, if_pos at_]
    unfold ioAdjustPagingPathCount PagingPath.balance
    dsimp only
    split <;> omega
  case acquireMutex | waitEvent | cleanup =>
    split at moved <;> cases moved <;> exact quiet rfl rfl (by simp [at_]) (by simp [UsageCall.goto])
  case entry | testLast | testInrush | testFirst =>
    cases moved
    refine quiet rfl rfl (by simp [at_]) ?_
    dsimp only [UsageCall.goto]
    split <;> simp
  case returned => contradiction
  all_goals
    cases moved
    exact quiet rfl rfl (by simp [at_]) (by simp [UsageCall.goto])

/-- Each step counts what it owes. -/
theorem UsageMove.adjusting (moved : UsageMove path c lower path' c') :
    path'.pagingPathCount + Usage.adjusting c' - path'.balance =
      path.pagingPathCount + Usage.adjusting c - path.balance := by
  cases moved with
  | enter at_ =>
    rw [Usage.adjusting, Usage.adjusting, if_neg (by dsimp only [UsageCall.goto]; split <;> simp),
      if_neg (by simp [at_])]
  | wait at_ =>
    rw [Usage.adjusting, Usage.adjusting, if_neg (by simp), if_neg (by simp [at_])]
  | later _ _ taken => exact later_adjusting taken

/-- Past the wait is only who has waited. -/
theorem later_outside (begun : c.pc ≠ .entry) (waited : c.pc ≠ .waitEvent)
    (taken : QueueCache.usageStep path c lower = some (path', c')) (outside : c.inside = false) :
    c'.inside = false := by
  unfold QueueCache.usageStep at taken
  unfold UsageCall.inside at outside
  cases at_ : c.pc <;> rw [at_] at taken outside <;> dsimp only at taken outside <;> try contradiction
  case acquireMutex =>
    split at taken <;> cases taken
    rfl
  all_goals
    cases taken
    rfl

/-- Nobody resets the event. -/
theorem UsageMove.event (moved : UsageMove path c lower path' c') (signalled : path.pagingPathCountEvent = true) :
    path'.pagingPathCountEvent = true := by
  cases moved with
  | enter | wait => exact signalled
  | later begun waited taken =>
    cases within : c.inside with
    | true =>
      obtain ⟨-, same⟩ | ⟨-, -, rfl⟩ := usageStep_inside taken within
      · exact same.trans signalled
      · rfl
    | false =>
      obtain ⟨held, rfl⟩ := usageStep_outside taken within (later_outside begun waited taken within)
      exact signalled

theorem later_begun (taken : QueueCache.usageStep path c lower = some (path', c')) : c'.pc ≠ .entry := by
  unfold QueueCache.usageStep at taken
  cases at_ : c.pc <;> rw [at_] at taken <;> dsimp only at taken
  case callDriver =>
    split at taken
    · cases taken
      simp [UsageCall.goto]
    · obtain ⟨rfl, rfl⟩ := Prod.ext_iff.mp (Option.some.inj taken)
      dsimp only [UsageCall.forwarded]
      split <;> simp
  case waitLower =>
    obtain ⟨rfl, rfl⟩ := Prod.ext_iff.mp (Option.some.inj taken)
    dsimp only [UsageCall.forwarded]
    split <;> simp
  case acquireMutex | waitEvent | cleanup => split at taken <;> cases taken <;> simp [UsageCall.goto]
  case entry | testLast | testInrush | adjustCount | testFirst =>
    cases taken
    dsimp only [UsageCall.goto]
    split <;> simp
  case returned => contradiction
  all_goals
    cases taken
    simp [UsageCall.goto]

/-- No removal is added, and one that succeeds is no longer outstanding. -/
theorem UsageMove.removing (moved : UsageMove path c lower path' c') :
    (if Usage.removing c' then 1 else 0) + path'.removals + path.additions ≤
        (if Usage.removing c then 1 else 0) + path.removals + path'.additions ∧
      path'.powerInrush = path.powerInrush := by
  cases moved with
  | enter at_ =>
    refine ⟨?_, rfl⟩
    by_cases paging : c.notification.type = .paging <;>
      simp [Usage.removing, UsageCall.removing, UsageCall.goto, at_, paging]
  | wait at_ =>
    refine ⟨?_, rfl⟩
    simp [Usage.removing, UsageCall.removing, at_]
  | later begun _ taken =>
    have answered := usageStep_removing taken
    rwa [Usage.removing, Usage.removing, if_neg begun, if_neg (later_begun taken)]

end Step

/-- What holds of the count in every run. -/
structure Counted (s : PagingState) : Prop where
  signalled : s.path.pagingPathCountEvent = true
  count : s.path.pagingPathCount + tally adjusting s.calls = s.path.balance

theorem Counted.step {s s' : PagingState} {a : PagingAction} (before : Counted s) (moved : step s a = some s') :
    Counted s' := by
  cases a with
  | receive notification =>
    obtain rfl := Option.some.inj moved
    refine ⟨before.signalled, ?_⟩
    have counted := before.count
    rw [tally_append, tally_cons, tally_nil, adjusting, if_neg (by simp)]
    dsimp only
    omega
  | call i lower =>
    obtain ⟨c, present, taken⟩ := Option.bind_eq_some_iff.mp moved
    obtain ⟨⟨path', c'⟩, stepped, rfl⟩ := Option.map_eq_some_iff.mp taken
    have move := usageStep_cases stepped
    refine ⟨move.event before.signalled, ?_⟩
    have counted := before.count
    have adjusted := move.adjusting
    rw [tally_set present]
    dsimp only
    omega

/-- What holds while notifications come one at a time, though nothing hands on a token. -/
structure Alone (s : PagingState) : Prop where
  exclusion : Exclusion UsageCall.inside PagingPath.Settled UsageCall.Serves false s.path s.calls
  matched : s.calls.countP removing + s.path.removals ≤ s.path.additions
  clear : s.path.powerInrush = false

theorem Alone.receive {s : PagingState} {notification : UsageNotification} (alone : Alone s)
    (fine : oneAtATime s (.receive notification) = true) :
    Alone { s with calls := s.calls ++ [{ notification := notification }] } where
  exclusion := alone.exclusion.join rfl
  matched := by
    have before := alone.matched
    simp only [oneAtATime, Bool.or_eq_true, decide_eq_true_eq] at fine
    simp only [countP_append, countP_singleton, removing, if_true, Bool.and_eq_true, decide_eq_true_eq,
      Bool.not_eq_true']
    split
    · next both =>
      obtain ⟨paging, inPath⟩ := both
      simp only [paging, inPath, ne_eq, not_true, Bool.false_eq_true, false_or] at fine
      omega
    · omega
  clear := alone.clear

theorem Alone.call {s : PagingState} {i : ℕ} {c c' : UsageCall} {path' : PagingPath} {lower : NtStatus}
    (alone : Alone s) (present : s.calls[i]? = some c) (fine : oneAtATime s (.call i lower) = true)
    (moved : UsageMove s.path c lower path' c') : Alone { path := path', calls := s.calls.set i c' } := by
  obtain ⟨takes, inrush⟩ := moved.removing
  have counted := countP_set_add (p := removing) present c'
  have before := alone.matched
  refine ⟨?_, by dsimp only; omega, inrush.trans alone.clear⟩
  have exclusion := alone.exclusion
  cases moved with
  | enter at_ =>
    refine exclusion.pass present (by simp [UsageCall.inside, at_]) ?_ id fun _ => id
    by_cases paging : c.notification.type = .paging <;> simp [UsageCall.inside, UsageCall.goto, paging]
  | wait at_ =>
    have nobody : s.calls.countP UsageCall.inside = 0 := by
      simpa [oneAtATime, present, at_] using fine
    have free : Exclusion UsageCall.inside PagingPath.Settled UsageCall.Serves true s.path s.calls :=
      { exclusion with shut := fun _ => nobody }
    exact free.take present (by simp [UsageCall.inside, at_]) (fun settled => ⟨settled, rfl⟩) rfl
  | later begun waited taken =>
    cases within : c.inside with
    | false =>
      have stays := later_outside begun waited taken within
      obtain ⟨held, rfl⟩ := usageStep_outside taken within stays
      exact exclusion.pass present within stays id fun _ => id
    | true =>
      obtain ⟨stays, -⟩ | ⟨leaves, at_, rfl⟩ := usageStep_inside taken within
      · apply exclusion.work present within stays
        intro serves
        refine serves.step alone.clear ?_ ?_ taken within stays
        · intro outstanding
          have open_ : removing c = true := by rwa [removing, if_neg begun]
          have positive : 0 < s.calls.countP removing := countP_pos_iff.mpr ⟨c, mem_of_getElem? present, open_⟩
          rw [PagingPath.balance]
          omega
        · rw [PagingPath.balance]
          omega
      · have given := exclusion.give present within leaves fun serves => by
          rw [UsageCall.Serves, at_] at serves
          exact (serves : PagingPath.Settled { s.path with pagingPathCountEvent := true })
        exact { given with shut := by rintro ⟨⟩ }

theorem Alone.step {s s' : PagingState} {a : PagingAction} (alone : Alone s) (fine : oneAtATime s a = true)
    (moved : step s a = some s') : Alone s' := by
  cases a with
  | receive notification =>
    obtain rfl := Option.some.inj moved
    exact alone.receive fine
  | call i lower =>
    obtain ⟨c, present, taken⟩ := Option.bind_eq_some_iff.mp moved
    obtain ⟨⟨path', c'⟩, stepped, rfl⟩ := Option.map_eq_some_iff.mp taken
    exact alone.call present fine (usageStep_cases stepped)

/-- In every run the event stays set, so that no notification ever waits, and the count is the balance of what
succeeded below but for the notifications that are about to adjust it. Where notifications come one at a time,
the flag is set exactly while the count is zero whenever none is on its way. -/
theorem scsi_paging_count (as : List PagingAction) (s : PagingState) (run : Run step anyStep (.initial false) as s) :
    s.path.pagingPathCountEvent = true ∧
      s.path.pagingPathCount + tally adjusting s.calls = s.path.additions - s.path.removals ∧
      (Run step (fun t a => oneAtATime t a = true) (.initial false) as s → (∀ c ∈ s.calls, c.inside = false) →
        (s.path.powerPagable = true ↔ s.path.pagingPathCount = 0)) := by
  have counted : Counted s := run.preserves Counted ⟨rfl, rfl⟩ fun _ _ _ before _ moved => before.step moved
  refine ⟨counted.signalled, counted.count, fun single outside => ?_⟩
  have start : Alone (.initial false) := ⟨Exclusion.start ⟨rfl, by decide⟩, by simp [PagingState.initial], rfl⟩
  have alone : Alone s := single.preserves Alone start fun _ _ _ alone fine moved => alone.step fine moved
  refine (alone.exclusion.owned ?_).2
  rw [countP_eq_zero]
  intro c member
  rw [outside c member]
  decide

/-- Two paging files are added, and both counts are adjusted before either is tested. -/
def twoAdditions : List PagingAction :=
  [.receive ⟨.paging, true⟩, .receive ⟨.paging, true⟩] ++ replicate 5 (.call 0 STATUS_SUCCESS) ++
    replicate 8 (.call 1 STATUS_SUCCESS) ++ replicate 3 (.call 0 STATUS_SUCCESS)

def afterTwoAdditions : PagingState := (runs? step anyStep (.initial false) twoAdditions).getD (.initial false)

/-- The flag stays set with two paging files on the device. -/
theorem scsi_paging_count_twoAdditions : afterTwoAdditions.path.pagingPathCount = 2 ∧
    afterTwoAdditions.path.powerPagable = true ∧ (∀ c ∈ afterTwoAdditions.calls, c.pc = .returned) ∧
    ¬ Run step (fun t a => oneAtATime t a = true) (.initial false) twoAdditions afterTwoAdditions := by
  have run : Run step anyStep (.initial false) twoAdditions afterTwoAdditions := run_getD (by decide +kernel)
  obtain ⟨-, count, single⟩ := scsi_paging_count twoAdditions afterTwoAdditions run
  have additions : (afterTwoAdditions.path.additions : ℤ) - afterTwoAdditions.path.removals = 2 := by decide +kernel
  have counted : tally adjusting afterTwoAdditions.calls = 0 := by decide +kernel
  have two : afterTwoAdditions.path.pagingPathCount = 2 := by omega
  have pagable : afterTwoAdditions.path.powerPagable = true := by decide +kernel
  have returned : ∀ c ∈ afterTwoAdditions.calls, c.pc = .returned := by decide +kernel
  refine ⟨two, pagable, returned, fun quiet => ?_⟩
  have none := (single quiet fun c member => by simp [UsageCall.inside, returned c member]).mp pagable
  omega

end QueueCache.ScsiChk.Usage
