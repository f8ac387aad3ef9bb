import QueueCache.ToMathlib.Exclusion
import QueueCache.ToMathlib.Run
import QueueCache.Model.PagingPath

/-! # The paging path count and its flag

The auto-reset event lets one notification at a time past its wait, whatever the mutex does. That one
may hold the flag ahead of the count (the last removal sets it before the lower driver is asked) or
the count ahead of the flag (the first addition clears it afterwards); when it signals the event the
count is the balance of what succeeded below and the flag says whether that is zero.
-/

namespace QueueCache

open Transition List

/-- The notification is between its wait on `PagingPathCountEvent` and its `KeSetEvent`. -/
def UsageCall.inside (c : UsageCall) : Bool :=
  match c.pc with
  | .releaseMutex | .testLast | .testInrush | .setPagable | .callDriver | .waitLower | .adjustCount | .testFirst
  | .clearPagable | .cleanup | .setEvent => true
  | _ => false

/-- A counted removal that the lower driver has not answered yet. -/
def UsageCall.removing (c : UsageCall) : Bool :=
  match c.pc with
  | .entry => c.notification.counted && !c.notification.inPath
  | .acquireMutex | .waitEvent | .releaseMutex | .testLast | .testInrush | .setPagable | .callDriver | .waitLower =>
    !c.notification.inPath
  | _ => false

/-- A counted removal is issued only while it matches an earlier successful addition that no other
removal, successful or still unanswered, matches. -/
def matchedRemoval (s : PagingState) : PagingAction → Bool
  | .receive notification =>
    !notification.counted || notification.inPath ||
      s.calls.countP UsageCall.removing + s.path.removals < s.path.additions
  | .call _ _ => true

/-- Successful additions minus successful removals. -/
def PagingPath.balance (path : PagingPath) : ℤ := path.additions - path.removals

/-- The count is the balance and the flag is set exactly while it is zero. -/
def PagingPath.Settled (path : PagingPath) : Prop :=
  path.pagingPathCount = path.balance ∧ (path.powerPagable = true ↔ path.pagingPathCount = 0)

/-- The flag while the lower driver is asked: the last removal has already set it. -/
def UsageCall.FlagAhead (path : PagingPath) (c : UsageCall) : Prop :=
  if c.setPagable then path.powerPagable = true ∧ path.pagingPathCount = 1 ∧ c.notification.inPath = false
  else (path.powerPagable = true ↔ path.pagingPathCount = 0) ∧
    (c.notification.inPath = false → path.pagingPathCount ≠ 1)

/-- What the notification inside knows of the count and the flag. -/
def UsageCall.Serves (path : PagingPath) (c : UsageCall) : Prop :=
  match c.pc with
  | .releaseMutex => path.Settled
  | .testLast => path.Settled ∧ c.setPagable = false
  | .testInrush | .setPagable =>
    path.Settled ∧ c.setPagable = false ∧ c.notification.inPath = false ∧ path.pagingPathCount = 1
  | .callDriver | .waitLower => path.pagingPathCount = path.balance ∧ c.FlagAhead path
  | .adjustCount =>
    ioAdjustPagingPathCount path.pagingPathCount c.notification.inPath = path.balance ∧ c.FlagAhead path ∧
      0 ≤ path.balance ∧ 0 ≤ path.pagingPathCount
  | .testFirst =>
    path.pagingPathCount = path.balance ∧ 1 ≤ path.balance ∧
      (path.powerPagable = true ↔ path.pagingPathCount = 1)
  | .clearPagable => path.pagingPathCount = path.balance ∧ path.pagingPathCount = 1
  | .cleanup => path.pagingPathCount = path.balance ∧ c.FlagAhead path
  | .setEvent => path.Settled
  | _ => True

section Step

variable {path path' : PagingPath} {c c' : UsageCall} {lower : NtStatus}

/-- The lower driver answers the notification inside. -/
theorem UsageCall.FlagAhead.forwarded (flag : c.FlagAhead path) (count : path.pagingPathCount = path.balance)
    (matched : c.notification.inPath = false → 1 ≤ path.balance) (nonneg : 0 ≤ path.balance) (status : NtStatus) :
    (c.forwarded path status).2.Serves (c.forwarded path status).1 := by
  unfold UsageCall.forwarded PagingPath.record
  cases ntSuccess status with
  | false => exact ⟨count, flag⟩
  | true =>
    rw [PagingPath.balance] at count matched nonneg
    cases inPath : c.notification.inPath with
    | true =>
      refine ⟨?_, flag, ?_, ?_⟩
      all_goals
        simp only [ioAdjustPagingPathCount, inPath, reduceIte, PagingPath.balance]
        push_cast
        omega
    | false =>
      have one := matched inPath
      refine ⟨?_, flag, ?_, ?_⟩
      all_goals
        simp only [ioAdjustPagingPathCount, inPath, Bool.false_eq_true, reduceIte, PagingPath.balance]
        push_cast
        omega

/-- An addition leaves the flag to be cleared for the first path, a removal leaves it right. -/
theorem UsageCall.FlagAhead.adjusted (flag : c.FlagAhead path)
    (count : ioAdjustPagingPathCount path.pagingPathCount c.notification.inPath = path.balance)
    (nonneg : 0 ≤ path.balance) (counted : 0 ≤ path.pagingPathCount) :
    if c.notification.inPath then 1 ≤ path.balance ∧ (path.powerPagable = true ↔ path.balance = 1)
    else (path.powerPagable = true ↔ path.balance = 0) := by
  unfold UsageCall.FlagAhead at flag
  unfold ioAdjustPagingPathCount at count
  split at flag
  · obtain ⟨pagable, one, inPath⟩ := flag
    simp only [inPath, Bool.false_eq_true, reduceIte, pagable, true_iff] at count ⊢
    omega
  · obtain ⟨pagable, notOne⟩ := flag
    rw [pagable]
    cases inPath : c.notification.inPath with
    | true =>
      simp only [inPath, reduceIte] at count ⊢
      omega
    | false =>
      have other := notOne inPath
      simp only [inPath, Bool.false_eq_true, reduceIte] at count ⊢
      omega

/-- The notification inside keeps serving. -/
theorem UsageCall.Serves.step (serves : c.Serves path) (clear : path.powerInrush = false)
    (matched : c.removing = true → 1 ≤ path.balance) (nonneg : 0 ≤ path.balance)
    (moved : usageStep path c lower = some (path', c')) (within : c.inside = true) (stays : c'.inside = true) :
    c'.Serves path' := by
  unfold usageStep at moved
  unfold UsageCall.Serves at serves
  unfold UsageCall.removing at matched
  unfold UsageCall.inside at within
  cases at_ : c.pc <;> rw [at_] at moved serves matched within <;> dsimp only at moved serves matched within
  case releaseMutex =>
    cases moved
    exact ⟨serves, rfl⟩
  case testLast =>
    obtain ⟨⟨count, flag⟩, unset⟩ := serves
    cases moved
    by_cases last : c.notification.inPath = false ∧ path.pagingPathCount = 1
    · obtain ⟨inPath, one⟩ := last
      simp only [inPath, one]
      exact ⟨⟨count, flag⟩, unset, inPath, one⟩
    · rw [if_neg (by simpa using last)]
      refine ⟨count, ?_⟩
      rw [UsageCall.FlagAhead, if_neg (by simp [UsageCall.goto, unset])]
      exact ⟨flag, not_and.mp last⟩
  case testInrush =>
    cases moved
    rw [clear]
    exact serves
  case setPagable =>
    obtain ⟨⟨count, -⟩, -, inPath, one⟩ := serves
    cases moved
    refine ⟨count, ?_⟩
    rw [UsageCall.FlagAhead, if_pos rfl]
    exact ⟨rfl, one, inPath⟩
  case callDriver =>
    obtain ⟨count, flag⟩ := serves
    split at moved
    · cases moved
      exact ⟨count, flag⟩
    · obtain ⟨rfl, rfl⟩ := Prod.ext_iff.mp (Option.some.inj moved)
      exact flag.forwarded count (by simpa using matched) nonneg lower
  case waitLower =>
    obtain ⟨count, flag⟩ := serves
    obtain ⟨rfl, rfl⟩ := Prod.ext_iff.mp (Option.some.inj moved)
    exact flag.forwarded count (by simpa using matched) nonneg lower
  case adjustCount =>
    obtain ⟨count, flag, balanced, counted⟩ := serves
    have adjusted := flag.adjusted count balanced counted
    cases moved
    cases inPath : c.notification.inPath with
    | true =>
      rw [inPath] at adjusted count
      rw [← count] at adjusted
      obtain ⟨one, pagable⟩ := adjusted
      exact ⟨count, count ▸ one, pagable⟩
    | false =>
      rw [inPath] at adjusted count
      rw [← count] at adjusted
      exact ⟨count, adjusted⟩
  case testFirst =>
    obtain ⟨count, one, flag⟩ := serves
    cases moved
    split
    · next first => exact ⟨count, first⟩
    · next other =>
      refine ⟨count, ?_⟩
      rw [flag]
      omega
  case clearPagable =>
    obtain ⟨count, one⟩ := serves
    cases moved
    refine ⟨count, ?_⟩
    simp only [one]
    decide
  case cleanup =>
    obtain ⟨count, flag⟩ := serves
    unfold UsageCall.FlagAhead at flag
    split at moved
    · next set_ =>
      rw [if_pos set_] at flag
      cases moved
      refine ⟨count, ?_⟩
      simp only [flag.2.1]
      decide
    · next unset =>
      rw [if_neg unset] at flag
      cases moved
      exact ⟨count, flag.1⟩
  case setEvent =>
    cases moved
    contradiction
  all_goals contradiction

/-- Outside, only the mutex is touched. -/
theorem usageStep_outside (moved : usageStep path c lower = some (path', c')) (outside : c.inside = false)
    (stays : c'.inside = false) : ∃ held, path' = { path with pagingPathCountMutex := held } := by
  unfold usageStep at moved
  unfold UsageCall.inside at outside
  cases at_ : c.pc <;> rw [at_] at moved outside <;> dsimp only at moved outside <;> try contradiction
  case acquireMutex =>
    split at moved
    · contradiction
    · cases moved
      exact ⟨true, rfl⟩
  case waitEvent =>
    split at moved
    · cases moved
      contradiction
    · contradiction
  all_goals
    cases moved
    exact ⟨_, rfl⟩

/-- The wait takes the event's signal. -/
theorem usageStep_enters (moved : usageStep path c lower = some (path', c')) (outside : c.inside = false)
    (enters : c'.inside = true) :
    path.pagingPathCountEvent = true ∧ path' = { path with pagingPathCountEvent := false } ∧
      c'.pc = .releaseMutex := by
  unfold usageStep at moved
  unfold UsageCall.inside at outside
  cases at_ : c.pc <;> rw [at_] at moved outside <;> dsimp only at moved outside <;> try contradiction
  case entry =>
    cases moved
    cases counted : c.notification.counted <;> rw [counted] at enters <;> contradiction
  case acquireMutex =>
    split at moved <;> cases moved
    contradiction
  case waitEvent =>
    split at moved
    · next signalled =>
      cases moved
      exact ⟨signalled, rfl, rfl⟩
    · contradiction
  all_goals
    cases moved
    contradiction

@[simp] theorem UsageCall.forwarded_event (status : NtStatus) :
    (c.forwarded path status).1.pagingPathCountEvent = path.pagingPathCountEvent := by
  unfold UsageCall.forwarded PagingPath.record
  dsimp only
  split_ifs <;> rfl

@[simp] theorem UsageCall.forwarded_inside (status : NtStatus) : (c.forwarded path status).2.inside = true := by
  unfold UsageCall.forwarded
  cases ntSuccess status <;> rfl

/-- `KeSetEvent` is the only way out, and nothing inside touches the event before it. -/
theorem usageStep_inside (moved : usageStep path c lower = some (path', c')) (within : c.inside = true) :
    (c'.inside = true ∧ path'.pagingPathCountEvent = path.pagingPathCountEvent) ∨
      (c'.inside = false ∧ c.pc = .setEvent ∧ path' = { path with pagingPathCountEvent := true }) := by
  unfold usageStep at moved
  unfold UsageCall.inside at within
  cases at_ : c.pc <;> rw [at_] at moved within <;> dsimp only at moved within <;> try contradiction
  case callDriver =>
    left
    split at moved
    · cases moved
      exact ⟨rfl, rfl⟩
    · obtain ⟨rfl, rfl⟩ := Prod.ext_iff.mp (Option.some.inj moved)
      simp
  case waitLower =>
    left
    obtain ⟨rfl, rfl⟩ := Prod.ext_iff.mp (Option.some.inj moved)
    simp
  case cleanup =>
    left
    split at moved <;> cases moved <;> exact ⟨rfl, rfl⟩
  case setEvent =>
    right
    cases moved
    exact ⟨rfl, rfl, rfl⟩
  case testLast =>
    left
    cases moved
    exact ⟨by split <;> rfl, rfl⟩
  case testInrush =>
    left
    cases moved
    exact ⟨by split <;> rfl, rfl⟩
  case adjustCount =>
    left
    cases moved
    exact ⟨by split <;> rfl, rfl⟩
  case testFirst =>
    left
    cases moved
    exact ⟨by split <;> rfl, rfl⟩
  all_goals
    left
    cases moved
    exact ⟨rfl, rfl⟩

theorem UsageCall.forwarded_removing (path : PagingPath) (c : UsageCall) (status : NtStatus) :
    (if (c.forwarded path status).2.removing then 1 else 0) + (c.forwarded path status).1.removals + path.additions ≤
      (if !c.notification.inPath then 1 else 0) + path.removals + (c.forwarded path status).1.additions := by
  unfold UsageCall.forwarded PagingPath.record UsageCall.removing
  cases ntSuccess status <;> cases c.notification.inPath
  all_goals
    simp only [Bool.false_eq_true, if_true, if_false, Bool.not_true, Bool.not_false]
    omega

@[simp] theorem UsageCall.forwarded_inrush (status : NtStatus) :
    (c.forwarded path status).1.powerInrush = path.powerInrush := by
  unfold UsageCall.forwarded PagingPath.record
  dsimp only
  split_ifs <;> rfl

/-- No removal is added, and one that succeeds is no longer outstanding. -/
theorem usageStep_removing (moved : usageStep path c lower = some (path', c')) :
    (if c'.removing then 1 else 0) + path'.removals + path.additions ≤
        (if c.removing then 1 else 0) + path.removals + path'.additions ∧
      path'.powerInrush = path.powerInrush := by
  unfold usageStep at moved
  cases at_ : c.pc <;> rw [at_] at moved <;> dsimp only at moved
  case entry =>
    cases moved
    refine ⟨?_, rfl⟩
    cases counted : c.notification.counted <;> simp [UsageCall.removing, UsageCall.goto, at_, counted]
  case acquireMutex =>
    split at moved <;> cases moved
    simp [UsageCall.removing, UsageCall.goto, at_]
  case waitEvent =>
    split at moved <;> cases moved
    simp [UsageCall.removing, UsageCall.goto, at_]
  case callDriver =>
    split at moved
    · cases moved
      simp [UsageCall.removing, UsageCall.goto, at_]
    · obtain ⟨rfl, rfl⟩ := Prod.ext_iff.mp (Option.some.inj moved)
      have answered := UsageCall.forwarded_removing path c lower
      simpa [UsageCall.removing, at_] using answered
  case waitLower =>
    obtain ⟨rfl, rfl⟩ := Prod.ext_iff.mp (Option.some.inj moved)
    have answered := UsageCall.forwarded_removing path c lower
    simpa [UsageCall.removing, at_] using answered
  case testLast =>
    cases moved
    refine ⟨?_, rfl⟩
    split <;> simp [UsageCall.removing, UsageCall.goto, at_]
  case testInrush =>
    cases moved
    refine ⟨?_, rfl⟩
    split <;> simp [UsageCall.removing, UsageCall.goto, at_]
  case adjustCount =>
    cases moved
    refine ⟨?_, rfl⟩
    split <;> simp [UsageCall.removing, UsageCall.goto, at_]
  case testFirst =>
    cases moved
    refine ⟨?_, rfl⟩
    split <;> simp [UsageCall.removing, UsageCall.goto, at_]
  case cleanup =>
    split at moved <;> cases moved <;> simp [UsageCall.removing, UsageCall.goto, at_]
  case returned => contradiction
  all_goals
    cases moved
    simp [UsageCall.removing, UsageCall.goto, at_]

end Step

/-- The notifications obey the exclusion, every removal is matched and `DO_POWER_INRUSH` is off. -/
structure PagingBooks (s : PagingState) : Prop where
  exclusion : Exclusion UsageCall.inside PagingPath.Settled UsageCall.Serves s.path.pagingPathCountEvent s.path s.calls
  matched : s.calls.countP UsageCall.removing + s.path.removals ≤ s.path.additions
  clear : s.path.powerInrush = false

theorem pagingBooks_initial : PagingBooks (.initial false) where
  exclusion := Exclusion.start ⟨rfl, by decide⟩
  matched := by simp [PagingState.initial]
  clear := rfl

theorem PagingBooks.receive {s : PagingState} {notification : UsageNotification} (books : PagingBooks s)
    (matched : matchedRemoval s (.receive notification) = true) :
    PagingBooks { s with calls := s.calls ++ [{ notification := notification }] } where
  exclusion := books.exclusion.join rfl
  matched := by
    have before := books.matched
    simp only [matchedRemoval, Bool.or_eq_true, Bool.not_eq_true', decide_eq_true_eq] at matched
    simp only [countP_append, countP_singleton, UsageCall.removing, Bool.and_eq_true, Bool.not_eq_true']
    split
    · next both =>
      obtain ⟨counted, inPath⟩ := both
      simp only [counted, inPath, Bool.true_eq_false, Bool.false_eq_true, false_or] at matched
      omega
    · omega
  clear := books.clear

/-- One step of one notification keeps the books. -/
theorem PagingBooks.call {s : PagingState} {i : ℕ} {c c' : UsageCall} {path' : PagingPath} {lower : NtStatus}
    (books : PagingBooks s) (present : s.calls[i]? = some c) (moved : usageStep s.path c lower = some (path', c')) :
    PagingBooks { path := path', calls := s.calls.set i c' } := by
  obtain ⟨removing, inrush⟩ := usageStep_removing moved
  have counted := countP_set_add (p := UsageCall.removing) present c'
  have before := books.matched
  refine ⟨?_, by dsimp only; omega, inrush.trans books.clear⟩
  have nonneg : 0 ≤ s.path.balance := by
    rw [PagingPath.balance]
    omega
  cases within : c.inside with
  | false =>
    cases enters : c'.inside with
    | false =>
      obtain ⟨held, rfl⟩ := usageStep_outside moved within enters
      exact books.exclusion.pass present within enters id fun _ => id
    | true =>
      obtain ⟨signalled, rfl, at_⟩ := usageStep_enters moved within enters
      have exclusion := books.exclusion
      rw [signalled] at exclusion
      apply exclusion.take present within _ enters
      intro settled
      rw [UsageCall.Serves, at_]
      exact settled
  | true =>
    have serves := books.exclusion.served i c present within
    obtain ⟨stays, event⟩ | ⟨leaves, at_, rfl⟩ := usageStep_inside moved within
    · dsimp only
      rw [event]
      apply books.exclusion.work present within stays
      intro serves
      refine serves.step books.clear ?_ nonneg moved within stays
      intro outstanding
      have positive : 0 < s.calls.countP UsageCall.removing :=
        countP_pos_iff.mpr ⟨c, mem_of_getElem? present, outstanding⟩
      rw [PagingPath.balance]
      omega
    · apply books.exclusion.give present within leaves
      intro serves
      rw [UsageCall.Serves, at_] at serves
      exact serves

theorem PagingBooks.step {s s' : PagingState} {a : PagingAction} (books : PagingBooks s)
    (matched : matchedRemoval s a = true) (moved : s.step a = some s') : PagingBooks s' := by
  cases a with
  | receive notification =>
    obtain rfl := Option.some.inj moved
    exact books.receive matched
  | call i lower =>
    obtain ⟨c, present, taken⟩ := Option.bind_eq_some_iff.mp moved
    obtain ⟨⟨path', c'⟩, stepped, rfl⟩ := Option.map_eq_some_iff.mp taken
    exact books.call present stepped

/-- In every run that matches its removals, at most one notification is between its wait and its
`KeSetEvent`, and while none is the count is the balance and the flag is set exactly while it is zero. -/
theorem paging_path_count (as : List PagingAction) (s : PagingState)
    (run : Run PagingState.step (fun t a => matchedRemoval t a = true) (.initial false) as s) :
    (∀ (i j : ℕ) (c d : UsageCall), s.calls[i]? = some c → s.calls[j]? = some d → c.inside = true →
      d.inside = true → i = j) ∧
    ((∀ c ∈ s.calls, c.inside = false) →
      s.path.pagingPathCount = s.path.additions - s.path.removals ∧
        (s.path.powerPagable = true ↔ s.path.pagingPathCount = 0)) := by
  have books : PagingBooks s := run.preserves PagingBooks pagingBooks_initial
    fun _ _ _ books matched moved => books.step matched moved
  constructor
  · exact fun i j c d first second => eq_of_countP_le_one books.exclusion.alone first second
  · intro outside
    apply books.exclusion.owned
    rw [countP_eq_zero]
    intro c member
    rw [outside c member]
    decide

/-- A paging file is added; its removal fails below while another addition waits for the event. -/
def failedRemoval : List PagingAction :=
  [.receive ⟨.paging, true⟩] ++ replicate 11 (.call 0 STATUS_SUCCESS) ++
    [.receive ⟨.paging, false⟩, .receive ⟨.dumpFile, true⟩] ++ replicate 5 (.call 1 STATUS_INSUFFICIENT_RESOURCES) ++
    replicate 2 (.call 2 STATUS_SUCCESS) ++ replicate 5 (.call 1 STATUS_INSUFFICIENT_RESOURCES)

def afterFailedRemoval : PagingState :=
  (runs? PagingState.step (fun t a => matchedRemoval t a = true) (.initial false) failedRemoval).getD (.initial false)

theorem paging_path_count_failedRemoval : afterFailedRemoval.calls.length = 3 ∧
    afterFailedRemoval.path.pagingPathCount = 1 - 0 ∧
    (afterFailedRemoval.path.powerPagable = true ↔ afterFailedRemoval.path.pagingPathCount = 0) := by
  have run : Run PagingState.step (fun t a => matchedRemoval t a = true) (.initial false) failedRemoval
    afterFailedRemoval := run_of_runs? (by decide +kernel)
  have outside : ∀ c ∈ afterFailedRemoval.calls, c.inside = false := by decide +kernel
  have settled := (paging_path_count failedRemoval afterFailedRemoval run).2 outside
  exact ⟨by decide +kernel, settled⟩

end QueueCache
