import QueueCache.Proofs.ReadCount

/-! # The gaps of a read

The splitting loop goes through the bitmap with one index and one length, which a single search uses up and
replaces. What it has issued so far are the maximal clear runs below the index, in order, and the run it is
at is maximal as well, so the next search starts on a set bit or at the end. Requests of the read that
complete meanwhile, before or after the next one is built, change nothing that the loop looks at.
-/

namespace QueueCache

open Transition

/-- A run of clear bits that cannot be extended. -/
structure MaximalClearRun (bitmap : Bitmap) (n first count : ℕ) : Prop extends ClearRun bitmap n first count where
  left : ∀ k, k + 1 = first → bitmap k = true
  right : first + count < n → bitmap (first + count) = true

section Maximal

variable {bitmap : Bitmap} {n first count : ℕ}

/-- Maximal clear runs that share a bit are the same. -/
theorem MaximalClearRun.eq_of_mem {first' count' k : ℕ} (run : MaximalClearRun bitmap n first count)
    (other : MaximalClearRun bitmap n first' count') (above : first ≤ k) (below : k < first + count)
    (above' : first' ≤ k) (below' : k < first' + count') : first' = first ∧ count' = count := by
  have start : first' = first := by
    rcases lt_trichotomy first' first with before | same | behind
    · have set := run.left (first - 1) (by omega)
      rw [other.clear (first - 1) (by omega) (by omega)] at set
      contradiction
    · exact same
    · have set := other.left (first' - 1) (by omega)
      rw [run.clear (first' - 1) (by omega) (by omega)] at set
      contradiction
  subst start
  refine ⟨rfl, ?_⟩
  have inside := run.inside
  have inside' := other.inside
  rcases lt_trichotomy count' count with shorter | same | longer
  · have set := other.right (by omega)
    rw [run.clear (first' + count') (by omega) (by omega)] at set
    contradiction
  · exact same
  · have set := run.right (by omega)
    rw [other.clear (first' + count) (by omega) (by omega)] at set
    contradiction

/-- The first search finds the first run. -/
theorem maximalClearRun_of_first (found : rtlFindFirstRunClear bitmap n = (first, count))
    (some : ∃ k < n, bitmap k = false) :
    MaximalClearRun bitmap n first count ∧ ∀ k < first, bitmap k = true := by
  obtain ⟨-, inside, before, clear, stop, atEnd⟩ := rtlFindNextForwardRunClear_spec bitmap (Nat.zero_le n) found
  have set : ∀ k < first, bitmap k = true := fun k below => before k (Nat.zero_le k) below
  have nonempty : 0 < count := by
    by_contra none
    obtain ⟨k, below, isClear⟩ := some
    rw [set k (by have := atEnd (by omega); omega)] at isClear
    contradiction
  exact ⟨⟨⟨nonempty, inside, clear⟩, fun k last => set k (by omega), stop⟩, set⟩

/-- A search that starts behind a maximal run finds the next one, if there is one. -/
theorem MaximalClearRun.next {index bits : ℕ} (run : MaximalClearRun bitmap n first count)
    (found : rtlFindNextForwardRunClear bitmap n (first + count) = (index, bits)) :
    (∀ k, first + count ≤ k → k < index → bitmap k = true) ∧ (bits = 0 → index = n) ∧
      (bits ≠ 0 → MaximalClearRun bitmap n index bits ∧ first + count < index) := by
  obtain ⟨low, inside, before, clear, stop, atEnd⟩ := rtlFindNextForwardRunClear_spec bitmap run.inside found
  refine ⟨before, atEnd, fun some => ?_⟩
  have behind : first + count < index := by
    by_contra here
    obtain rfl : index = first + count := by omega
    have set := run.right (by omega)
    rw [clear _ le_rfl (by omega)] at set
    contradiction
  exact ⟨⟨⟨by omega, inside, clear⟩, fun k last => before k (by omega) (by omega), stop⟩, behind⟩

end Maximal

/-- The maximal clear runs below a position, in increasing order. -/
structure RunsBelow (bitmap : Bitmap) (n frontier : ℕ) (runs : List (ℕ × ℕ)) : Prop where
  maximal : ∀ r ∈ runs, MaximalClearRun bitmap n r.1 r.2
  sorted : runs.Pairwise fun r t => r.1 + r.2 < t.1
  complete : ∀ k < frontier, bitmap k = false → ∃ r ∈ runs, r.1 ≤ k ∧ k < r.1 + r.2

section RunsBelow

variable {bitmap : Bitmap} {n frontier : ℕ} {runs : List (ℕ × ℕ)}

/-- Below the position every clear bit is in one run and no set bit is in any. -/
theorem RunsBelow.countP_eq (below : RunsBelow bitmap n frontier runs) {k : ℕ} (inside : k < frontier) :
    runs.countP (fun r => r.1 ≤ k ∧ k < r.1 + r.2) = if bitmap k then 0 else 1 := by
  cases bit : bitmap k with
  | true =>
    rw [if_pos rfl, List.countP_eq_zero]
    intro r member covers
    have covers := of_decide_eq_true covers
    have clear := (below.maximal r member).clear k covers.1 covers.2
    rw [bit] at clear
    contradiction
  | false =>
    rw [if_neg (by decide)]
    obtain ⟨r, member, above, under⟩ := below.complete k inside bit
    obtain ⟨before, after, rfl⟩ := List.append_of_mem member
    obtain ⟨-, later, apart⟩ := List.pairwise_append.mp below.sorted
    have none : before.countP (fun r => r.1 ≤ k ∧ k < r.1 + r.2) = 0 := by
      rw [List.countP_eq_zero]
      intro other there covers
      have covers := of_decide_eq_true covers
      have order := apart other there r List.mem_cons_self
      omega
    have none' : after.countP (fun r => r.1 ≤ k ∧ k < r.1 + r.2) = 0 := by
      rw [List.countP_eq_zero]
      intro other there covers
      have covers := of_decide_eq_true covers
      have order := (List.pairwise_cons.mp later).1 other there
      omega
    rw [List.countP_append, List.countP_cons_of_pos (by simp [above, under]), none, none']

/-- All maximal clear runs are there once the position is at the end. -/
theorem RunsBelow.mem (below : RunsBelow bitmap n n runs) {first count : ℕ}
    (run : MaximalClearRun bitmap n first count) : (first, count) ∈ runs := by
  have nonempty := run.nonempty
  have inside := run.inside
  obtain ⟨r, member, above, under⟩ := below.complete first (by omega) (run.clear first le_rfl (by omega))
  obtain ⟨rfl, rfl⟩ := (below.maximal r member).eq_of_mem run above under le_rfl (by omega)
  exact member

/-- The run at the position is issued and the position moves on. -/
theorem RunsBelow.snoc {first count index : ℕ} (below : RunsBelow bitmap n first runs)
    (run : MaximalClearRun bitmap n first count) (apart : ∀ r ∈ runs, r.1 + r.2 < first)
    (set : ∀ k, first + count ≤ k → k < index → bitmap k = true) :
    RunsBelow bitmap n index (runs ++ [(first, count)]) := by
  refine ⟨?_, ?_, ?_⟩
  · intro r member
    obtain old | new := List.mem_append.mp member
    · exact below.maximal r old
    · obtain rfl := List.mem_singleton.mp new
      exact run
  · rw [List.pairwise_append]
    refine ⟨below.sorted, List.pairwise_singleton _ _, fun r member t last => ?_⟩
    obtain rfl := List.mem_singleton.mp last
    exact apart r member
  · intro k inside clear
    by_cases before : k < first
    · obtain ⟨r, member, above, under⟩ := below.complete k before clear
      exact ⟨r, List.mem_append_left _ member, above, under⟩
    · refine ⟨_, List.mem_append_right _ (List.mem_singleton_self _), by omega, ?_⟩
      by_contra behind
      rw [set k (by omega) inside] at clear
      contradiction

end RunsBelow

/-- The requests that a step of the dispatch routine for call `i` sends to the lower driver. -/
def State.issues (i : ℕ) (s : State) (a : Action) : List LowerIrp :=
  if a.dispatches i then
    (s.calls[i]?).elim [] fun c => ((s.step a).bind fun t => t.calls[i]?).elim [] fun c' =>
      c'.lowerIrps.drop c.lowerIrps.length
  else []

/-- `BuildIrp` succeeds for call `i`. -/
def buildsIrp (i : ℕ) (s : State) : Action → Bool
  | .call j out => j ≠ i || ((s.calls[i]?).all fun c => match c.pc with
    | .split _ _ _ _ => out.memory
    | _ => true)
  | _ => true

/-- A call as a step leaves it: moved by its dispatch routine, or at the same point. -/
theorem call_of_step {s s' : State} {a : Action} {i : ℕ} {c : Call} (present : s.calls[i]? = some c)
    (moved : s.step a = some s') : ∃ c', s'.calls[i]? = some c' ∧
      ((∃ out, a = .call i out ∧ CallStep s.shared i c out s'.shared c') ∨
        (a.dispatches i = false ∧ c'.pc = c.pc ∧ c'.irp = c.irp)) := by
  have inside := (List.getElem?_eq_some_iff.mp present).1
  cases step_cases moved with
  | receive => exact ⟨c, by rw [List.getElem?_append_left inside, present], .inr ⟨rfl, rfl, rfl⟩⟩
  | @call j out d sh' d' there taken =>
    by_cases same : j = i
    · subst same
      obtain rfl := Option.some.inj (present.symm.trans there)
      exact ⟨d', by rw [State.update_calls, List.getElem?_set_self inside], .inl ⟨out, rfl, taken⟩⟩
    · exact ⟨c, by rw [State.update_calls, List.getElem?_set_ne same, present],
        .inr ⟨by simp [Action.dispatches, same], rfl, rfl⟩⟩
  | @lower _ j d sh' d' there taken =>
    by_cases same : j = i
    · subst same
      obtain rfl := Option.some.inj (present.symm.trans there)
      exact ⟨d', by rw [State.update_calls, List.getElem?_set_self inside],
        .inr ⟨taken.not_dispatch _, taken.pc, taken.irp⟩⟩
    · exact ⟨c, by rw [State.update_calls, List.getElem?_set_ne same, present], .inr ⟨taken.not_dispatch _, rfl, rfl⟩⟩
  | worker taken =>
    cases taken with
    | @completeIrp _ _ j ioStatus item d at_ found holds there =>
      by_cases same : j = i
      · subst same
        obtain rfl := Option.some.inj (present.symm.trans there)
        exact ⟨_, List.getElem?_set_self inside, .inr ⟨rfl, rfl, rfl⟩⟩
      · exact ⟨c, by rw [List.getElem?_set_ne same, present], .inr ⟨rfl, rfl, rfl⟩⟩
    | _ => exact ⟨c, present, .inr ⟨rfl, rfl, rfl⟩⟩
  | remover taken => exact ⟨c, by rw [taken.frame.2.2.2.2, present], .inr ⟨rfl, rfl, rfl⟩⟩
  | initializeDevice => exact ⟨c, present, .inr ⟨rfl, rfl, rfl⟩⟩

/-- Where the loop is: at a maximal run behind those that were issued, or behind the last one. -/
def Pc.Splits (bitmap : Bitmap) (n : ℕ) (runs : List (ℕ × ℕ)) : Pc → Prop
  | .split bitmap' clearIndex clearBits _ =>
    bitmap' = bitmap ∧ MaximalClearRun bitmap n clearIndex clearBits ∧ ∀ r ∈ runs, r.1 + r.2 < clearIndex
  | .finishScatter _ => True
  | .returned _ => True
  | _ => False

/-- The read's record along a run: what has been issued are the maximal clear runs below the position, and at
most `bound` steps of its dispatch routine are left. -/
structure Splitting (io : IoStackLocation) (bitmap : Bitmap) (i bound : ℕ) (s : State) (issued : List LowerIrp) :
    Prop where
  call : ∃ c runs, s.calls[i]? = some c ∧ c.irp.stack = io ∧
    issued = runs.map (fun r => LowerIrp.gap io r.1 r.2) ∧
    RunsBelow bitmap (io.length / 512) (c.pc.frontier (io.length / 512)) runs ∧
      c.pc.Splits bitmap (io.length / 512) runs ∧
    c.pc.stepsLeft (io.length / 512) ≤ bound

section Splitting

variable {io : IoStackLocation} {bitmap : Bitmap} {i bound : ℕ} {s s' : State} {a : Action} {issued : List LowerIrp}

theorem issues_of_not_dispatch (idle : a.dispatches i = false) : s.issues i a = [] := by
  rw [State.issues, idle]
  rfl

theorem issues_of_call {c c' : Call} {out : Outcome} (present : s.calls[i]? = some c)
    (moved : s.step (.call i out) = some s') (present' : s'.calls[i]? = some c') :
    s.issues i (.call i out) = c'.lowerIrps.drop c.lowerIrps.length := by
  rw [State.issues, if_pos (by simp [Action.dispatches]), present, moved]
  simp only [Option.elim_some, Option.bind_some, present']

/-- One step issues the run the loop is at, or nothing. -/
theorem Splitting.step (splitting : Splitting io bitmap i bound s issued) (builds : buildsIrp i s a = true)
    (moved : s.step a = some s') :
    ∃ left, left + (if a.dispatches i then 1 else 0) ≤ bound ∧
      Splitting io bitmap i left s' (issued ++ s.issues i a) := by
  obtain ⟨c, runs, present, rfl, rfl, below, splits, steps⟩ := splitting
  obtain ⟨c', present', ⟨out, rfl, taken⟩ | ⟨idle, pc, irp⟩⟩ := call_of_step present moved
  · have memory : ∀ {bitmap' : Bitmap} {clearIndex clearBits count : ℕ},
        c.pc = .split bitmap' clearIndex clearBits count → out.memory = true := by
      intro bitmap' clearIndex clearBits count at_
      simpa [buildsIrp, present, at_] using builds
    rw [issues_of_call present moved present', if_pos (by simp [Action.dispatches])]
    generalize s'.shared = sh' at taken
    cases taken with
    | @splitOn _ bitmap' first count counted index bits scatter pc at_ live frame cached next goes =>
      rw [at_] at below splits steps
      obtain ⟨rfl, run, apart⟩ := splits
      obtain ⟨set, atEnd, further⟩ := run.next next
      have nonempty := run.nonempty
      have inside := run.inside
      have on := below.snoc run apart set
      have gaps : runs.map (fun r => LowerIrp.gap c.irp.stack r.1 r.2) ++
          (c.lowerIrps ++ [LowerIrp.gap c.irp.stack first count]).drop c.lowerIrps.length =
          (runs ++ [(first, count)]).map fun r => LowerIrp.gap c.irp.stack r.1 r.2 := by
        rw [List.drop_left, List.map_append, List.map_singleton]
      obtain ⟨none, rfl⟩ | ⟨some, rfl⟩ := goes
      · refine ⟨1, ?_, ⟨_, _, present', rfl, gaps, ?_, trivial, le_rfl⟩⟩
        · simp only [Pc.stepsLeft] at steps
          omega
        · rw [atEnd none] at on
          exact on
      · obtain ⟨more, behind⟩ := further some
        refine ⟨_, ?_, ⟨_, _, present', rfl, gaps, on, ⟨rfl, more, ?_⟩, le_rfl⟩⟩
        · have inside' := more.inside
          simp only [Call.goto, Pc.stepsLeft] at steps ⊢
          omega
        · intro r member
          obtain old | new := List.mem_append.mp member
          · have order := apart r old
            omega
          · obtain rfl := List.mem_singleton.mp new
            exact behind
    | splitFail at_ live noMemory =>
      rw [memory at_] at noMemory
      contradiction
    | finishScatter at_ live =>
      rw [at_] at below steps
      refine ⟨0, steps, ⟨_, runs, present', by rw [scatterComplete_irp]; rfl, ?_, ?_, ?_, ?_⟩⟩
      · rw [scatterComplete_lowerIrps]
        change _ ++ c.lowerIrps.drop c.lowerIrps.length = _
        rw [List.drop_length, List.append_nil]
      · rw [scatterComplete_pc]
        exact below
      · rw [scatterComplete_pc]
        trivial
      · rw [scatterComplete_pc]
        exact le_rfl
    | refuse at_ => rcases at_ with at_ | at_ | at_ <;> rw [at_] at splits <;> contradiction
    | noItem at_ => rcases at_ with at_ | at_ <;> rw [at_] at splits <;> contradiction
    | noLock at_ => rcases at_ with at_ | at_ <;> rw [at_] at splits <;> contradiction
    | _ at_ => rw [at_] at splits; contradiction
  · rw [issues_of_not_dispatch idle, List.append_nil, idle]
    exact ⟨bound, le_rfl, ⟨c', runs, present', by rw [irp], rfl, by rwa [pc], by rwa [pc], by rwa [pc]⟩⟩

/-- Along a run of any parties. -/
theorem Splitting.run {as : List Action} (run : Run State.step (fun t a => buildsIrp i t a = true) s as s')
    (start : Splitting io bitmap i bound s []) :
    ∃ left, left + as.countP (Action.dispatches i) ≤ bound ∧
      Splitting io bitmap i left s' (observed State.step (State.issues i) s as) := by
  induction run with
  | nil => exact ⟨bound, by simp, start⟩
  | snoc before builds moved ih =>
    obtain ⟨left, used, there⟩ := ih
    obtain ⟨fewer, spent, next⟩ := there.step builds moved
    rw [before.observed_snoc moved]
    refine ⟨fewer, ?_, next⟩
    rw [List.countP_append, List.countP_singleton]
    omega

end Splitting

/-- A request reads a run of sectors: its bytes of the buffer, from the same distance behind the read's offset on
the disk, and nothing overflows on the way. -/
structure LowerIrp.ReadsRun (io : IoStackLocation) (lower : LowerIrp) (r : ℕ × ℕ) : Prop where
  fits : r.1 * 512 < 2 ^ 32 ∧ r.2 * 512 < 2 ^ 32
  bufferOffset : lower.bufferOffset = 512 * r.1
  length : lower.length = 512 * r.2
  diskOffset : sub64 lower.diskOffset io.byteOffset = lower.bufferOffset
  exact : io.byteOffset + io.length < 2 ^ 63 → lower.diskOffset = io.byteOffset + lower.bufferOffset

theorem gap_readsRun {io : IoStackLocation} {bitmap : Bitmap} {r : ℕ × ℕ}
    (run : MaximalClearRun bitmap (io.length / 512) r.1 r.2) : (LowerIrp.gap io r.1 r.2).ReadsRun io r := by
  have inside := run.inside
  have short := io.length_lt
  obtain ⟨low, high⟩ := io.byteOffset_range
  have index : shl9 r.1 = r.1 * 512 := shl9_of_lt (by omega)
  have bits : shl9 r.2 = r.2 * 512 := shl9_of_lt (by omega)
  have offset : (LowerIrp.gap io r.1 r.2).bufferOffset = 512 * r.1 := by
    change ((shl9 r.1 : ℕ) : ℤ) = 512 * r.1
    rw [index]
    push_cast
    ring
  refine ⟨⟨by omega, by omega⟩, offset, ?_, ?_, fun below => ?_⟩
  · change shl9 r.2 = 512 * r.2
    rw [bits, Nat.mul_comm]
  · rw [offset]
    change wrap64 (wrap64 (io.byteOffset + r.1 * 512) - io.byteOffset) = 512 * r.1
    rw [wrap64, wrap64, Int.bmod_sub_bmod, add_sub_cancel_left, ← wrap64, wrap64_of_range (by omega) (by omega)]
    ring
  · rw [offset]
    change wrap64 (io.byteOffset + r.1 * 512) = io.byteOffset + 512 * r.1
    rw [wrap64_of_range (by omega) (by omega)]
    ring

/-- The dispatch call is in the splitting loop. -/
def Pc.isSplit : Pc → Bool
  | .split _ _ _ _ => true
  | _ => false

theorem Pc.Splits.frontier {bitmap : Bitmap} {n : ℕ} {runs : List (ℕ × ℕ)} {pc : Pc} (splits : pc.Splits bitmap n runs)
    (left : pc.isSplit = false) : pc.frontier n = n := by
  cases pc <;> first | rfl | contradiction

/-- In the loop the next round can be taken as long as the scatter object is there. -/
theorem split_moves {s : State} {i : ℕ} {c : Call} (present : s.calls[i]? = some c) (inLoop : c.pc.isSplit = true)
    (live : c.scatter.isSome = true) (out : Outcome) : (s.step (.call i out)).isSome = true := by
  obtain ⟨scatter, live⟩ := Option.isSome_iff_exists.mp live
  cases at_ : c.pc with
  | split bitmap clearIndex clearBits splits =>
    simp [State.step, present, callStep, at_, live]
  | _ =>
    rw [at_] at inLoop
    contradiction

/-- From the first gap on, with every request built and whatever else happens in between, the loop issues the
maximal clear runs of the bitmap in increasing order, each at its place, and once it is left it has issued all of
them: every clear sector is read once and no set one is read over. The sectors bound the rounds it takes. -/
theorem gap_splitting (s₀ s : State) (as : List Action) (i : ℕ) (c₀ c : Call) (bitmap : Bitmap)
    (present₀ : s₀.calls[i]? = some c₀) (clear : ∃ k < c₀.irp.stack.length / 512, bitmap k = false)
    (at₀ : c₀.pc = .split bitmap (rtlFindFirstRunClear bitmap (c₀.irp.stack.length / 512)).1
      (rtlFindFirstRunClear bitmap (c₀.irp.stack.length / 512)).2 0)
    (run : Run State.step (fun t a => buildsIrp i t a = true) s₀ as s) (present : s.calls[i]? = some c) :
    (∃ runs : List (ℕ × ℕ), (∀ r ∈ runs, MaximalClearRun bitmap (c₀.irp.stack.length / 512) r.1 r.2) ∧
      runs.Pairwise (fun r t => r.1 + r.2 < t.1) ∧
      List.Forall₂ (LowerIrp.ReadsRun c₀.irp.stack) (observed State.step (State.issues i) s₀ as) runs ∧
      (c.pc.isSplit = false →
        (∀ first count, MaximalClearRun bitmap (c₀.irp.stack.length / 512) first count → (first, count) ∈ runs) ∧
        ∀ k < c₀.irp.stack.length / 512,
          runs.countP (fun r => r.1 ≤ k ∧ k < r.1 + r.2) = if bitmap k then 0 else 1)) ∧
    as.countP (Action.dispatches i) ≤ c₀.irp.stack.length / 512 + 1 ∧
    (c.pc.isSplit = true → c.scatter.isSome = true → ∀ out, (s.step (.call i out)).isSome = true) := by
  obtain ⟨first, before⟩ := maximalClearRun_of_first rfl clear
  have none : RunsBelow bitmap (c₀.irp.stack.length / 512)
      (rtlFindFirstRunClear bitmap (c₀.irp.stack.length / 512)).1 [] := by
    refine ⟨by simp, List.Pairwise.nil, fun k below isClear => ?_⟩
    rw [before k below] at isClear
    contradiction
  have start : Splitting c₀.irp.stack bitmap i (c₀.irp.stack.length / 512 + 1) s₀ [] := by
    refine ⟨c₀, [], present₀, rfl, rfl, ?_, ?_, ?_⟩
    · rw [at₀]
      exact none
    · rw [at₀]
      exact ⟨rfl, first, by simp⟩
    · rw [at₀]
      simp only [Pc.stepsLeft]
      omega
  obtain ⟨left, used, ⟨d, runs, there, same, issued, below, splits, -⟩⟩ := start.run run
  obtain rfl := Option.some.inj (present.symm.trans there)
  refine ⟨⟨runs, below.maximal, below.sorted, ?_, fun out => ?_⟩, by omega,
    fun inLoop live => split_moves present inLoop live⟩
  · rw [issued, List.forall₂_map_left_iff, List.forall₂_same]
    exact fun r member => gap_readsRun (below.maximal r member)
  · rw [splits.frontier out] at below
    exact ⟨fun _ _ maximal => below.mem maximal, fun k inside => below.countP_eq inside⟩

/-- A read of two sectors is about to issue the second one, the first one having come from the queue. -/
def secondGap : State :=
  { State.initial smallDevice with
    calls := [{ Call.receive readTwo with
      pc := .split (fun k => k = 0) 1 1 0
      scatter := some ⟨1, STATUS_SUCCESS, 0⟩ }] }

theorem gap_splitting_secondGap : ∃ runs, List.Forall₂ (LowerIrp.ReadsRun readTwo.stack)
    (observed State.step (State.issues 0) secondGap [.call 0 {}]) runs ∧ (1, 1) ∈ runs := by
  have run : Run State.step (fun t a => buildsIrp 0 t a = true) secondGap [.call 0 {}]
    ((runs? State.step (fun t a => buildsIrp 0 t a = true) secondGap [.call 0 {}]).getD secondGap) :=
    run_getD (by decide +kernel)
  obtain ⟨⟨runs, -, -, issued, out⟩, -⟩ := gap_splitting _ _ _ 0 _ _ (fun k => k = 0) rfl ⟨1, by decide, by decide⟩
    rfl run (Option.some_get (by decide +kernel)).symm
  refine ⟨runs, issued, (out (by decide +kernel)).1 1 1 ⟨⟨by decide, by decide, ?_⟩, ?_, ?_⟩⟩
  · intro k above below
    simp only [decide_eq_false_iff_not]
    omega
  · intro k last
    simp only [decide_eq_true_eq]
    omega
  · intro below
    exact absurd below (by decide)

end QueueCache
