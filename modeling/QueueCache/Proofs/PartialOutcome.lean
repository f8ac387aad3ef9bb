import QueueCache.Proofs.PartialIrp

/-! # How a scattered read ends

Whatever the way the requests get their part of the caller's buffer, whichever allocation fails and in
whatever order the parts come back, the object lives as long as the loop or a part below refers to it. With it
the read ends, and its outcome is a matter of the parts alone.
-/

namespace QueueCache.PartialIrp

open Transition

/-- What a step contributes to the outcome: a part that cannot be built fails, and a part below returns. -/
def outcomes (lower original : DeviceFlags) (s : State) : Action → List IoStatusBlock
  | .buildIrp out =>
    match s.gaps, s.scatter with
    | gap :: _, some scatter =>
      if (buildIrp lower original .read s.buffer s.length scatter gap out).2.isNone then
        [⟨STATUS_INSUFFICIENT_RESOURCES, 0⟩]
      else []
    | _, _ => []
  | .finish => []
  | .lowerComplete _ ioStatus => [ioStatus]

/-- The lower driver moves no more than it was asked for. -/
def withinGap (s : State) : Action → Bool
  | .lowerComplete n ioStatus =>
    (s.lowerIrps[n]?).all fun request => ioStatus.information ≤ request.gap.bytesThisIrp
  | _ => true

/-- The answer to the read: success with all bytes where every part succeeded, and otherwise the status of a
part that failed and no bytes. -/
structure AnswerTo (parts : List IoStatusBlock) (answer : IoStatusBlock) : Prop where
  success : (∀ part ∈ parts, ntSuccess part.status = true) →
    answer = ⟨STATUS_SUCCESS, (parts.map IoStatusBlock.information).sum⟩
  failure : (∃ part ∈ parts, ntSuccess part.status = false) →
    ntSuccess answer.status = false ∧ answer.information = 0 ∧ ∃ part ∈ parts, part.status = answer.status

/-- The object keeps the same of the parts so far. -/
structure Gathers (parts : List IoStatusBlock) (status : NtStatus) (bytes : ℕ) : Prop where
  success : (∀ part ∈ parts, ntSuccess part.status = true) →
    status = STATUS_SUCCESS ∧ bytes = (parts.map IoStatusBlock.information).sum
  failure : (∃ part ∈ parts, ntSuccess part.status = false) →
    ntSuccess status = false ∧ ∃ part ∈ parts, part.status = status

section Gathers

variable {parts : List IoStatusBlock} {status : NtStatus} {bytes : ℕ} {part : IoStatusBlock}

theorem Gathers.succeed (before : Gathers parts status bytes) (good : ntSuccess part.status = true) :
    Gathers (parts ++ [part]) status (bytes + part.information) := by
  constructor
  · intro all
    obtain ⟨success, sum⟩ := before.success fun other member => all other (List.mem_append_left _ member)
    refine ⟨success, ?_⟩
    rw [sum]
    simp
  · rintro ⟨other, member, bad⟩
    obtain old | new := List.mem_append.mp member
    · obtain ⟨failed, cause, there, same⟩ := before.failure ⟨other, old, bad⟩
      exact ⟨failed, cause, List.mem_append_left _ there, same⟩
    · obtain rfl := List.mem_singleton.mp new
      rw [good] at bad
      contradiction

theorem Gathers.fail (bad : ntSuccess part.status = false) : Gathers (parts ++ [part]) part.status bytes := by
  have member : part ∈ parts ++ [part] := List.mem_append_right _ (List.mem_singleton.mpr rfl)
  constructor
  · intro all
    rw [all part member] at bad
    contradiction
  · intro _
    exact ⟨bad, part, member, rfl⟩

/-- The destructor turns what the object kept into the answer. -/
theorem Gathers.answer (gathers : Gathers parts status bytes) :
    AnswerTo parts (if ntSuccess status then ⟨status, bytes⟩ else ⟨status, 0⟩) := by
  constructor
  · intro all
    obtain ⟨rfl, rfl⟩ := gathers.success all
    rfl
  · intro some
    obtain ⟨failed, part, member, same⟩ := gathers.failure some
    rw [failed]
    exact ⟨failed, rfl, part, member, same⟩

end Gathers

/-- Requests get a part of a buffer of the object's own. -/
def bounces (lower original : DeviceFlags) : Bool := !lower.directIo && !original.bufferedIo

/-- What `BuildIrp` finds when it is called: with the bounce buffer a system address goes with an allocation. -/
structure Ready (bounce : Bool) (original : DeviceFlags) (scatter : ScatteredIrp) : Prop where
  own : bounce = true → scatter.systemBuffer = true → scatter.allocatedBuffer.isSome = true
  plain : bounce = false → scatter.copyBack = false ∧ scatter.allocatedBuffer = none ∧
    scatter.systemBuffer = original.bufferedIo

/-- `BuildIrp` builds a request with a new reference, in the bounce buffer or not, or it fails. -/
inductive Built (bounce : Bool) (original : DeviceFlags) (scatter : ScatteredIrp) (gap : Gap) :
    ScatteredIrp × Option LowerRequest → Prop
  | built {scatter' : ScatteredIrp} {request : LowerRequest} (count : scatter'.scatterCount = scatter.scatterCount + 1)
      (status : scatter'.lastFailedStatus = scatter.lastFailedStatus)
      (bytes : scatter'.bytesCompleted = scatter.bytesCompleted) (same : request.gap = gap)
      (allocated : request.allocated = bounce) (ready : Ready bounce original scatter') :
      Built bounce original scatter gap (scatter', some request)
  | failed {scatter' : ScatteredIrp} (count : scatter'.scatterCount = scatter.scatterCount)
      (status : scatter'.lastFailedStatus = STATUS_INSUFFICIENT_RESOURCES)
      (noCopy : bounce = false → scatter'.copyBack = false) : Built bounce original scatter gap (scatter', none)

theorem buildIrp_built {lower original : DeviceFlags} {scatter : ScatteredIrp} (caller : Bytes) (length : ℕ) (gap : Gap)
    (out : BuildOutcome) (ready : Ready (bounces lower original) original scatter) :
    Built (bounces lower original) original scatter gap
      (buildIrp lower original .read caller length scatter gap out) := by
  have noCopy : bounces lower original = false → scatter.copyBack = false := fun plain => (ready.plain plain).1
  unfold buildIrp
  dsimp only
  split
  · next buffered =>
    have plain : bounces lower original = false := by simp [bounces, (Bool.and_eq_true _ _ ▸ buffered).1]
    split
    · exact .built rfl rfl rfl rfl plain.symm ⟨by simp [plain], ready.plain⟩
    · exact .failed rfl rfl noCopy
  · next unbuffered =>
    split
    · exact .failed rfl rfl noCopy
    · split
      · next direct =>
        have plain : bounces lower original = false := by simp [bounces, direct]
        split
        · exact .built rfl rfl rfl rfl plain.symm ⟨by simp [plain], ready.plain⟩
        · exact .failed rfl rfl noCopy
      · next indirect =>
        split
        · next system =>
          refine .built rfl rfl rfl rfl ?_ ⟨ready.own, ready.plain⟩
          cases mode : bounces lower original with
          | true => exact ready.own mode system
          | false => rw [(ready.plain mode).2.1]; rfl
        · next fresh =>
          -- Only the bounce buffer is without a system address.
          have bounce : bounces lower original = true := by
            by_contra plain
            rw [Bool.not_eq_true] at plain
            rw [(ready.plain plain).2.2] at fresh
            simp [bounces, indirect, fresh] at plain
          split
          · exact .failed rfl rfl noCopy
          · split
            · exact .failed rfl rfl noCopy
            · refine .built rfl rfl rfl rfl bounce.symm ⟨fun _ _ => rfl, fun plain => ?_⟩
              rw [bounce] at plain
              contradiction

/-- A read on its way with the outcomes so far, or one that has ended. `before` is the caller's buffer as it was and
`all` are the gaps. -/
inductive Partway (lower original : DeviceFlags) (before : Bytes) (all : List Gap) (s : State)
    (parts : List IoStatusBlock) : Prop
  | live (scatter : ScatteredIrp) (there : s.scatter = some scatter) (open_ : s.completed = none)
      (count : scatter.scatterCount = s.lowerIrps.length + if s.looping then 1 else 0)
      (held : s.looping = true ∨ s.lowerIrps ≠ []) (stopped : s.looping = false → s.gaps = [])
      (gathers : Gathers parts scatter.lastFailedStatus scatter.bytesCompleted)
      (ready : s.gaps ≠ [] → Ready (bounces lower original) original scatter)
      (noCopy : bounces lower original = false → scatter.copyBack = false)
      (requests : ∀ request ∈ s.lowerIrps, request.allocated = bounces lower original ∧ request.gap ∈ all)
      (gaps : ∀ gap ∈ s.gaps, gap ∈ all)
      (untouched : bounces lower original = true → s.buffer = before)
      (outside : bounces lower original = false → ∀ x, (∀ gap ∈ all, ¬ gap.Covers x) → s.buffer x = before x)
  | ended (answer : IoStatusBlock) (gone : s.scatter = none) (completed : s.completed = some answer)
      (looped : s.looping = false) (none : s.lowerIrps = []) (answers : AnswerTo parts answer)
      (untouched : bounces lower original = true → ntSuccess answer.status = false → s.buffer = before)
      (outside : bounces lower original = false → ∀ x, (∀ gap ∈ all, ¬ gap.Covers x) → s.buffer x = before x)

section Partway

variable {lower original : DeviceFlags} {disk before : Bytes} {all : List Gap} {s s' : State} {scatter : ScatteredIrp}
  {parts : List IoStatusBlock}

/-- A reference is given up, and with the last one the read ends. -/
theorem Partway.complete (open_ : s.completed = none)
    (count : scatter.scatterCount = s.lowerIrps.length + (if s.looping then 1 else 0) + 1)
    (stopped : s.looping = false → s.gaps = [])
    (gathers : Gathers parts scatter.lastFailedStatus scatter.bytesCompleted)
    (ready : s.gaps ≠ [] → Ready (bounces lower original) original scatter)
    (noCopy : bounces lower original = false → scatter.copyBack = false)
    (requests : ∀ request ∈ s.lowerIrps, request.allocated = bounces lower original ∧ request.gap ∈ all)
    (gaps : ∀ gap ∈ s.gaps, gap ∈ all) (untouched : bounces lower original = true → s.buffer = before)
    (outside : bounces lower original = false → ∀ x, (∀ gap ∈ all, ¬ gap.Covers x) → s.buffer x = before x) :
    Partway lower original before all (complete s scatter) parts := by
  unfold PartialIrp.complete
  dsimp only
  split
  · next last =>
    have looped : s.looping = false := by
      by_contra running
      rw [Bool.not_eq_false] at running
      rw [running] at count
      simp only [if_true] at count
      omega
    have none : s.lowerIrps = [] := by
      rw [looped] at count
      simp only [Bool.false_eq_true, if_false] at count
      exact List.length_eq_zero_iff.mp (by omega)
    have answers := gathers.answer
    split
    · next success =>
      rw [if_pos success] at answers
      refine .ended _ rfl rfl looped none answers (fun _ bad => ?_) fun plain x free => ?_
      · rw [success] at bad
        contradiction
      · dsimp only
        rw [noCopy plain]
        exact outside plain x free
    · next failure =>
      rw [if_neg failure] at answers
      exact .ended _ rfl rfl looped none answers (fun bounce _ => untouched bounce) outside
  · next more =>
    refine .live { scatter with scatterCount := scatter.scatterCount - 1 } rfl open_ ?_ ?_ stopped gathers ?_ noCopy
      requests gaps untouched outside
    · dsimp only
      omega
    · by_contra nobody
      rw [not_or, Bool.not_eq_true, not_not] at nobody
      rw [nobody.1, nobody.2] at count
      simp at count
      omega
    · intro left
      exact ⟨(ready left).own, (ready left).plain⟩

theorem Partway.step {a : Action} (partway : Partway lower original before all s parts) (within : withinGap s a = true)
    (moved : s.step lower original disk a = some s') :
    Partway lower original before all s' (parts ++ outcomes lower original s a) := by
  cases partway with
  | ended answer gone =>
    rw [step_of_gone gone] at moved
    contradiction
  | live scatter there open_ count held stopped gathers ready noCopy requests gaps untouched outside =>
    cases a with
    | buildIrp out =>
      simp only [State.step, there, Option.map_some] at moved
      cases left : s.gaps with
      | nil =>
        rw [left] at moved
        contradiction
      | cons gap rest =>
        have here : gap ∈ all := gaps gap (by rw [left]; exact List.mem_cons_self ..)
        have looping : s.looping = true := by
          by_contra ended
          rw [stopped (by simpa using ended)] at left
          contradiction
        have built := buildIrp_built s.buffer s.length gap out (ready (by simp [left]))
        simp only [outcomes, left, there]
        rw [left] at moved
        dsimp only at moved
        generalize buildIrp lower original .read s.buffer s.length scatter gap out = result at built moved
        cases built with
        | @built _ request more status bytes same allocated next =>
          dsimp only at moved
          obtain rfl := Option.some.inj moved
          simp only [Option.isNone_some, Bool.false_eq_true, if_false, List.append_nil]
          refine .live _ rfl open_ ?_ (.inl looping) (fun ended => by rw [looping] at ended; contradiction) ?_
            (fun _ => next) (fun plain => (next.plain plain).1) ?_ (fun other member => gaps other ?_) untouched outside
          · rw [more, count, List.length_append, List.length_singleton]
            push_cast
            omega
          · rw [status, bytes]
            exact gathers
          · intro other member
            obtain old | new := List.mem_append.mp member
            · exact requests other old
            · obtain rfl := List.mem_singleton.mp new
              exact ⟨allocated, same ▸ here⟩
          · rw [left]
            exact List.mem_cons_of_mem _ member
        | failed kept status copy =>
          dsimp only at moved
          obtain rfl := Option.some.inj moved
          simp only [Option.isNone_none, if_true]
          refine .live _ rfl open_ (kept.trans count) (.inl looping) (fun _ => rfl) ?_
            (fun left => absurd rfl left) copy requests (by simp) untouched outside
          rw [status]
          exact Gathers.fail (by decide)
    | finish =>
      simp only [State.step, there, Option.map_some] at moved
      split at moved
      · next last =>
        obtain rfl := Option.some.inj moved
        rw [Bool.and_eq_true, List.isEmpty_iff] at last
        rw [last.1] at count
        rw [outcomes, List.append_nil]
        exact Partway.complete (s := { s with looping := false }) open_ (by simpa using count) (fun _ => last.2) gathers
          ready noCopy requests gaps untouched outside
      · contradiction
    | lowerComplete n ioStatus =>
      obtain ⟨request, present, returned⟩ := Option.bind_eq_some_iff.mp moved
      obtain ⟨object, found, returned⟩ := Option.map_eq_some_iff.mp returned
      obtain rfl := Option.some.inj (there.symm.trans found)
      simp only [withinGap, present, Option.all_some, decide_eq_true_eq] at within
      obtain ⟨kind, here⟩ := requests request (List.mem_of_getElem? present)
      have fewer : scatter.scatterCount = (s.lowerIrps.eraseIdx n).length + (if s.looping then 1 else 0) + 1 := by
        have inside := (List.getElem?_eq_some_iff.mp present).1
        rw [count, List.length_eraseIdx_of_lt inside]
        omega
      have others : ∀ other ∈ s.lowerIrps.eraseIdx n, other.allocated = bounces lower original ∧ other.gap ∈ all :=
        fun other member => requests other (List.mem_of_mem_eraseIdx member)
      rw [outcomes]
      dsimp only at returned
      split at returned
      · next good =>
        split at returned <;> subst returned
        · next allocated =>
          have bounce : bounces lower original = true := kind.symm.trans allocated
          refine Partway.complete open_ fewer stopped (gathers.succeed good)
            (fun left => ⟨fun _ system => ?_, fun plain => ?_⟩) noCopy others gaps untouched outside
          · rw [Option.isSome_map]
            exact (ready left).own bounce system
          · rw [bounce] at plain
            contradiction
        · next direct =>
          have plain : bounces lower original = false := kind.symm.trans (by simpa using direct)
          refine Partway.complete open_ fewer stopped (gathers.succeed good)
            (fun left => ⟨(ready left).own, (ready left).plain⟩) noCopy others gaps
            (fun bounce => ?_) fun _ x free => ?_
          · rw [plain] at bounce
            contradiction
          · have away := free request.gap here
            rw [← outside plain x free]
            refine if_neg fun inside => away ⟨inside.1, lt_of_lt_of_le inside.2 ?_⟩
            omega
      · next bad =>
        subst returned
        exact Partway.complete open_ fewer stopped (Gathers.fail (by simpa using bad))
          (fun left => ⟨(ready left).own, (ready left).plain⟩) noCopy others gaps untouched outside

end Partway

end QueueCache.PartialIrp
