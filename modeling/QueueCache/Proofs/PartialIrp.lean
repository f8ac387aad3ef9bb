import Mathlib.Algebra.BigOperators.Group.List.Basic
import Mathlib.Data.List.Perm.Basic
import QueueCache.ToMathlib.Run
import QueueCache.Model.PartialIrp

/-! # The bounce buffer

Under direct I/O every gap is filled in place, and a byte outside the gaps is not touched. With a buffer of its
own the object gathers the gaps at their offsets in a fresh buffer and copies a prefix of it back that is as
long as the gaps together. The two agree where the prefix is what the gaps cover: at a byte of the prefix
outside the gaps the fresh buffer's zero arrives, and a gap behind the prefix does not arrive.
-/

namespace QueueCache.PartialIrp

open Transition

def Gap.Covers (gap : Gap) (x : ℤ) : Prop :=
  gap.originalIrpOffset ≤ x ∧ x < gap.originalIrpOffset + gap.bytesThisIrp

instance (gap : Gap) (x : ℤ) : Decidable (gap.Covers x) := inferInstanceAs (Decidable (_ ∧ _))

/-- The lower device's byte for a place of the caller's buffer. -/
def Gap.byte (disk : Bytes) (gap : Gap) (x : ℤ) : UInt8 := disk (x - gap.originalIrpOffset + gap.lowerDeviceOffset)

def Gap.Apart (gap other : Gap) : Prop := ∀ x, gap.Covers x → ¬ other.Covers x

theorem Gap.Apart.symm {gap other : Gap} (apart : gap.Apart other) : other.Apart gap :=
  fun x here there => apart x there here

/-- A buffer with the gaps filled from the lower device and every other byte as before. -/
structure Filled (disk before : Bytes) (gaps : List Gap) (after : Bytes) : Prop where
  covered : ∀ gap ∈ gaps, ∀ x, gap.Covers x → after x = gap.byte disk x
  kept : ∀ x, (∀ gap ∈ gaps, ¬ gap.Covers x) → after x = before x

section Filled

variable {disk before after other : Bytes} {gaps more : List Gap} {gap : Gap}

theorem filled_nil : Filled disk before [] before := ⟨by simp, fun _ _ => rfl⟩

theorem Filled.perm (filled : Filled disk before gaps after) (same : gaps.Perm more) : Filled disk before more after :=
  ⟨fun gap member => filled.covered gap (same.mem_iff.mpr member),
    fun x outside => filled.kept x fun gap member => outside gap (same.mem_iff.mp member)⟩

/-- The gaps and the lower device determine the buffer. -/
theorem Filled.unique (filled : Filled disk before gaps after) (same : Filled disk before gaps other) :
    after = other := by
  funext x
  by_cases covered : ∃ gap ∈ gaps, gap.Covers x
  · obtain ⟨gap, member, covers⟩ := covered
    rw [filled.covered gap member x covers, same.covered gap member x covers]
  · have outside : ∀ gap ∈ gaps, ¬ gap.Covers x := fun gap member covers => covered ⟨gap, member, covers⟩
    rw [filled.kept x outside, same.kept x outside]

/-- One more request returns in full. -/
theorem Filled.transfer (filled : Filled disk before gaps after) (apart : ∀ other ∈ gaps, gap.Apart other) :
    Filled disk before (gaps ++ [gap]) (transfer disk gap gap.bytesThisIrp after) := by
  have inside : ∀ x, gap.Covers x → PartialIrp.transfer disk gap gap.bytesThisIrp after x = gap.byte disk x :=
    fun x covers => if_pos covers
  have outside : ∀ x, ¬ gap.Covers x → PartialIrp.transfer disk gap gap.bytesThisIrp after x = after x :=
    fun x free => if_neg free
  refine ⟨fun other member x covers => ?_, fun x free => ?_⟩
  · obtain old | new := List.mem_append.mp member
    · rw [outside x fun here => apart other old x here covers, filled.covered other old x covers]
    · obtain rfl := List.mem_singleton.mp new
      exact inside x covers
  · rw [outside x (free gap (by simp)), filled.kept x fun other member => free other (List.mem_append_left _ member)]

end Filled

/-- The bytes of the gaps together. -/
def totalBytes (gaps : List Gap) : ℕ := (gaps.map Gap.bytesThisIrp).sum

/-- The allocations of `BuildIrp` are granted and the lower driver returns every request in full. -/
def inFull (s : State) : Action → Bool
  | .buildIrp out => out.irp && out.mdl && out.mapping && out.buffer
  | .finish => true
  | .lowerComplete n ioStatus =>
    (s.lowerIrps[n]?).all fun request => ioStatus = ⟨STATUS_SUCCESS, request.gap.bytesThisIrp⟩

/-- A read in progress whose gaps of `done` have arrived, in place or (`bounce`) in the allocated buffer. -/
structure Transferring (bounce : Bool) (disk before : Bytes) (all : List Gap) (s : State) (scatter : ScatteredIrp)
    (done : List Gap) : Prop where
  parts : all.Perm (done ++ (s.lowerIrps.map LowerRequest.gap ++ s.gaps))
  status : scatter.lastFailedStatus = STATUS_SUCCESS
  count : scatter.scatterCount = s.lowerIrps.length + if s.looping then 1 else 0
  bytes : scatter.bytesCompleted = totalBytes done
  stopped : s.looping = false → s.gaps = []
  requests : ∀ request ∈ s.lowerIrps, request.allocated = bounce
  copyBack : scatter.copyBack = scatter.allocatedBuffer.isSome
  direct : bounce = false → scatter.allocatedBuffer = none ∧ Filled disk before done s.buffer
  system : bounce = true → scatter.systemBuffer = scatter.allocatedBuffer.isSome
  unused : bounce = true → scatter.allocatedBuffer = none → s.lowerIrps = [] ∧ done = []
  bounced : bounce = true → s.buffer = before ∧ Filled disk (fun _ => 0) done (scatter.allocatedBuffer.getD fun _ => 0)

/-- What the read leaves in the caller's buffer. -/
def Leaves (bounce : Bool) (disk before : Bytes) (all : List Gap) (after : Bytes) : Prop :=
  if bounce then ∃ gathered, Filled disk (fun _ => 0) all gathered ∧
    after = rtlCopyMemory before 0 gathered 0 (totalBytes all)
  else Filled disk before all after

/-- A read is in progress, or it has been completed. -/
inductive Reads (bounce : Bool) (disk before : Bytes) (all : List Gap) (s : State) : Prop
  | live (scatter : ScatteredIrp) (done : List Gap) (there : s.scatter = some scatter) (open_ : s.completed = none)
      (transferring : Transferring bounce disk before all s scatter done)
  | ended (gone : s.scatter = none) (success : s.completed = some ⟨STATUS_SUCCESS, totalBytes all⟩)
      (leaves : Leaves bounce disk before all s.buffer)

theorem totalBytes_append (gaps more : List Gap) : totalBytes (gaps ++ more) = totalBytes gaps + totalBytes more := by
  rw [totalBytes, List.map_append, List.sum_append]
  rfl

theorem totalBytes_perm {gaps more : List Gap} (same : gaps.Perm more) : totalBytes gaps = totalBytes more :=
  (same.map _).sum_eq

section Step

variable {bounce : Bool} {disk before : Bytes} {all done : List Gap} {s s' : State} {scatter : ScatteredIrp}
  {lower original : DeviceFlags} {a : Action}

/-- A reference is given up; with the last one the read ends. -/
theorem Transferring.complete (count : scatter.scatterCount = s.lowerIrps.length + (if s.looping then 1 else 0) + 1)
    (transferring : Transferring bounce disk before all s
      { scatter with scatterCount := scatter.scatterCount - 1 } done)
    (open_ : s.completed = none) : Reads bounce disk before all (complete s scatter) := by
  unfold PartialIrp.complete
  dsimp only
  split
  · next last =>
    have success : ntSuccess STATUS_SUCCESS = true := by decide
    obtain ⟨parts, status, -, bytes, stopped, -, copyBack, direct, -, unused, bounced⟩ := transferring
    dsimp only at status bytes copyBack direct unused bounced
    have noParts : s.lowerIrps = [] := List.length_eq_zero_iff.mp (by split at count <;> omega)
    have out : s.looping = false := by
      by_contra inLoop
      rw [if_pos (by simpa using inLoop)] at count
      omega
    rw [noParts, stopped out, List.map_nil, List.append_nil, List.append_nil] at parts
    have total := totalBytes_perm parts
    rw [status, if_pos success, bytes, ← total]
    refine .ended rfl rfl ?_
    dsimp only
    rw [Leaves, copyBack]
    cases bounce with
    | false =>
      obtain ⟨unused, filled⟩ := direct rfl
      rw [unused, if_neg (by decide), if_neg (by simp)]
      exact filled.perm parts.symm
    | true =>
      obtain ⟨untouched, filled⟩ := bounced rfl
      rw [if_pos rfl, untouched]
      refine ⟨_, filled.perm parts.symm, ?_⟩
      split
      · rfl
      · next none =>
        -- No request was built, so there is nothing to copy.
        obtain ⟨-, nothing⟩ := unused rfl (by simpa using none)
        rw [total, nothing]
        funext x
        exact (if_neg fun inside => absurd inside.2 (by simpa [totalBytes] using inside.1)).symm
  · exact .live _ done rfl open_ { transferring with }

theorem buildIrp_direct {caller : Bytes} {length : ℕ} {gap : Gap} {out : BuildOutcome} (direct : lower.directIo = true)
    (plain : original.bufferedIo = false) (granted : (out.irp && out.mdl && out.mapping && out.buffer) = true) :
    buildIrp lower original .read caller length scatter gap out =
      ({ scatter with scatterCount := scatter.scatterCount + 1 }, some ⟨.read, gap, false⟩) := by
  simp only [Bool.and_eq_true] at granted
  obtain ⟨⟨⟨irp, mdl⟩, -⟩, -⟩ := granted
  simp [buildIrp, direct, plain, irp, mdl]

theorem buildIrp_bounce {caller : Bytes} {length : ℕ} {gap : Gap} {out : BuildOutcome}
    (indirect : lower.directIo = false) (granted : (out.irp && out.mdl && out.mapping && out.buffer) = true) :
    buildIrp lower original .read caller length scatter gap out =
      if scatter.systemBuffer then
        ({ scatter with scatterCount := scatter.scatterCount + 1 }, some ⟨.read, gap, scatter.allocatedBuffer.isSome⟩)
      else ({ scatter with
        systemBuffer := true
        allocatedBuffer := some fun _ => 0
        copyBack := true
        scatterCount := scatter.scatterCount + 1 }, some ⟨.read, gap, true⟩) := by
  simp only [Bool.and_eq_true] at granted
  obtain ⟨⟨⟨irp, -⟩, mapping⟩, buffer⟩ := granted
  simp [buildIrp, indirect, irp, mapping, buffer]

/-- The next gap is built. -/
theorem Transferring.build {gap : Gap} {rest : List Gap}
    (transferring : Transferring bounce disk before all s scatter done)
    (left : s.gaps = gap :: rest) (mode : lower.directIo = !bounce) (plain : original.bufferedIo = false)
    {out : BuildOutcome} (granted : (out.irp && out.mdl && out.mapping && out.buffer) = true) :
    ∃ scatter' request, buildIrp lower original .read s.buffer s.length scatter gap out = (scatter', some request) ∧
      Transferring bounce disk before all
        { s with scatter := some scatter', gaps := rest, lowerIrps := s.lowerIrps ++ [request] } scatter' done := by
  obtain ⟨parts, status, count, bytes, stopped, requests, copyBack, direct, system, unused, bounced⟩ := transferring
  have inLoop : s.looping = true := by
    by_contra out
    rw [stopped (by simpa using out)] at left
    contradiction
  have moved : ∀ request : LowerRequest, request.gap = gap →
      all.Perm (done ++ ((s.lowerIrps ++ [request]).map LowerRequest.gap ++ rest)) := by
    rintro request rfl
    rw [left] at parts
    simpa only [List.map_append, List.map_singleton, List.append_assoc, List.singleton_append] using parts
  have counted : ∀ request : LowerRequest, scatter.scatterCount + 1 =
      ((s.lowerIrps ++ [request]).length : ℤ) + if s.looping then 1 else 0 := by
    intro request
    rw [count, List.length_append, List.length_singleton]
    push_cast
    omega
  have asked : ∀ request : LowerRequest, request.allocated = bounce →
      ∀ other ∈ s.lowerIrps ++ [request], other.allocated = bounce := by
    intro request same other member
    obtain old | new := List.mem_append.mp member
    · exact requests other old
    · obtain rfl := List.mem_singleton.mp new
      exact same
  have going : s.looping = false → rest = [] := fun out => absurd inLoop (by rw [out]; decide)
  cases bounce with
  | false =>
    exact ⟨_, _, buildIrp_direct mode plain granted, ⟨moved _ rfl, status, counted _, bytes, going, asked _ rfl,
      copyBack, direct, by simp, by simp, by simp⟩⟩
  | true =>
    have same := system rfl
    cases allocated : scatter.allocatedBuffer with
    | some buffer =>
      rw [allocated] at same bounced copyBack
      refine ⟨_, _, (buildIrp_bounce mode granted).trans (if_pos same), ⟨moved _ rfl, status, counted _, bytes, going,
        asked _ (by rw [allocated]; rfl), ?_, by simp, ?_, ?_, ?_⟩⟩
      · dsimp only
        rw [copyBack, allocated]
      · dsimp only
        rw [same, allocated]
        exact fun _ => rfl
      · dsimp only
        rw [allocated]
        simp
      · dsimp only
        rw [allocated]
        exact bounced
    | none =>
      rw [allocated] at same bounced
      obtain ⟨-, nothing⟩ := unused rfl allocated
      have off : ¬ scatter.systemBuffer = true := by rw [same]; decide
      exact ⟨_, _, (buildIrp_bounce mode granted).trans (if_neg off), ⟨moved _ rfl, status, counted _, bytes, going,
        asked _ rfl, rfl, by simp, fun _ => rfl, by simp, bounced⟩⟩

/-- A request returns in full. -/
theorem Transferring.arrive {n : ℕ} {request : LowerRequest}
    (transferring : Transferring bounce disk before all s scatter done) (apart : all.Pairwise Gap.Apart)
    (present : s.lowerIrps[n]? = some request) (s' : State) (scatter' : ScatteredIrp)
    (after : s' = { s with
      lowerIrps := s.lowerIrps.eraseIdx n
      buffer := if bounce then s.buffer else transfer disk request.gap request.gap.bytesThisIrp s.buffer })
    (object : scatter' = { scatter with
      bytesCompleted := scatter.bytesCompleted + request.gap.bytesThisIrp
      allocatedBuffer := if bounce then
          scatter.allocatedBuffer.map (transfer disk request.gap request.gap.bytesThisIrp)
        else scatter.allocatedBuffer }) :
    scatter'.scatterCount = s'.lowerIrps.length + (if s'.looping then 1 else 0) + 1 ∧
      Transferring bounce disk before all s' { scatter' with scatterCount := scatter'.scatterCount - 1 }
        (done ++ [request.gap]) := by
  obtain ⟨parts, status, count, bytes, stopped, requests, copyBack, direct, system, unused, bounced⟩ := transferring
  subst after object
  have inside := (List.getElem?_eq_some_iff.mp present).1
  have member := List.mem_of_getElem? present
  have taken : s.lowerIrps.Perm (request :: s.lowerIrps.eraseIdx n) := by
    obtain ⟨_, rfl⟩ := List.getElem?_eq_some_iff.mp present
    exact (List.getElem_cons_eraseIdx_perm inside).symm
  have counted : scatter.scatterCount = ((s.lowerIrps.eraseIdx n).length : ℤ) + (if s.looping then 1 else 0) + 1 := by
    rw [count, taken.length_eq, List.length_cons]
    push_cast
    omega
  have fresh : ∀ other ∈ done, request.gap.Apart other := by
    intro other there
    have order := (parts.pairwise_iff fun apart => Gap.Apart.symm apart).mp apart
    have later : request.gap ∈ s.lowerIrps.map LowerRequest.gap ++ s.gaps :=
      List.mem_append_left _ (List.mem_map_of_mem member)
    exact ((List.pairwise_append.mp order).2.2 other there _ later).symm
  have moved : all.Perm (done ++ [request.gap] ++ ((s.lowerIrps.eraseIdx n).map LowerRequest.gap ++ s.gaps)) := by
    refine parts.trans ?_
    rw [List.append_assoc]
    refine List.Perm.append_left _ ?_
    exact (taken.map LowerRequest.gap).append_right _
  refine ⟨counted, moved, status, ?_, ?_, stopped, fun other there => requests other (List.mem_of_mem_eraseIdx there),
    ?_, ?_, ?_, ?_, ?_⟩
  · dsimp only
    rw [counted]
    omega
  · dsimp only
    rw [bytes, totalBytes_append]
    rfl
  · dsimp only
    rw [copyBack]
    cases bounce <;> simp
  · rintro rfl
    obtain ⟨none, filled⟩ := direct rfl
    exact ⟨none, filled.transfer fresh⟩
  · rintro rfl
    dsimp only
    rw [system rfl]
    simp
  · rintro rfl none
    have nothing := unused rfl (by simpa using none)
    rw [nothing.1] at member
    contradiction
  · rintro rfl
    obtain ⟨untouched, filled⟩ := bounced rfl
    refine ⟨untouched, ?_⟩
    cases allocated : scatter.allocatedBuffer with
    | none =>
      have nothing := unused rfl allocated
      rw [nothing.1] at member
      contradiction
    | some buffer =>
      rw [allocated] at filled
      exact filled.transfer fresh

/-- Once the object is gone nothing happens to the read any more. -/
theorem step_of_gone (gone : s.scatter = none) : s.step lower original disk a = none := by
  cases a with
  | buildIrp out =>
    rw [State.step]
    cases s.gaps with
    | nil => rfl
    | cons gap rest => simp only [gone, Option.map_none]
  | finish => simp only [State.step, gone, Option.map_none, ite_self]
  | lowerComplete n ioStatus => simp only [State.step, gone, Option.map_none, Option.bind_fun_none]

theorem Reads.step (reads : Reads bounce disk before all s) (apart : all.Pairwise Gap.Apart)
    (mode : lower.directIo = !bounce) (plain : original.bufferedIo = false) (full : inFull s a = true)
    (moved : s.step lower original disk a = some s') :
    Reads bounce disk before all s' := by
  cases reads with
  | ended gone =>
    rw [step_of_gone gone] at moved
    contradiction
  | live scatter done there open_ transferring =>
    cases a with
    | buildIrp out =>
      simp only [State.step, there, Option.map_some] at moved
      cases left : s.gaps with
      | nil =>
        rw [left] at moved
        contradiction
      | cons gap rest =>
        obtain ⟨scatter', request, built, next⟩ := transferring.build left mode plain full
        rw [left] at moved
        dsimp only at moved
        rw [built] at moved
        obtain rfl := Option.some.inj moved
        exact .live _ _ rfl open_ next
    | finish =>
      simp only [State.step, there, Option.map_some] at moved
      split at moved
      · next last =>
        obtain rfl := Option.some.inj moved
        rw [Bool.and_eq_true, List.isEmpty_iff] at last
        have count := transferring.count
        rw [last.1] at count
        refine Transferring.complete (s := { s with looping := false }) ?_
          { transferring with count := ?_, stopped := fun _ => last.2 } open_
        · dsimp only
          rw [count]
          simp
        · dsimp only
          rw [count]
          simp
      · contradiction
    | lowerComplete n ioStatus =>
      obtain ⟨request, present, moved⟩ := Option.bind_eq_some_iff.mp moved
      obtain ⟨object, found, moved⟩ := Option.map_eq_some_iff.mp moved
      obtain rfl := Option.some.inj (there.symm.trans found)
      simp only [inFull, present, Option.all_some, decide_eq_true_eq] at full
      subst full
      have success : ntSuccess STATUS_SUCCESS = true := by decide
      have kind := transferring.requests request (List.mem_of_getElem? present)
      obtain ⟨count, next⟩ := transferring.arrive apart present _ _ rfl rfl
      rw [if_pos success, kind] at moved
      obtain rfl := moved
      cases bounce with
      | false => exact Transferring.complete count next open_
      | true => exact Transferring.complete count next open_

theorem reads_initial {length : ℕ} {gaps : List Gap} (plain : original.bufferedIo = false) :
    Reads bounce disk before gaps (.initial original length gaps before) := by
  refine .live _ [] rfl rfl ⟨List.Perm.refl _, rfl, rfl, rfl, by simp [State.initial], by simp [State.initial], rfl,
    fun _ => ⟨rfl, filled_nil⟩, fun _ => plain, fun _ _ => ⟨rfl, rfl⟩, fun _ => ⟨rfl, filled_nil⟩⟩

/-- A read that has been completed has moved every gap. -/
theorem completed_leaves {length : ℕ} {gaps : List Gap} {as : List Action} (apart : gaps.Pairwise Gap.Apart)
    (mode : lower.directIo = !bounce) (plain : original.bufferedIo = false)
    (run : Run (State.step lower original disk) (fun t a => inFull t a = true)
      (.initial original length gaps before) as s)
    (completed : s.completed.isSome = true) :
    s.completed = some ⟨STATUS_SUCCESS, totalBytes gaps⟩ ∧ Leaves bounce disk before gaps s.buffer := by
  have reads := run.preserves (Reads bounce disk before gaps) (reads_initial plain)
    fun _ _ _ reads full moved => reads.step apart mode plain full moved
  cases reads with
  | live scatter done there open_ transferring =>
    rw [open_] at completed
    contradiction
  | ended gone success leaves => exact ⟨success, leaves⟩

end Step

/-- Outside the gaps, the bytes of the caller's buffer that the copy overwrites were zero, and the gap bytes it
does not reach were already those of the lower device. -/
structure PrefixFits (disk before : Bytes) (gaps : List Gap) : Prop where
  zero : ∀ x : ℤ, 0 ≤ x → x < totalBytes gaps → (∀ gap ∈ gaps, ¬ gap.Covers x) → before x = 0
  same : ∀ gap ∈ gaps, ∀ x, gap.Covers x → totalBytes gaps ≤ x → before x = gap.byte disk x

section Prefix

variable {disk before gathered after : Bytes} {gaps : List Gap}

/-- Copying back a prefix of the gathered gaps fills them in the caller's buffer exactly where the prefix fits. -/
theorem filled_prefix_iff (filled : Filled disk (fun _ => 0) gaps gathered) :
    Filled disk before gaps (rtlCopyMemory before 0 gathered 0 (totalBytes gaps)) ↔ PrefixFits disk before gaps := by
  have copied : ∀ x : ℤ, 0 ≤ x → x < totalBytes gaps →
      rtlCopyMemory before 0 gathered 0 (totalBytes gaps) x = gathered x := by
    intro x nonneg inside
    rw [rtlCopyMemory, if_pos ⟨nonneg, by omega⟩, sub_zero, add_zero]
  have left : ∀ x : ℤ, ¬ (0 ≤ x ∧ x < totalBytes gaps) →
      rtlCopyMemory before 0 gathered 0 (totalBytes gaps) x = before x := by
    intro x outside
    rw [rtlCopyMemory, if_neg (by omega)]
  constructor
  · intro same
    constructor
    · intro x nonneg inside free
      rw [← same.kept x free, copied x nonneg inside, filled.kept x free]
    · intro gap member x covers behind
      rw [← same.covered gap member x covers, left x (by omega)]
  · intro fits
    constructor
    · intro gap member x covers
      by_cases inside : x < totalBytes gaps
      · have nonneg : 0 ≤ x := by have := covers.1; omega
        rw [copied x nonneg inside, filled.covered gap member x covers]
      · rw [left x (by omega), fits.same gap member x covers (by omega)]
    · intro x free
      by_cases inside : 0 ≤ x ∧ x < totalBytes gaps
      · rw [copied x inside.1 inside.2, filled.kept x free, fits.zero x inside.1 inside.2 free]
      · exact left x inside

/-- The prefix fits whatever the buffer and the device hold where the gaps are the first bytes of the buffer. -/
theorem forall_prefixFits_iff : (∀ disk before, PrefixFits disk before gaps) ↔
    ∀ x : ℤ, (0 ≤ x ∧ x < totalBytes gaps) ↔ ∃ gap ∈ gaps, gap.Covers x := by
  constructor
  · intro fits x
    constructor
    · rintro ⟨nonneg, inside⟩
      by_contra none
      have one :=
        (fits (fun _ => 0) fun _ => 1).zero x nonneg inside fun gap member covers => none ⟨gap, member, covers⟩
      exact absurd one (by decide)
    · rintro ⟨gap, member, covers⟩
      have nonneg : 0 ≤ x := by have := covers.1; omega
      refine ⟨nonneg, ?_⟩
      by_contra behind
      have one := (fits (fun _ => 0) fun _ => 1).same gap member x covers (by omega)
      exact absurd one (by simp [Gap.byte])
  · intro first disk before
    refine ⟨fun x nonneg inside free => ?_, fun gap member x covers behind => ?_⟩
    · obtain ⟨gap, member, covers⟩ := (first x).mp ⟨nonneg, inside⟩
      exact absurd covers (free gap member)
    · have inside := ((first x).mpr ⟨gap, member, covers⟩).2
      omega

end Prefix

/-- A completed read over a device without direct I/O and one over a device with it, from the same buffer and gaps. -/
theorem bounce_agrees (disk before : Bytes) (gaps : List Gap) (length : ℕ) (lower direct original : DeviceFlags)
    (as bs : List Action) (s t : State) (apart : gaps.Pairwise Gap.Apart) (plain : original.bufferedIo = false)
    (indirect : lower.directIo = false) (directIo : direct.directIo = true)
    (bounced : Run (State.step lower original disk) (fun u a => inFull u a = true)
      (.initial original length gaps before) as s)
    (inPlace : Run (State.step direct original disk) (fun u a => inFull u a = true)
      (.initial original length gaps before) bs t)
    (done : s.completed.isSome = true) (finished : t.completed.isSome = true) :
    Filled disk before gaps t.buffer ∧ s.completed = t.completed ∧
      (s.buffer = t.buffer ↔ PrefixFits disk before gaps) := by
  have indirect : lower.directIo = !true := indirect
  have directIo : direct.directIo = !false := directIo
  obtain ⟨success, gathered, filled, prefixed⟩ := completed_leaves apart indirect plain bounced done
  obtain ⟨same, leaves⟩ := completed_leaves apart directIo plain inPlace finished
  have leaves : Filled disk before gaps t.buffer := leaves
  refine ⟨leaves, success.trans same.symm, ?_⟩
  rw [← filled_prefix_iff filled, prefixed]
  constructor
  · intro equal
    rw [equal]
    exact leaves
  · intro filled
    exact filled.unique leaves

/-- The loop builds every gap, and the requests return in order. -/
def inOrder (gaps : List Gap) : List Action :=
  gaps.map (fun _ => .buildIrp {}) ++ .finish :: gaps.map fun gap => .lowerComplete 0 ⟨STATUS_SUCCESS, gap.bytesThisIrp⟩

/-- The queue had sevens for the bytes outside the gap. -/
def sevens (gap : Gap) : Bytes := fun x => if gap.Covers x then 0 else 7

/-- A read of two sectors over a device full of ones. -/
def readTwoSectors (directIo : Bool) (gap : Gap) : State :=
  (runs? (State.step ⟨false, directIo⟩ ⟨false, false⟩ fun _ => 1) (fun u a => inFull u a = true)
    (.initial ⟨false, false⟩ 1024 [gap] (sevens gap)) (inOrder [gap])).getD
    (.initial ⟨false, false⟩ 1024 [gap] (sevens gap))

/-- The second sector comes from the queue. -/
theorem bounce_agrees_firstSector :
    (readTwoSectors false ⟨0, 512, 4096⟩).buffer = (readTwoSectors true ⟨0, 512, 4096⟩).buffer := by
  obtain ⟨-, -, agrees⟩ := bounce_agrees (fun _ => 1) (sevens _) [⟨0, 512, 4096⟩] 1024 ⟨false, false⟩ ⟨false, true⟩
    ⟨false, false⟩ (inOrder _) (inOrder _) (readTwoSectors false ⟨0, 512, 4096⟩) (readTwoSectors true ⟨0, 512, 4096⟩)
    (List.pairwise_singleton _ _) rfl rfl rfl (run_getD (by decide)) (run_getD (by decide)) (by decide) (by decide)
  rw [agrees]
  refine ⟨fun x nonneg inside free => ?_, fun gap member x covers behind => ?_⟩
  · exact absurd ⟨nonneg, inside⟩ (free _ List.mem_cons_self)
  · obtain rfl := List.mem_singleton.mp member
    exact absurd covers.2 (not_lt.mpr behind)

/-- The first sector comes from the queue. It is overwritten with zeros, and the second one does not arrive. -/
theorem bounce_agrees_secondSector : ¬ ∀ (disk before : Bytes) (gaps : List Gap) (length : ℕ)
    (lower direct original : DeviceFlags) (as bs : List Action) (s t : State), gaps.Pairwise Gap.Apart →
    original.bufferedIo = false → lower.directIo = false → direct.directIo = true →
    Run (State.step lower original disk) (fun u a => inFull u a = true) (.initial original length gaps before) as s →
    Run (State.step direct original disk) (fun u a => inFull u a = true) (.initial original length gaps before) bs t →
    s.completed.isSome = true → t.completed.isSome = true → Filled disk before gaps s.buffer ∧ s.buffer = t.buffer := by
  intro claimed
  obtain ⟨-, equal⟩ :=
    claimed (fun _ => 1) (sevens _) [⟨512, 512, 4096⟩] 1024 ⟨false, false⟩ ⟨false, true⟩ ⟨false, false⟩
    (inOrder _) (inOrder _) (readTwoSectors false ⟨512, 512, 4096⟩) (readTwoSectors true ⟨512, 512, 4096⟩)
    (List.pairwise_singleton _ _) rfl rfl rfl (run_getD (by decide)) (run_getD (by decide)) (by decide) (by decide)
  have zeroed : (readTwoSectors false ⟨512, 512, 4096⟩).buffer 0 = 0 := by decide
  rw [equal] at zeroed
  exact absurd zeroed (by decide)

end QueueCache.PartialIrp
