import QueueCache.Model.LegacyAttach
import QueueCache.Proofs.AttachDevices

/-! # What `DriverEntry` leaves behind

An attach either skips its device and reports success, fails, or leaves a working filter device. After a
skip the extension that `QCacheInitializeDevice` gets was never assigned or belongs to a device that is gone
again. After a failure the filter devices of the names before it stay attached with their workers, because
nothing on the way out of `DriverEntry` takes them down.
-/

namespace QueueCache

open Transition

/-- The device is passed over, or undone, and the attach still reports success. -/
def AttachOutcome.skipped (out : AttachOutcome) : Bool :=
  ntSuccess out.getDeviceObjectPointer && (out.readOnlyDevice || !ntSuccess out.createDevice ||
    !out.attachToDeviceStack || !out.directIo)

/-- The attach reports a failure. -/
def AttachOutcome.fails (out : AttachOutcome) : Bool :=
  !ntSuccess out.getDeviceObjectPointer || (!out.skipped && !ntSuccess out.createSystemThread)

/-- The extension is that of a filter device that was created, attached and not deleted in the same attach. -/
def InitializeCall.Sound (call : InitializeCall) : Prop :=
  ∃ id device, call.extension = some id ∧ call.before ≤ id ∧ call.devices[id]? = some device ∧
    device.attached = true ∧ device.deleted = false

/-- Nothing of the filter device is left on a stack or running. -/
def FilterDevice.Gone (device : FilterDevice) : Prop := device.attached = false ∧ device.workerThread = false

/-- Every initialization gets a live extension, and a failure of `DriverEntry` leaves no filter device. -/
def DriverEntry.AllOrNothing (entry : DriverEntry) : Prop :=
  (∀ call ∈ entry.legacy.initialized, call.Sound) ∧
    ∀ status, entry.walk.returned = some status → ntSuccess status = false →
      ∀ device ∈ entry.legacy.devices, device.Gone

/-- What one attach does. -/
inductive AttachMove (legacy : LegacyDevices) (out : AttachOutcome) : LegacyDevices × NtStatus → Prop
  | lookup (status : NtStatus) (fails : out.fails = true) (failure : ntSuccess status = false) :
      AttachMove legacy out (legacy, status)
  | skip (devices : List FilterDevice) (extension : Option ℕ) (skipped : out.skipped = true)
      (gone : ∀ device ∈ devices, device.Gone)
      (unsound : ¬ InitializeCall.Sound ⟨extension, legacy.devices.length, legacy.devices ++ devices⟩) :
      AttachMove legacy out (⟨legacy.devices ++ devices, legacy.initialized ++
        [⟨extension, legacy.devices.length, legacy.devices ++ devices⟩]⟩, STATUS_SUCCESS)
  | fail (status : NtStatus) (device : FilterDevice) (fails : out.fails = true) (failure : ntSuccess status = false)
      (gone : device.Gone) : AttachMove legacy out (⟨legacy.devices ++ [device], legacy.initialized⟩, status)
  | attach (device : FilterDevice) (kept : out.skipped = false) (succeeds : out.fails = false) (stays : ¬ device.Gone)
      (sound : InitializeCall.Sound ⟨some legacy.devices.length, legacy.devices.length, legacy.devices ++ [device]⟩) :
      AttachMove legacy out (⟨legacy.devices ++ [device], legacy.initialized ++
        [⟨some legacy.devices.length, legacy.devices.length, legacy.devices ++ [device]⟩]⟩, STATUS_SUCCESS)

theorem ntSuccess_success : ntSuccess STATUS_SUCCESS = true := by decide

/-- An extension that was not assigned is nobody's. -/
theorem not_sound_none (before : ℕ) (devices : List FilterDevice) : ¬ InitializeCall.Sound ⟨none, before, devices⟩ := by
  rintro ⟨id, device, assigned, -⟩
  contradiction

/-- The extension of the last device is as good as that device. -/
theorem sound_last_iff (devices : List FilterDevice) (device : FilterDevice) :
    InitializeCall.Sound ⟨some devices.length, devices.length, devices ++ [device]⟩ ↔
      device.attached = true ∧ device.deleted = false := by
  constructor
  · rintro ⟨id, other, assigned, -, present, live⟩
    obtain rfl := Option.some.inj assigned
    rw [List.getElem?_concat_length] at present
    obtain rfl := Option.some.inj present
    exact live
  · intro live
    exact ⟨devices.length, device, rfl, le_rfl, List.getElem?_concat_length, live⟩

theorem attachMove (legacy : LegacyDevices) (out : AttachOutcome) :
    AttachMove legacy out (qcacheAttachLegacyDevice legacy out) := by
  rw [qcacheAttachLegacyDevice]
  cases found : ntSuccess out.getDeviceObjectPointer with
  | false => exact .lookup _ (by simp [AttachOutcome.fails, found]) found
  | true =>
    rw [if_pos rfl, qcacheAttachDevice]
    -- The branches are those of `QCacheAttachDevice`, in its order.
    cases readOnly : out.readOnlyDevice with
    | true =>
      have skipped : out.skipped = true := by simp [AttachOutcome.skipped, found, readOnly]
      simpa [ntSuccess_success] using
        @AttachMove.skip legacy _ [] none skipped (by simp) (not_sound_none _ _)
    | false =>
      cases created : ntSuccess out.createDevice with
      | false =>
        have skipped : out.skipped = true := by simp [AttachOutcome.skipped, found, created]
        simpa [ntSuccess_success] using
          @AttachMove.skip legacy _ [] none skipped (by simp) (not_sound_none _ _)
      | true =>
        cases attached : out.attachToDeviceStack with
        | false =>
          have skipped : out.skipped = true := by simp [AttachOutcome.skipped, found, attached]
          refine AttachMove.skip [_] _ skipped ?_ ?_
          · simp [FilterDevice.Gone, FilterDevice.ioDeleteDevice, FilterDevice.cleanup]
          · rw [sound_last_iff]
            simp [FilterDevice.ioDeleteDevice]
        | true =>
          cases direct : out.directIo with
          | false =>
            have skipped : out.skipped = true := by simp [AttachOutcome.skipped, found, direct]
            refine AttachMove.skip [_] _ skipped ?_ ?_
            · simp [FilterDevice.Gone, FilterDevice.ioDeleteDevice, FilterDevice.ioDetachDevice, FilterDevice.cleanup]
            · rw [sound_last_iff]
              simp [FilterDevice.ioDeleteDevice]
          | true =>
            have kept : out.skipped = false := by
              simp [AttachOutcome.skipped, readOnly, created, attached, direct]
            cases started : ntSuccess out.createSystemThread with
            | false =>
              have fails : out.fails = true := by simp [AttachOutcome.fails, kept, started]
              simpa [started] using @AttachMove.fail legacy _ out.createSystemThread _ fails started
                (by simp [FilterDevice.Gone, FilterDevice.ioDeleteDevice, FilterDevice.ioDetachDevice,
                  FilterDevice.cleanup])
            | true =>
              have succeeds : out.fails = false := by simp [AttachOutcome.fails, found, kept, started]
              refine AttachMove.attach _ kept succeeds (by simp [FilterDevice.Gone]) ?_
              rw [sound_last_iff]
              exact ⟨rfl, rfl⟩

theorem driverEntryStep_cases {data : RegistryData} {entry entry' : DriverEntry} {out : AttachOutcome}
    (moved : driverEntryStep data entry out = some entry') :
    ∃ walk legacy status, qcacheAttachLegacyDevice entry.legacy out = (legacy, status) ∧
      attachStep data entry.walk status = some walk ∧ entry' = ⟨walk, legacy⟩ := by
  rw [driverEntryStep] at moved
  generalize qcacheAttachLegacyDevice entry.legacy out = result at moved
  obtain ⟨legacy, status⟩ := result
  obtain ⟨walk, walked, rfl⟩ := Option.map_eq_some_iff.mp moved
  exact ⟨walk, legacy, status, rfl, walked, rfl⟩

theorem attachStep_returned {data : RegistryData} {loop loop' : AttachLoop} {status : NtStatus}
    (moved : attachStep data loop status = some loop') :
    loop.returned = none ∧ loop'.returned = if ntSuccess status then none else some status := by
  rw [attachStep] at moved
  split at moved
  · next continues =>
    have going : loop.returned = none := by
      rw [AttachLoop.continues, Bool.and_eq_true, decide_eq_true_eq] at continues
      exact continues.1
    refine ⟨going, ?_⟩
    dsimp only at moved
    split at moved
    · next success =>
      obtain rfl := Option.some.inj moved
      rw [if_pos success]
      exact going
    · next failure =>
      obtain rfl := Option.some.inj moved
      rw [if_neg failure]
  · contradiction

/-- What the outcomes so far say about the state of `DriverEntry`. -/
structure DriverEntry.Follows (outs : List AttachOutcome) (entry : DriverEntry) : Prop where
  sound : (∀ call ∈ entry.legacy.initialized, call.Sound) ↔ ∀ out ∈ outs, out.skipped = false
  gone : (∀ device ∈ entry.legacy.devices, device.Gone) ↔ ∀ out ∈ outs, out.skipped = true ∨ out.fails = true
  going : entry.walk.returned = none ↔ ∀ out ∈ outs, out.fails = false
  failure : ∀ status, entry.walk.returned = some status → ntSuccess status = false
  last : ∀ out ∈ outs.dropLast, out.fails = false

section Follows

variable {data : RegistryData} {outs : List AttachOutcome} {entry entry' : DriverEntry} {out : AttachOutcome}

theorem AttachOutcome.not_fails_of_skipped (skipped : out.skipped = true) : out.fails = false := by
  have found : ntSuccess out.getDeviceObjectPointer = true := by
    rw [AttachOutcome.skipped, Bool.and_eq_true] at skipped
    exact skipped.1
  rw [AttachOutcome.fails, found, skipped]
  rfl

theorem AttachOutcome.not_skipped_of_fails (fails : out.fails = true) : out.skipped = false := by
  by_contra skipped
  rw [not_fails_of_skipped (by simpa using skipped)] at fails
  contradiction

/-- One attach adds one outcome to what is known. -/
theorem DriverEntry.Follows.step (follows : entry.Follows outs) (moved : driverEntryStep data entry out = some entry') :
    entry'.Follows (outs ++ [out]) := by
  obtain ⟨sound, gone, going, failure, last⟩ := follows
  obtain ⟨walk, legacy, status, taken, walked, rfl⟩ := driverEntryStep_cases moved
  obtain ⟨here, returned⟩ := attachStep_returned walked
  have earlier : ∀ other ∈ (outs ++ [out]).dropLast, other.fails = false := by
    rw [List.dropLast_concat]
    exact going.mp here
  have move := attachMove entry.legacy out
  rw [taken] at move
  have snoc : ∀ {p : AttachOutcome → Prop}, (∀ other ∈ outs ++ [out], p other) ↔ (∀ other ∈ outs, p other) ∧ p out := by
    intro p
    rw [List.forall_mem_append, List.forall_mem_singleton]
  cases move with
  | lookup _ fails failed =>
    rw [failed] at returned
    refine ⟨?_, ?_, ?_, ?_, earlier⟩
    · rw [snoc, and_iff_left (AttachOutcome.not_skipped_of_fails fails)]
      exact sound
    · rw [snoc, and_iff_left (.inr fails)]
      exact gone
    · rw [snoc, returned]
      simp [fails]
    · rintro other same
      rw [returned] at same
      obtain rfl := Option.some.inj same
      exact failed
  | skip devices extension skipped undone unsound =>
    rw [ntSuccess_success] at returned
    refine ⟨?_, ?_, ?_, ?_, earlier⟩
    · rw [snoc, List.forall_mem_append, List.forall_mem_singleton]
      refine ⟨fun all => absurd all.2 unsound, fun all => ?_⟩
      rw [skipped] at all
      exact absurd all.2 (by decide)
    · rw [snoc, List.forall_mem_append, and_iff_left undone, and_iff_left (.inl skipped)]
      exact gone
    · rw [snoc, and_iff_left (AttachOutcome.not_fails_of_skipped skipped), ← going]
      exact ⟨fun _ => here, fun _ => returned⟩
    · rintro other same
      rw [returned] at same
      contradiction
  | fail _ device fails failed undone =>
    rw [failed] at returned
    refine ⟨?_, ?_, ?_, ?_, earlier⟩
    · rw [snoc, and_iff_left (AttachOutcome.not_skipped_of_fails fails)]
      exact sound
    · rw [snoc, List.forall_mem_append, List.forall_mem_singleton, and_iff_left undone, and_iff_left (.inr fails)]
      exact gone
    · rw [snoc, returned]
      simp [fails]
    · rintro other same
      rw [returned] at same
      obtain rfl := Option.some.inj same
      exact failed
  | attach device kept succeeds stays live =>
    rw [ntSuccess_success] at returned
    refine ⟨?_, ?_, ?_, ?_, earlier⟩
    · rw [snoc, List.forall_mem_append, List.forall_mem_singleton, and_iff_left kept, and_iff_left live]
      exact sound
    · rw [snoc, List.forall_mem_append, List.forall_mem_singleton]
      refine ⟨fun all => absurd all.2 stays, fun all => ?_⟩
      rw [kept, succeeds] at all
      exact absurd all.2 (by decide)
    · rw [snoc, and_iff_left succeeds, ← going]
      exact ⟨fun _ => here, fun _ => returned⟩
    · rintro other same
      rw [returned] at same
      contradiction

theorem DriverEntry.follows_of_run {dataLength : ℕ}
    (run : Run (driverEntryStep data) anyStep (.initial dataLength) outs entry) : entry.Follows outs := by
  induction run with
  | nil =>
    exact ⟨by simp [DriverEntry.initial], by simp [DriverEntry.initial],
      by simp [DriverEntry.initial, AttachLoop.initial],
      by simp [DriverEntry.initial, AttachLoop.initial], by simp⟩
  | snoc _ _ moved ih => exact ih.step moved

end Follows

/-- No attach is skipped, and none but the first fails. -/
def Unmixed (outs : List AttachOutcome) : Prop :=
  (∀ out ∈ outs, out.skipped = false) ∧ ∀ out ∈ outs.tail, out.fails = false

instance (outs : List AttachOutcome) : Decidable (Unmixed outs) :=
  inferInstanceAs (Decidable ((∀ out ∈ outs, out.skipped = false) ∧ ∀ out ∈ outs.tail, out.fails = false))

/-- Attaching is all or nothing exactly when no attach is skipped and only the first one may fail. -/
theorem legacy_attach (data : RegistryData) (dataLength : ℕ) (outs : List AttachOutcome) (entry : DriverEntry)
    (run : Run (driverEntryStep data) anyStep (.initial dataLength) outs entry) :
    entry.AllOrNothing ↔ Unmixed outs := by
  obtain ⟨sound, gone, going, failure, last⟩ := DriverEntry.follows_of_run run
  rw [DriverEntry.AllOrNothing, Unmixed, sound, and_congr_right_iff]
  intro kept
  constructor
  · intro restored out member
    by_contra fails
    have failed : entry.walk.returned ≠ none := fun none => fails (going.mp none out (List.mem_of_mem_tail member))
    obtain ⟨status, returned⟩ := Option.ne_none_iff_exists'.mp failed
    have all := gone.mp (restored status returned (failure status returned))
    -- Every attach has failed, so there is only one.
    cases outs with
    | nil => contradiction
    | cons first rest =>
      have more : rest ≠ [] := List.ne_nil_of_mem member
      have early : first ∈ (first :: rest).dropLast := by
        rw [List.dropLast_cons_of_ne_nil more]
        exact List.mem_cons_self
      obtain skipped | fails := all first List.mem_cons_self
      · rw [kept first List.mem_cons_self] at skipped
        contradiction
      · rw [last first early] at fails
        contradiction
  · intro later status returned _
    rw [gone]
    intro out member
    right
    cases outs with
    | nil => contradiction
    | cons first rest =>
      have fails : first.fails = true := by
        by_contra succeeds
        have none : entry.walk.returned = none := going.mpr fun other there => by
          obtain rfl | there := List.mem_cons.mp there
          · simpa using succeeds
          · exact later other there
        rw [none] at returned
        contradiction
      obtain rfl | there := List.mem_cons.mp member
      · exact fails
      · have early : first ∈ (first :: rest).dropLast := by
          rw [List.dropLast_cons_of_ne_nil (List.ne_nil_of_mem there)]
          exact List.mem_cons_self
        rw [last first early] at fails
        contradiction

/-- Where `DriverEntry` is after some outcomes for the names of `twoNames`. -/
def DriverEntry.after (outs : List AttachOutcome) : DriverEntry :=
  (runs? (driverEntryStep twoNames) anyStep (.initial 14) outs).getD (.initial 14)

theorem legacy_attach_twoNames : (DriverEntry.after [{}, {}]).legacy.devices.length = 2 ∧
    (DriverEntry.after [{}, {}]).AllOrNothing :=
  ⟨by decide +kernel, (legacy_attach twoNames 14 _ _ (run_getD (by decide +kernel))).mpr (by decide)⟩

/-- The first name attaches, the lookup of the second one fails. -/
def laterFailure : List AttachOutcome := [{}, { getDeviceObjectPointer := STATUS_INVALID_PARAMETER }]

/-- `DriverEntry` returns the failure and leaves the first filter device attached, its worker running. -/
theorem legacy_attach_laterFailure : ¬ ∀ data dataLength outs entry,
    Run (driverEntryStep data) anyStep (.initial dataLength) outs entry → entry.AllOrNothing := by
  intro claimed
  have run : Run (driverEntryStep twoNames) anyStep (.initial 14) laterFailure (.after laterFailure) :=
    run_getD (by decide +kernel)
  obtain ⟨-, restored⟩ := claimed _ _ _ _ run
  have left : (DriverEntry.after laterFailure).legacy.devices = [{ attached := true, workerThread := true }] := by
    decide +kernel
  have gone :=
    restored STATUS_INVALID_PARAMETER (by decide +kernel) (by decide) ⟨true, true, false⟩ (by rw [left]; simp)
  exact absurd gone.1 (by decide)

end QueueCache
