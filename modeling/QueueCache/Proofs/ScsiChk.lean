import Mathlib.Data.List.Count
import Mathlib.Data.List.Perm.Basic
import QueueCache.ToMathlib.Run
import QueueCache.Model.ScsiChk

/-! # What the removal of the SCSI filter loses

The removal holds a record between its read of `LogData` and its store: a record linked meanwhile is passed by.
After its last read, which found the list empty, nobody takes a record off any more. And the counters are freed
before the wait for the requests that update them. Where no completion steps into one of these gaps, every
record is written and freed once; where one does, what it has broken is still broken when the device is deleted.
-/

namespace QueueCache.ScsiChk

open Transition

/-- The record has been linked, or there is none. -/
def Completion.pastLink : Completion → Bool
  | .lower | .update | .link => false
  | .split | .release | .returned => true

/-- The next step of the completion updates the counters. -/
def Request.counts (r : Request) : Bool :=
  match r.completion with
  | .update => r.majorFunction ≠ .scsi
  | .split => r.associated
  | .lower | .link | .release | .returned => false

/-- A record that the loop has taken off the list and not yet freed. -/
def Removal.held : Removal → PLogData
  | .free _ logdata _ => [logdata]
  | _ => []

/-- A record that the loop has written and not yet freed. -/
def Removal.logged : Removal → PLogData
  | .store _ logdata _ | .free _ logdata _ => [logdata]
  | _ => []

/-- What the loop has read from `LogData` and is going to replace by its tail. -/
def Removal.current : Removal → Option PLogData
  | .write _ logdata next | .store _ logdata next => some (logdata :: next)
  | _ => none

/-- The loop is over. -/
def Removal.past : Removal → Bool
  | .close | .freeCounters | .release | .wait | .detach | .deleted => true
  | _ => false

/-- `status` inside the loop. -/
def Removal.status : Removal → Option NtStatus
  | .read status | .write status _ _ | .store status _ _ | .free status _ _ => some status
  | _ => none

/-- The remove lock is not given out any more. -/
def Removal.locked : Removal → Bool
  | .wait | .detach | .deleted => true
  | _ => false

/-- The wait for the requests is over. -/
def Removal.waited : Removal → Bool
  | .detach | .deleted => true
  | _ => false

/-- The file is created and every record is written with success. -/
def writesSucceed (s : State) : Action → Bool
  | .remove status =>
    match s.removal with
    | .create | .write .. => ntSuccess status
    | _ => true
  | _ => true

/-- A record is linked neither between the loop's read and its store nor after the loop, and no counters are updated
after they have been freed. -/
def inTime (s : State) : Action → Bool
  | .complete i _ => (s.requests[i]?).all fun r =>
    (r.completion ≠ .link || (s.removal.current.isNone && !s.removal.past)) && !(r.counts && s.countersFreed)
  | _ => true

/-- Nothing has been lost: every record has been written and freed once, none is left, and no counters have been
updated after they were freed. -/
structure State.LosesNothing (s : State) : Prop where
  once : ∀ i ∈ s.linked, s.written.count i = 1 ∧ s.freed.count i = 1
  empty : s.logData = []
  counters : s.usesAfterFree = []

section Steps

variable {s s' : State} {i : ℕ} {r : Request} {a : Action}

/-- What a step of a completion does: it links its record, or it moves on and may have updated counters. -/
inductive Completes (s : State) (i : ℕ) (r : Request) : State → Prop
  | link (here : r.completion = .link) : Completes s i r { s with
      logData := i :: s.logData
      linked := s.linked ++ [i]
      requests := s.requests.set i { r with completion := .split } }
  | move (next : Completion) (uses : List ℕ) (here : r.completion ≠ .link) (going : r.completion ≠ .returned)
      (still : r.completion.pastLink = true → next.pastLink = true)
      (intact : uses = [] ↔ (r.counts && s.countersFreed) = false) : Completes s i r { s with
        requests := s.requests.set i { r with completion := next }
        usesAfterFree := s.usesAfterFree ++ uses }

section Moves

variable {next : Completion} (here : r.completion ≠ .link) (going : r.completion ≠ .returned)
  (still : r.completion.pastLink = true → next.pastLink = true)

include here going still

theorem completes_goto (none : r.counts = false) : Completes s i r (s.goto i r next) := by
  have moved : Completes s i r { s with
      requests := s.requests.set i { r with completion := next }
      usesAfterFree := s.usesAfterFree ++ [] } := .move next [] here going still (by simp [none])
  rwa [List.append_nil] at moved

theorem completes_count (counts : r.counts = true) : Completes s i r ((s.count i).goto i r next) := by
  rw [State.count]
  split
  · next freed => exact .move next [i] here going still (by simp [counts, freed])
  · next kept =>
    have moved : Completes s i r { s with
        requests := s.requests.set i { r with completion := next }
        usesAfterFree := s.usesAfterFree ++ [] } := .move next [] here going still (by simpa [counts] using kept)
    rwa [List.append_nil] at moved

end Moves

theorem State.completes {processor : ℕ} (moved : s.complete i r processor = some s') : Completes s i r s' := by
  rw [State.complete] at moved
  split at moved
  · next here =>
    obtain rfl := Option.some.inj moved
    exact completes_goto (by simp [here]) (by simp [here]) (by simp [here, Completion.pastLink])
      (by simp [Request.counts, here])
  · next here =>
    split at moved
    · next scsi =>
      obtain rfl := Option.some.inj moved
      exact completes_goto (by simp [here]) (by simp [here]) (by simp [here, Completion.pastLink])
        (by simp [Request.counts, here, scsi])
    · next read =>
      obtain rfl := Option.some.inj moved
      exact completes_count (by simp [here]) (by simp [here]) (fun _ => rfl) (by simp [Request.counts, here, read])
    · next write =>
      obtain rfl := Option.some.inj moved
      exact completes_count (by simp [here]) (by simp [here]) (fun _ => rfl) (by simp [Request.counts, here, write])
  · next here =>
    obtain rfl := Option.some.inj moved
    exact .link here
  · next here =>
    by_cases associated : r.associated = true
    · rw [if_pos associated] at moved
      obtain rfl := Option.some.inj moved
      exact completes_count (by simp [here]) (by simp [here]) (fun _ => rfl)
        (by simp [Request.counts, here, associated])
    · rw [if_neg associated] at moved
      obtain rfl := Option.some.inj moved
      exact completes_goto (by simp [here]) (by simp [here]) (fun _ => rfl) (by simp [Request.counts, here, associated])
  · next here =>
    obtain rfl := Option.some.inj moved
    exact completes_goto (by simp [here]) (by simp [here]) (fun _ => rfl) (by simp [Request.counts, here])
  · contradiction

/-- What a step of the removal does. The steps behind the loop change nothing about the records. -/
inductive Removes (s : State) (status : NtStatus) : State → Prop
  | start (here : s.removal = .idle) : Removes s status { s with removal := .create }
  | create (here : s.removal = .create) : Removes s status { s with removal := .read status }
  | finish (created : NtStatus) (here : s.removal = .read created) (empty : s.logData = []) :
      Removes s status { s with removal := .close }
  | take (created : NtStatus) (logdata : ℕ) (next : PLogData) (here : s.removal = .read created)
      (list : s.logData = logdata :: next) : Removes s status { s with removal := .write created logdata next }
  | write (created : NtStatus) (logdata : ℕ) (next : PLogData) (here : s.removal = .write created logdata next)
      (going : ntSuccess created = true) : Removes s status { s with
        written := if ntSuccess status then s.written ++ [logdata] else s.written
        removal := .store status logdata next }
  | skip (created : NtStatus) (logdata : ℕ) (next : PLogData) (here : s.removal = .write created logdata next)
      (failed : ¬ ntSuccess created = true) : Removes s status { s with removal := .store created logdata next }
  | store (before : NtStatus) (logdata : ℕ) (next : PLogData) (here : s.removal = .store before logdata next) :
      Removes s status { s with logData := next, removal := .free before logdata next }
  | free (before : NtStatus) (logdata : ℕ) (next : PLogData) (here : s.removal = .free before logdata next) :
      Removes s status { s with freed := s.freed ++ [logdata], removal := .read before }
  | behind (countersFreed removed : Bool) (removal : Removal) (past : s.removal.past = true)
        (still : removal.past = true)
      (kept : s.removed = true → removed = true)
      (locked : removal.locked = true → s.removal.locked = true ∨ removed = true)
      (waited : removal.waited = true → s.removal.waited = true ∨ s.requests.all (·.completion = .returned) = true) :
      Removes s status { s with countersFreed, removed, removal }

theorem State.removes {status : NtStatus} (moved : s.remove status = some s') : Removes s status s' := by
  rw [State.remove] at moved
  split at moved
  · next here =>
    obtain rfl := Option.some.inj moved
    exact .start here
  · next here =>
    obtain rfl := Option.some.inj moved
    exact .create here
  · next created here =>
    split at moved
    · next empty =>
      obtain rfl := Option.some.inj moved
      exact .finish created here empty
    · next logdata next list =>
      obtain rfl := Option.some.inj moved
      exact .take created logdata next here list
  · next created logdata next here =>
    split at moved
    · next going =>
      obtain rfl := Option.some.inj moved
      exact .write created logdata next here going
    · next failed =>
      obtain rfl := Option.some.inj moved
      exact .skip created logdata next here failed
  · next before logdata next here =>
    obtain rfl := Option.some.inj moved
    exact .store before logdata next here
  · next before logdata next here =>
    obtain rfl := Option.some.inj moved
    exact .free before logdata next here
  · next here =>
    obtain rfl := Option.some.inj moved
    exact .behind _ _ _ (by rw [here]; rfl) rfl id (by simp [Removal.locked]) (by simp [Removal.waited])
  · next here =>
    obtain rfl := Option.some.inj moved
    exact .behind _ _ _ (by rw [here]; rfl) rfl id (by simp [Removal.locked]) (by simp [Removal.waited])
  · next here =>
    obtain rfl := Option.some.inj moved
    exact .behind _ _ _ (by rw [here]; rfl) rfl (fun _ => rfl) (fun _ => .inr rfl) (by simp [Removal.waited])
  · next here =>
    split at moved
    · next returned =>
      obtain rfl := Option.some.inj moved
      exact .behind _ _ _ (by rw [here]; rfl) rfl id (fun _ => .inl (by rw [here]; rfl)) fun _ => .inr returned
    · contradiction
  · next here =>
    obtain rfl := Option.some.inj moved
    exact .behind _ _ _ (by rw [here]; rfl) rfl id (fun _ => .inl (by rw [here]; rfl)) fun _ => .inl (by rw [here]; rfl)
  · contradiction

/-- Behind the loop no record is in the removal's hands. -/
theorem Removal.none_of_past {removal : Removal} (past : removal.past = true) :
    removal.held = [] ∧ removal.logged = [] ∧ removal.current = none ∧ removal.status = none := by
  cases removal <;> first | exact ⟨rfl, rfl, rfl, rfl⟩ | contradiction

end Steps

/-- What holds in every run in which the file is written. -/
structure Based (s : State) : Prop where
  nodup : s.linked.Nodup
  past : ∀ i ∈ s.linked, ∃ r, s.requests[i]? = some r ∧ r.completion.pastLink = true
  success : ∀ status ∈ s.removal.status, ntSuccess status = true
  known : ∀ i ∈ s.logData, i ∈ s.linked
  taken : ∀ chain ∈ s.removal.current, ∀ i ∈ chain, i ∈ s.linked
  wrote : ∀ i ∈ s.written, i ∈ s.linked
  locked : s.removal.locked = true → s.removed = true
  waited : s.removal.waited = true → s.requests.all (·.completion = .returned) = true

section Based

variable {s s' : State} {i : ℕ} {r : Request} {a : Action}

theorem based_initial (processors : ℕ) (diskCounters : Bool) : Based (.initial processors diskCounters) := by
  constructor <;> simp [State.initial, Removal.status, Removal.current, Removal.locked, Removal.waited]

/-- A request that has not linked its record yet has none on the list. -/
theorem Based.fresh (based : Based s) (present : s.requests[i]? = some r) (before : r.completion.pastLink = false) :
    i ∉ s.linked := by
  intro member
  obtain ⟨other, there, past⟩ := based.past i member
  obtain rfl := Option.some.inj (present.symm.trans there)
  rw [before] at past
  contradiction

/-- A completion that moves on still has its record linked. -/
theorem past_set {next : Completion}
    (past : ∀ j ∈ s.linked, ∃ r, s.requests[j]? = some r ∧ r.completion.pastLink = true)
    (present : s.requests[i]? = some r) (still : r.completion.pastLink = true → next.pastLink = true) :
    ∀ j ∈ s.linked, ∃ r', (s.requests.set i { r with completion := next })[j]? = some r' ∧
      r'.completion.pastLink = true := by
  intro j member
  obtain ⟨other, there, linked⟩ := past j member
  by_cases same : i = j
  · obtain rfl := same
    obtain rfl := Option.some.inj (present.symm.trans there)
    exact ⟨_, List.getElem?_set_self (List.getElem?_eq_some_iff.mp present).1, still linked⟩
  · exact ⟨other, by rw [List.getElem?_set_ne same, there], linked⟩

/-- A completion that is still to take a step keeps the removal from going on. -/
theorem Based.not_waited (based : Based s) (present : s.requests[i]? = some r) (going : r.completion ≠ .returned) :
    s.removal.waited = false := by
  by_contra waited
  have returned := based.waited (by simpa using waited)
  have here := List.all_eq_true.mp returned r (List.mem_of_getElem? present)
  exact going (by simpa using here)

theorem Based.complete (based : Based s) (present : s.requests[i]? = some r) (moved : Completes s i r s') :
    Based s' := by
  cases moved with
  | link here =>
    have fresh := based.fresh present (by rw [here]; rfl)
    have waiting := based.not_waited present (by rw [here]; decide)
    obtain ⟨nodup, past, success, known, taken, wrote, locked, -⟩ := based
    refine ⟨?_, ?_, success, ?_, ?_, ?_, locked, ?_⟩
    · exact nodup.append (List.nodup_singleton i) (List.disjoint_singleton.mpr fresh)
    · intro j member
      obtain old | new := List.mem_append.mp member
      · exact past_set past present (fun _ => rfl) j old
      · obtain rfl := List.mem_singleton.mp new
        exact ⟨_, List.getElem?_set_self (List.getElem?_eq_some_iff.mp present).1, rfl⟩
    · intro j member
      obtain rfl | old := List.mem_cons.mp member
      · exact List.mem_append_right _ (List.mem_singleton_self j)
      · exact List.mem_append_left _ (known j old)
    · exact fun chain there j member => List.mem_append_left _ (taken chain there j member)
    · exact fun j member => List.mem_append_left _ (wrote j member)
    · intro waited
      rw [waiting] at waited
      contradiction
  | move next uses here going still =>
    have waiting := based.not_waited present going
    obtain ⟨nodup, past, success, known, taken, wrote, locked, -⟩ := based
    refine ⟨nodup, past_set past present still, success, known, taken, wrote, locked, fun waited => ?_⟩
    rw [waiting] at waited
    contradiction

/-- The removal goes on, up to the end of its loop. -/
theorem Based.loop (based : Based s) (freed : PLogData) {removal : Removal}
    (status : ∀ status ∈ removal.status, ntSuccess status = true)
    (current : ∀ chain ∈ removal.current, ∀ i ∈ chain, i ∈ s.linked) (inside : removal.locked = false) :
    Based { s with freed, removal } := by
  obtain ⟨nodup, past, -, known, -, wrote, -, -⟩ := based
  have early : removal.waited = false := by
    revert inside
    cases removal <;> simp [Removal.locked, Removal.waited]
  refine ⟨nodup, past, status, known, current, wrote, fun now => ?_, fun now => ?_⟩
  · exact absurd now (by rw [inside]; decide)
  · exact absurd now (by rw [early]; decide)

theorem Based.remove {status : NtStatus} (based : Based s) (fine : writesSucceed s (.remove status) = true)
    (moved : Removes s status s') : Based s' := by
  cases moved with
  | start => exact based.loop _ (by simp [Removal.status]) (by simp [Removal.current]) rfl
  | create here =>
    rw [writesSucceed, here] at fine
    exact based.loop _ (by simpa [Removal.status] using fine) (by simp [Removal.current]) rfl
  | finish => exact based.loop _ (by simp [Removal.status]) (by simp [Removal.current]) rfl
  | take created logdata next here list =>
    have created : ntSuccess created = true := based.success created (by rw [here]; rfl)
    refine based.loop _ (by simpa [Removal.status] using created) ?_ rfl
    rintro chain ⟨⟩ i member
    exact based.known i (by rw [list]; exact member)
  | write created logdata next here =>
    have current : logdata :: next ∈ s.removal.current := by rw [here]; rfl
    rw [writesSucceed, here] at fine
    have fine : ntSuccess status = true := fine
    have going : Based { s with removal := .store status logdata next } := by
      refine based.loop _ (by simpa [Removal.status] using fine) ?_ rfl
      rintro chain ⟨⟩ i member
      exact based.taken _ current i member
    refine { going with wrote := fun i member => ?_ }
    dsimp only at member
    rw [if_pos fine] at member
    obtain old | new := List.mem_append.mp member
    · exact based.wrote i old
    · obtain rfl := List.mem_singleton.mp new
      exact based.taken _ current i List.mem_cons_self
  | skip created logdata next here failed => exact absurd (based.success created (by rw [here]; rfl)) failed
  | store before logdata next here =>
    have before : ntSuccess before = true := based.success before (by rw [here]; rfl)
    have current : logdata :: next ∈ s.removal.current := by rw [here]; rfl
    have going : Based { s with removal := .free _ logdata next } :=
      based.loop _ (by simpa [Removal.status] using before) (by simp [Removal.current]) rfl
    exact { going with known := fun i member => based.taken _ current i (List.mem_cons_of_mem _ member) }
  | free before logdata next here =>
    have before : ntSuccess before = true := based.success before (by rw [here]; rfl)
    exact based.loop _ (by simpa [Removal.status] using before) (by simp [Removal.current]) rfl
  | behind countersFreed removed removal past still keeps locks waits =>
    obtain ⟨-, -, current, status⟩ := Removal.none_of_past still
    exact { based with
      success := by simp [status]
      taken := by simp [current]
      locked := fun now => (locks now).elim (fun before => keeps (based.locked before)) id
      waited := fun now => (waits now).elim based.waited id }

theorem Based.step (based : Based s) (fine : writesSucceed s a = true) (moved : s.step a = some s') : Based s' := by
  cases a with
  | dispatch majorFunction associated =>
    rw [State.step] at moved
    split at moved
    · contradiction
    · next open_ =>
      obtain rfl := Option.some.inj moved
      obtain ⟨nodup, past, success, known, taken, wrote, locked, waited⟩ := based
      refine ⟨nodup, fun i member => ?_, success, known, taken, wrote, locked, fun beyond => ?_⟩
      · obtain ⟨r, present, linked⟩ := past i member
        exact ⟨r, by rw [List.getElem?_append_left (List.getElem?_eq_some_iff.mp present).1, present], linked⟩
      · have beyond : s.removal.waited = true := beyond
        have closed : s.removal.locked = true := by
          cases at_ : s.removal <;> rw [at_] at beyond <;> first | rfl | contradiction
        exact absurd (locked closed) open_
  | complete i processor =>
    obtain ⟨r, present, moved⟩ := Option.bind_eq_some_iff.mp moved
    exact based.complete present (State.completes moved)
  | remove status => exact based.remove fine (State.removes moved)

end Based

/-- The records while no completion steps into a gap: each is freed, held by the loop or on the list. -/
structure Kept (s : State) : Prop where
  chain : s.linked.Perm (s.freed ++ s.removal.held ++ s.logData)
  written : s.written = s.freed ++ s.removal.logged
  current : ∀ chain ∈ s.removal.current, s.logData = chain
  past : s.removal.past = true → s.logData = []
  clean : s.usesAfterFree = []

section Kept

variable {s s' : State} {i : ℕ} {r : Request} {a : Action}

theorem kept_initial (processors : ℕ) (diskCounters : Bool) : Kept (.initial processors diskCounters) :=
  ⟨List.Perm.refl _, rfl, by simp [State.initial, Removal.current], fun _ => rfl, rfl⟩

theorem Kept.complete {processor : ℕ} (kept : Kept s) (present : s.requests[i]? = some r)
    (timely : inTime s (.complete i processor) = true) (moved : Completes s i r s') : Kept s' := by
  simp only [inTime, present, Option.all_some, Bool.and_eq_true, Bool.or_eq_true, decide_eq_true_eq, Bool.not_eq_true',
    Option.isNone_iff_eq_none] at timely
  obtain ⟨chain, written, current, past, clean⟩ := kept
  cases moved with
  | link here =>
    obtain ⟨away | ⟨free, inLoop⟩, -⟩ := timely
    · exact absurd here away
    · refine ⟨?_, written, by simp [free], fun beyond => ?_, clean⟩
      · have moved : (s.linked ++ [i]).Perm (s.freed ++ s.removal.held ++ s.logData ++ [i]) := chain.append_right [i]
        refine moved.trans ?_
        rw [List.append_assoc]
        exact (List.perm_append_singleton i s.logData).append_left _
      · have beyond : s.removal.past = true := beyond
        rw [inLoop] at beyond
        contradiction
  | move next uses here going still intact =>
    refine ⟨chain, written, current, past, ?_⟩
    dsimp only
    rw [clean, intact.mpr timely.2, List.append_nil]

theorem Kept.remove {status : NtStatus} (kept : Kept s) (based : Based s)
    (fine : writesSucceed s (.remove status) = true) (moved : Removes s status s') : Kept s' := by
  obtain ⟨chain, written, current, past, clean⟩ := kept
  cases moved with
  | start here =>
    rw [here] at chain written
    exact ⟨chain, written, by simp [Removal.current], by simp [Removal.past], clean⟩
  | create here =>
    rw [here] at chain written
    exact ⟨chain, written, by simp [Removal.current], by simp [Removal.past], clean⟩
  | finish created here empty =>
    rw [here] at chain written
    exact ⟨chain, written, by simp [Removal.current], fun _ => empty, clean⟩
  | take created logdata next here list =>
    rw [here] at chain written
    refine ⟨chain, written, ?_, by simp [Removal.past], clean⟩
    rintro chain ⟨⟩
    exact list
  | write created logdata next here =>
    have list := current (logdata :: next) (by rw [here]; rfl)
    rw [writesSucceed, here] at fine
    have fine : ntSuccess status = true := fine
    rw [here] at chain written
    refine ⟨chain, ?_, ?_, by simp [Removal.past], clean⟩
    · simpa [Removal.logged, fine] using written
    · rintro chain ⟨⟩
      exact list
  | skip created logdata next here failed => exact absurd (based.success created (by rw [here]; rfl)) failed
  | store before logdata next here =>
    have list := current (logdata :: next) (by rw [here]; rfl)
    rw [here, list] at chain
    rw [here] at written
    refine ⟨?_, written, by simp [Removal.current], by simp [Removal.past], clean⟩
    simpa [Removal.held] using chain
  | free before logdata next here =>
    rw [here] at chain written
    refine ⟨?_, ?_, by simp [Removal.current], by simp [Removal.past], clean⟩
    · simpa [Removal.held] using chain
    · simpa [Removal.logged] using written
  | behind countersFreed removed removal beyond still =>
    obtain ⟨noneHeld, noneLogged, -, -⟩ := Removal.none_of_past beyond
    obtain ⟨stillHeld, stillLogged, stillCurrent, -⟩ := Removal.none_of_past still
    rw [noneHeld, ← stillHeld] at chain
    rw [noneLogged, ← stillLogged] at written
    exact ⟨chain, written, by simp [stillCurrent], fun _ => past beyond, clean⟩

theorem Kept.step (kept : Kept s) (based : Based s) (fine : writesSucceed s a = true) (timely : inTime s a = true)
    (moved : s.step a = some s') : Kept s' := by
  cases a with
  | dispatch majorFunction associated =>
    rw [State.step] at moved
    split at moved
    · contradiction
    · obtain rfl := Option.some.inj moved
      exact { kept with }
  | complete i processor =>
    obtain ⟨r, present, moved⟩ := Option.bind_eq_some_iff.mp moved
    exact kept.complete present timely (State.completes moved)
  | remove status => exact kept.remove based fine (State.removes moved)

/-- At the end each record has been written and freed once. -/
theorem Kept.losesNothing (kept : Kept s) (based : Based s) (deleted : s.removal = .deleted) : s.LosesNothing := by
  obtain ⟨chain, written, -, past, clean⟩ := kept
  have empty := past (by rw [deleted]; rfl)
  have chain : s.linked.Perm s.freed := by simpa [deleted, empty, Removal.held] using chain
  have written : s.written = s.freed := by simpa [deleted, Removal.logged] using written
  refine ⟨fun i member => ?_, empty, clean⟩
  have once : s.freed.count i = 1 := List.count_eq_one_of_mem (chain.nodup_iff.mp based.nodup) (chain.mem_iff.mp member)
  exact ⟨by rw [written, once], once⟩

end Kept

/-- The loop will not come by the record any more. -/
def Removal.misses (removal : Removal) (logData : PLogData) (i : ℕ) : Prop :=
  match removal.current with
  | some chain => i ∉ chain
  | none => removal.past = true ∨ i ∉ logData

/-- Counters have been updated after they were freed, or a record that has not been written is missed. -/
def State.Lost (s : State) : Prop :=
  s.usesAfterFree ≠ [] ∨ ∃ i ∈ s.linked, i ∉ s.written ∧ s.removal.misses s.logData i

section Lost

variable {s s' : State} {i : ℕ} {r : Request} {a : Action}

/-- A step into a gap loses something. -/
theorem lost_of_late (based : Based s) (late : ¬ inTime s a = true) (moved : s.step a = some s') : s'.Lost := by
  cases a with
  | dispatch majorFunction associated => exact absurd rfl late
  | remove status => exact absurd rfl late
  | complete i processor =>
    obtain ⟨r, present, moved⟩ := Option.bind_eq_some_iff.mp moved
    simp only [inTime, present, Option.all_some, Bool.and_eq_true, Bool.or_eq_true, decide_eq_true_eq,
      Bool.not_eq_true', Option.isNone_iff_eq_none] at late
    cases State.completes moved with
    | link here =>
      have fresh := based.fresh present (by rw [here]; rfl)
      refine .inr ⟨i, List.mem_append_right _ (List.mem_singleton_self i), fun wrote => fresh (based.wrote i wrote), ?_⟩
      dsimp only [Removal.misses]
      cases current : s.removal.current with
      | some chain => exact fun member => fresh (based.taken chain current i member)
      | none =>
        left
        by_contra inLoop
        refine late ⟨.inr ⟨current, by simpa using inLoop⟩, ?_⟩
        simp [Request.counts, here]
    | move next uses here going still intact =>
      left
      intro clean
      exact late ⟨.inl here, intact.mp (List.append_eq_nil_iff.mp clean).2⟩

theorem Removal.misses_cons {removal : Removal} {logData : PLogData} {j : ℕ} (misses : removal.misses logData i)
    (other : i ≠ j) : removal.misses (j :: logData) i := by
  rw [Removal.misses] at misses ⊢
  cases current : removal.current with
  | some chain =>
    rw [current] at misses
    exact misses
  | none =>
    rw [current] at misses
    exact misses.imp_right fun absent => by simpa [other] using absent

/-- The removal does not come back to a record that it misses. -/
theorem Removes.misses {status : NtStatus} (moved : Removes s status s') (missing : i ∉ s.written)
    (misses : s.removal.misses s.logData i) : i ∉ s'.written ∧ s'.removal.misses s'.logData i := by
  cases moved with
  | start here => exact ⟨missing, by simpa [Removal.misses, Removal.current, Removal.past, here] using misses⟩
  | create here => exact ⟨missing, by simpa [Removal.misses, Removal.current, Removal.past, here] using misses⟩
  | finish => exact ⟨missing, .inl rfl⟩
  | take created logdata next here list =>
    exact ⟨missing, by simpa [Removal.misses, Removal.current, Removal.past, here, list] using misses⟩
  | write created logdata next here =>
    have absent : i ∉ logdata :: next := by simpa [Removal.misses, Removal.current, here] using misses
    refine ⟨?_, absent⟩
    dsimp only
    split
    · intro member
      obtain old | new := List.mem_append.mp member
      · exact missing old
      · exact absent (List.mem_singleton.mp new ▸ List.mem_cons_self)
    · exact missing
  | skip created logdata next here =>
    exact ⟨missing, by simpa [Removal.misses, Removal.current, here] using misses⟩
  | store before logdata next here =>
    have absent : i ∉ logdata :: next := by simpa [Removal.misses, Removal.current, here] using misses
    exact ⟨missing, .inr fun member => absent (List.mem_cons_of_mem _ member)⟩
  | free before logdata next here =>
    exact ⟨missing, by simpa [Removal.misses, Removal.current, Removal.past, here] using misses⟩
  | behind countersFreed removed removal beyond still =>
    refine ⟨missing, ?_⟩
    rw [Removal.misses, (Removal.none_of_past still).2.2.1]
    exact .inl still

/-- The removal links no record and updates no counters. -/
theorem Removes.same {status : NtStatus} (moved : Removes s status s') :
    s'.linked = s.linked ∧ s'.usesAfterFree = s.usesAfterFree := by
  cases moved <;> exact ⟨rfl, rfl⟩

/-- What is lost stays lost. -/
theorem State.Lost.step (lost : s.Lost) (based : Based s) (moved : s.step a = some s') : s'.Lost := by
  cases a with
  | dispatch majorFunction associated =>
    rw [State.step] at moved
    split at moved
    · contradiction
    · obtain rfl := Option.some.inj moved
      exact lost
  | complete j processor =>
    obtain ⟨r, present, moved⟩ := Option.bind_eq_some_iff.mp moved
    cases State.completes moved with
    | link here =>
      obtain late | ⟨i, member, missing, misses⟩ := lost
      · exact .inl late
      · have other : i ≠ j := fun same => based.fresh present (by rw [here]; rfl) (same ▸ member)
        exact .inr ⟨i, List.mem_append_left _ member, missing, Removal.misses_cons misses other⟩
    | move =>
      obtain late | ⟨i, member, missing, misses⟩ := lost
      · exact .inl fun clean => late (List.append_eq_nil_iff.mp clean).1
      · exact .inr ⟨i, member, missing, misses⟩
  | remove status =>
    have moved := State.removes moved
    obtain ⟨linked, uses⟩ := moved.same
    obtain late | ⟨i, member, missing, misses⟩ := lost
    · left
      rwa [uses]
    · exact .inr ⟨i, by rwa [linked], moved.misses missing misses⟩

theorem State.Lost.not_losesNothing (lost : s.Lost) : ¬ s.LosesNothing := by
  intro nothing
  obtain late | ⟨i, member, missing, -⟩ := lost
  · exact late nothing.counters
  · have once := (nothing.once i member).1
    rw [List.count_eq_zero_of_not_mem missing] at once
    contradiction

end Lost

section Runs

variable {s : State} {as : List Action} {processors : ℕ} {diskCounters : Bool}

/-- A removal that could write its file has lost nothing exactly where no completion stepped into one of its gaps. -/
theorem removal_loses_nothing (processors : ℕ) (diskCounters : Bool) (as : List Action) (s : State)
    (run : Run State.step (fun t a => writesSucceed t a = true) (.initial processors diskCounters) as s)
    (deleted : s.removal = .deleted) :
    s.LosesNothing ↔ Run State.step (fun t a => writesSucceed t a = true ∧ inTime t a = true)
      (.initial processors diskCounters) as s := by
  constructor
  · intro nothing
    have guarded : Run State.step (fun t a => writesSucceed t a = true ∧ inTime t a = true)
        (.initial processors diskCounters) as s ∨ s.Lost :=
      run.admitted_or Based State.Lost (based_initial _ _) (fun _ _ _ based fine moved => based.step fine moved)
        (fun _ _ _ based fine refused moved => lost_of_late based (fun timely => refused ⟨fine, timely⟩) moved)
        fun _ _ _ based lost _ moved => lost.step based moved
    exact guarded.resolve_right fun lost => lost.not_losesNothing nothing
  · intro guarded
    obtain ⟨based, kept⟩ := guarded.preserves (fun t => Based t ∧ Kept t) ⟨based_initial _ _, kept_initial _ _⟩
      fun _ _ _ both admitted moved =>
        ⟨both.1.step admitted.1 moved, both.2.step both.1 admitted.1 admitted.2 moved⟩
    exact kept.losesNothing based deleted

end Runs

/-- SCSI requests that are parts of another one, with their completions after some of the removal's steps. -/
def scsiRequests (count before after : ℕ) : List Action :=
  List.replicate count (.dispatch .scsi true) ++ List.replicate before (.remove STATUS_SUCCESS) ++
    (List.range count).flatMap (fun i => List.replicate 5 (.complete i 0)) ++
    List.replicate after (.remove STATUS_SUCCESS)

def State.after (as : List Action) : State :=
  (runs? State.step (fun t a => writesSucceed t a = true) (.initial 1 true) as).getD (.initial 1 true)

/-- The completions of two requests come before the loop. -/
theorem removal_loses_nothing_early : (State.after (scsiRequests 2 2 14)).LosesNothing :=
  (removal_loses_nothing 1 true (scsiRequests 2 2 14) _ (run_getD (by decide +kernel)) (by decide +kernel)).mpr
    (run_of_runs? (by decide +kernel))

/-- The completion comes after the counters have been freed: its record stays on the list of a device that is deleted,
and it has updated the counters. -/
theorem removal_loses_nothing_late : ¬ ∀ processors diskCounters as s,
    Run State.step (fun t a => writesSucceed t a = true) (.initial processors diskCounters) as s →
    s.removal = .deleted → s.LosesNothing := by
  intro claimed
  have nothing := claimed 1 true (scsiRequests 1 5 3) (.after (scsiRequests 1 5 3)) (run_getD (by decide +kernel))
    (by decide +kernel)
  have left : (State.after (scsiRequests 1 5 3)).logData = [0] := by decide +kernel
  have empty := nothing.empty
  rw [left] at empty
  contradiction

end QueueCache.ScsiChk
