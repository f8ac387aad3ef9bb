import QueueCache.Model.LogRecord
import QueueCache.Proofs.LogRoundTrip
import QueueCache.Proofs.ScsiChk

/-! # What the log shows of the requests

A record starts in the completion of a request and ends on the reader's screen. Between them are the list, the
loop of the removal and the file. Where no completion steps into a gap of the removal, the reader shows every
request that was logged, once and with what its completion found; only the record at the end of the file can
be too short for the reader.
-/

namespace QueueCache.ScsiLog

open PartialReads

variable {layout : Layout} {pointer : ℕ}

end QueueCache.ScsiLog

namespace QueueCache.ScsiChk

open Transition

/-- Only SCSI requests are logged. -/
structure OfScsi (s : State) : Prop where
  linking : ∀ r ∈ s.requests, r.completion = .link → r.majorFunction = .scsi
  linked : ∀ i ∈ s.linked, ∃ r, s.requests[i]? = some r ∧ r.majorFunction = .scsi

section OfScsi

variable {s s' : State} {i : ℕ} {r : Request} {a : Action} {next : Completion}

/-- A completion moves on, and to its record only in a SCSI request. -/
theorem OfScsi.move {uses linked : List ℕ} {logData : PLogData} (before : OfScsi s) (present : s.requests[i]? = some r)
    (enters : next = .link → r.majorFunction = .scsi)
    (logs : ∀ j ∈ linked, j ∈ s.linked ∨ (j = i ∧ r.majorFunction = .scsi)) :
    OfScsi { s with
      usesAfterFree := uses
      linked
      logData
      requests := s.requests.set i { r with completion := next } } := by
  have inside := (List.getElem?_eq_some_iff.mp present).1
  constructor
  · intro other member links
    obtain old | rfl := List.mem_or_eq_of_mem_set member
    · exact before.linking other old links
    · exact enters links
  · intro j member
    by_cases own : j = i
    · subst own
      refine ⟨{ r with completion := next }, List.getElem?_set_self inside, ?_⟩
      obtain old | ⟨-, scsi⟩ := logs j member
      · obtain ⟨r', there, scsi⟩ := before.linked j old
        obtain rfl := Option.some.inj (present.symm.trans there)
        exact scsi
      · exact scsi
    · obtain old | ⟨same, -⟩ := logs j member
      · obtain ⟨other, there, scsi⟩ := before.linked j old
        exact ⟨other, (List.getElem?_set_ne (Ne.symm own)).trans there, scsi⟩
      · exact absurd same own

theorem OfScsi.complete {processor : ℕ} (before : OfScsi s) (present : s.requests[i]? = some r)
    (moved : s.complete i r processor = some s') : OfScsi s' := by
  have goes {next : Completion} (enters : next = .link → r.majorFunction = .scsi) (uses : List ℕ) :
      OfScsi { s with usesAfterFree := uses, requests := s.requests.set i { r with completion := next } } :=
    before.move present enters fun j member => .inl member
  have counts {next : Completion} (enters : next = .link → r.majorFunction = .scsi) :
      OfScsi ((s.count i).goto i r next) := by
    unfold State.count
    split
    · exact goes enters _
    · exact goes enters s.usesAfterFree
  unfold State.complete at moved
  split at moved
  · obtain rfl := Option.some.inj moved
    exact goes (by split <;> simp) s.usesAfterFree
  · split at moved <;> obtain rfl := Option.some.inj moved
    · next scsi => exact goes (fun _ => scsi) s.usesAfterFree
    · exact counts (by simp)
    · exact counts (by simp)
  · next here =>
    obtain rfl := Option.some.inj moved
    have scsi := before.linking r (List.mem_of_getElem? present) here
    refine before.move present (by simp) fun j member => ?_
    obtain old | new := List.mem_append.mp member
    · exact .inl old
    · exact .inr ⟨List.mem_singleton.mp new, scsi⟩
  · obtain rfl := Option.some.inj moved
    split
    · exact counts (by simp)
    · exact goes (by simp) s.usesAfterFree
  · obtain rfl := Option.some.inj moved
    exact goes (by simp) s.usesAfterFree
  · contradiction

theorem OfScsi.step (before : OfScsi s) (moved : s.step a = some s') : OfScsi s' := by
  cases a with
  | dispatch majorFunction associated =>
    rw [State.step] at moved
    split at moved
    · contradiction
    · obtain rfl := Option.some.inj moved
      constructor
      · intro r member links
        obtain old | new := List.mem_append.mp member
        · exact before.linking r old links
        · obtain rfl := List.mem_singleton.mp new
          contradiction
      · intro i member
        obtain ⟨r, there, scsi⟩ := before.linked i member
        exact ⟨r, List.getElem?_append_left (List.getElem?_eq_some_iff.mp there).1 ▸ there, scsi⟩
  | complete i processor =>
    obtain ⟨r, present, moved⟩ := Option.bind_eq_some_iff.mp moved
    exact before.complete present moved
  | remove status =>
    have requests : s'.requests = s.requests := by cases State.removes moved <;> rfl
    have linked := (State.removes moved).same.1
    constructor
    · rw [requests]
      exact before.linking
    · rw [requests, linked]
      exact before.linked

end OfScsi

section Log

variable {layout : ScsiLog.Layout} {s : State}

end Log

end QueueCache.ScsiChk
