import QueueCache.Proofs.FilterCalls

/-! # The removal shuts the filter's calls out

Once `IoReleaseRemoveLockAndWait` has closed the remove lock, every further PnP request is refused before
anything is done with it, and once it has returned no call of the filter holds the lock either: nothing is
queued, no scatter object is alive and no PnP request is between its acquisition and its release.
-/

namespace QueueCache

open Transition

/-- The request is refused, or will be. -/
structure FilterCall.ShutOut (c : FilterCall) : Prop where
  at_ : c.pc = .acquireRemoveLock ∨ c.pc = .refuse ∨ c.pc = .returned STATUS_DELETE_PENDING
  pnp : c.occasion ≠ .attachLegacyDevice
  forwards : c.forwards = 0
  lowerStatus : c.lowerStatus = none

theorem removed_step {s s' : State} {a : Action} (closed : s.shared.extension.removeLock.removed = true)
    (moved : s.step a = some s') : s'.shared.extension.removeLock.removed = true := by
  cases step_cases moved with
  | receive => exact closed
  | call present taken => exact taken.outer.removed.trans closed
  | lower present taken =>
    cases taken with
    | scattered => exact (scatterComplete_removed _ _ _ _).trans closed
    | _ => exact closed
  | worker taken => cases taken <;> exact closed
  | remover taken =>
    cases taken with
    | releaseLock => rfl
    | _ => exact closed
  | initializeDevice => exact closed

section Step

variable {f f' : Filter} {c c' : FilterCall} {d : Decision} {a : FilterAction} {n : ℕ}

theorem FilterMove.removed (moved : FilterMove f c d f' c')
    (closed : f.device.shared.extension.removeLock.removed = true) :
    f'.device.shared.extension.removeLock.removed = true := by
  cases moved with
  | acquireRemoval _ _ _ taken => exact removed_step (a := .remover) closed taken
  | sendDown _ _ taken => exact removed_step (a := .remover) closed taken
  | remove _ _ taken => exact removed_step (a := .remover) closed taken
  | startInitialize _ taken => rw [taken.frame.2]; exact closed
  | attachInitialize _ taken => rw [taken.frame.2]; exact closed
  | _ => exact closed

/-- With the lock closed a request that has not been granted it never will be. -/
theorem FilterCall.ShutOut.step (shut : c.ShutOut) (moved : FilterMove f c d f' c')
    (closed : f.device.shared.extension.removeLock.removed = true) : c'.ShutOut := by
  obtain ⟨here, pnp, forwards, lowerStatus⟩ := shut
  cases moved with
  | refused => exact ⟨.inr (.inl rfl), pnp, forwards, lowerStatus⟩
  | refuse => exact ⟨.inr (.inr rfl), pnp, forwards, lowerStatus⟩
  | acquireRemoval _ _ kept => rw [closed] at kept; contradiction
  | acquire _ _ _ kept => rw [closed] at kept; contradiction
  | startAnswered at_ => obtain at_ | at_ := at_ <;> simp [at_] at here
  | _ at_ => simp [at_] at here

/-- The lock stays closed, and whoever comes after the first `n` calls is shut out. -/
def ShutOutFrom (n : ℕ) (f : Filter) : Prop :=
  f.device.shared.extension.removeLock.removed = true ∧
    ∀ (i : ℕ) (c : FilterCall), f.calls[i]? = some c → n ≤ i → c.ShutOut

theorem ShutOutFrom.step (before : ShutOutFrom n f) (moved : f.step a = some f') : ShutOutFrom n f' := by
  obtain ⟨closed, shut⟩ := before
  cases filter_cases moved with
  | device _ taken => exact ⟨removed_step closed taken, shut⟩
  | receive =>
    refine ⟨closed, List.forall_getElem?_snoc (fun _ => ?_) shut⟩
    exact ⟨.inl rfl, by simp [FilterCall.receive], rfl, rfl⟩
  | @call i c c' d f₁ present taken =>
    exact ⟨taken.removed closed, List.forall_getElem?_set
      (fun later => (shut i c present later).step taken closed) shut⟩

/-- With the lock closed nobody is granted a hold. -/
theorem FilterMove.holdsLock (moved : FilterMove f c d f' c')
    (closed : f.device.shared.extension.removeLock.removed = true)
    (free : c.holdsLock = false) : c'.holdsLock = false := by
  unfold FilterCall.holdsLock at free
  cases moved with
  | refused => rfl
  | refuse => rfl
  | acquireRemoval => rfl
  | deleted => rfl
  | releaseRemoveLock => rfl
  | attachInitialize => rfl
  | attachInitialized => rfl
  | acquire _ _ _ kept => rw [closed] at kept; contradiction
  | sendDown at_ => simp [FilterCall.holdsLock, at_]
  | remove at_ => simp [FilterCall.holdsLock, at_]
  | startAnswered at_ => obtain at_ | at_ := at_ <;> simp [at_] at free
  | _ at_ => simp [at_] at free

/-- What the removal leaves of the remove lock. -/
def Waited (f : Filter) : Prop := f.device.remover.waited = true → f.holds = 0

/-- The wait for the remove lock is a step of the removal. -/
theorem FilterMove.waited (moved : FilterMove f c d f' c') (before : f.device.remover.waited = false)
    (after : f'.device.remover.waited = true) :
    c'.holdsLock = c.holdsLock ∧ ∃ device, f.device.stepRemover = some device ∧ f.device.remover = .waitHolds := by
  have waits {device : State} (taken : f.device.stepRemover = some device) (over_ : device.remover.waited = true) :
      f.device.remover = .waitHolds := by
    cases stepRemover_cases taken with
    | holdsGone at_ => exact at_
    | advance at_ =>
      obtain ⟨-, rfl⟩ | ⟨-, rfl⟩ | ⟨at_, rfl⟩ := at_
      · contradiction
      · contradiction
      · rw [at_] at before
        contradiction
    | _ => contradiction
  cases moved with
  | acquireRemoval at_ _ _ taken =>
    exact ⟨by simp [FilterCall.holdsLock, at_], _, taken, waits taken after⟩
  | sendDown at_ _ taken => exact ⟨by simp [FilterCall.holdsLock, at_], _, taken, waits taken after⟩
  | remove at_ _ taken => exact ⟨rfl, _, taken, waits taken after⟩
  | startInitialize _ taken => rw [taken.frame.1, before] at after; contradiction
  | attachInitialize _ taken => rw [taken.frame.1, before] at after; contradiction
  | _ => exact absurd (before.symm.trans after) (by decide)

theorem Waited.step {cfg : Config} {s : State} (held : Waited f) (inside : Inside cfg f s)
    (moved : f.step a = some f') : Waited f' := by
  intro after
  cases filter_cases moved with
  | device own taken =>
    have stays := remover_of_not_remover taken fun removes => by rw [removes] at own; contradiction
    exact held (stays ▸ after)
  | receive =>
    have same : f.holds = 0 := held after
    rw [Filter.holds, List.countP_append]
    exact same
  | @call i c c' d f₁ present taken =>
    have holds := Filter.holds_set present c'
    change ((f.calls.set i c').countP FilterCall.holdsLock : ℤ) = 0
    rw [holds]
    cases before : f.device.remover.waited with
    | false =>
      obtain ⟨keeps, device, removes, waits⟩ := taken.waited before after
      rw [keeps, inside.holds_eq_zero removes waits]
      omega
    | true =>
      have none := held before
      have free : c.holdsLock = false := by
        by_contra holding
        have positive : 0 < f.calls.countP FilterCall.holdsLock :=
          List.countP_pos_iff.mpr ⟨c, List.mem_of_getElem? present, by simpa using holding⟩
        rw [Filter.holds] at none
        omega
      have closed : f.device.shared.extension.removeLock.removed = true := by
        obtain ⟨as, run⟩ := inside.reached
        refine inside.shows_.removed.trans ((removal_of_run run).closed ?_)
        rw [← inside.shows_.remover]
        cases at_ : f.device.remover <;> simp [at_, RemoverPc.waited] at before <;> rfl
      rw [none, free, taken.holdsLock closed free]
      rfl

end Step

theorem inside_of_run {cfg : Config} {inrush legacy : Bool} {as : List FilterAction} {f : Filter}
    (run : Run Filter.step anyStep (.initial cfg inrush legacy) as f) : ∃ s, Inside cfg f s := by
  obtain ⟨s, -, inside⟩ := run.simulated (simulates_device cfg) (inside_initial cfg inrush legacy)
  exact ⟨s, inside⟩

theorem waited_of_run {cfg : Config} {inrush legacy : Bool} {as : List FilterAction} {f : Filter}
    (run : Run Filter.step anyStep (.initial cfg inrush legacy) as f) : Waited f := by
  induction run with
  | nil => intro waited; contradiction
  | snoc before _ moved ih =>
    obtain ⟨s, inside⟩ := inside_of_run before
    exact ih.step inside moved

/-- When `IoReleaseRemoveLockAndWait` has closed the remove lock, no PnP request that comes along is granted it,
and nothing is done with it but to refuse it. When it has returned, no PnP request is between its acquisition of
the lock and its release, nothing is queued and no dispatch call answers for a hold. -/
theorem removal_shuts_out (cfg : Config) (inrush legacy : Bool) (as : List FilterAction) (f : Filter)
    (run : Run Filter.step anyStep (.initial cfg inrush legacy) as f) (closed : f.device.remover.closedLock = true) :
    (∀ bs g, Run Filter.step anyStep f bs g → ∀ (i : ℕ) (c : FilterCall), g.calls[i]? = some c →
      f.calls.length ≤ i → c.ShutOut) ∧
    (f.device.remover.waited = true → (∀ c ∈ f.calls, c.holdsLock = false) ∧ f.device.shared.queue = [] ∧
      ∀ c ∈ f.device.calls, c.holds = 0) := by
  obtain ⟨s, inside⟩ := inside_of_run run
  obtain ⟨bs, reached⟩ := inside.reached
  have removal := removal_of_run reached
  have remover := inside.shows_.remover
  constructor
  · intro bs g more i c present later
    have start : ShutOutFrom f.calls.length f :=
      ⟨inside.shows_.removed.trans (removal.closed (remover ▸ closed)), fun i c present beyond => by
        rw [List.getElem?_eq_none beyond] at present
        contradiction⟩
    exact (more.preserves (ShutOutFrom f.calls.length) start fun _ _ _ before _ moved =>
      before.step moved).2 i c present later
  · intro waited
    have none := waited_of_run run waited
    obtain ⟨empty, released⟩ := removal.released (remover ▸ waited)
    refine ⟨fun c member => ?_, inside.shows_.queue.trans empty, fun c member => ?_⟩
    · by_contra holding
      have positive : 0 < f.calls.countP FilterCall.holdsLock :=
        List.countP_pos_iff.mpr ⟨c, member, by simpa using holding⟩
      rw [Filter.holds] at none
      omega
    · obtain ⟨d, there, same⟩ :=
        List.mem_map.mp (inside.shows_.calls ▸ List.mem_map_of_mem member : c.forget ∈ s.calls.map Call.forget)
      have holds : d.forget.holds = c.forget.holds := by rw [same]
      exact holds.symm.trans (released d there)

/-- A removal has closed the remove lock when another PnP request comes along. -/
def removalBegun : List FilterAction :=
  (lazyWriteServed.map .device) ++ [.receive .removeDevice] ++ List.replicate 4 (.call 0 {}) ++
    (workerSteps 2).map .device ++ List.replicate 4 (.call 0 {})

theorem removal_shuts_out_refused : ∃ f g c, Run Filter.step anyStep (.initial smallDevice false false) removalBegun f ∧
    Run Filter.step anyStep f ([.receive .other] ++ List.replicate 2 (.call 1 {})) g ∧ g.calls[1]? = some c ∧
    c.pc = .returned STATUS_DELETE_PENDING ∧ c.ShutOut := by
  have run := filter_of_replay smallDevice false removalBegun (by decide +kernel)
  have more : Run Filter.step anyStep (Filter.after smallDevice false removalBegun) ([.receive .other] ++
      List.replicate 2 (.call 1 {})) _ := run_getD (by decide +kernel)
  have shut := (removal_shuts_out smallDevice false false _ _ run (by decide +kernel)).1 _ _ more 1
    ⟨.pnp .other, .returned STATUS_DELETE_PENDING, STATUS_SUCCESS, [STATUS_DELETE_PENDING], 0, none⟩ (by decide +kernel)
    (by decide +kernel)
  exact ⟨_, _, _, run, more, by decide +kernel, rfl, shut⟩

end QueueCache
