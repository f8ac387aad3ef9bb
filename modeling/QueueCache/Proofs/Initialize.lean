import QueueCache.ToMathlib.Run
import QueueCache.ToMathlib.Turnstile
import QueueCache.Model.FilterSteps

/-! # The size of the device is learned once

`QCacheInitializeDevice` lets one party at a time past its wait for `InitializationEvent`, and that one
tests the size again before it asks the lower driver. So a query is sent only while the size is zero, and
whatever order the parties step in, the size is the last length a query reported, every length before it
being zero.
-/

namespace QueueCache

open Transition List

/-- Where `QCacheInitializeDevice` is with its mutex and its event. -/
def InitializePc.stage : InitializePc → Stage
  | .acquireMutex => .queueing
  | .waitEvent => .waiting
  | .releaseMutex => .admitted
  | .returned _ => .away
  | _ => .inside

/-- The program point of the call in `QCacheInitializeDevice`. -/
def FilterCall.initializePc? (c : FilterCall) : Option InitializePc :=
  match c.pc with
  | .startInitialize _ pc | .attachInitialize pc => some pc
  | _ => none

def FilterCall.initializeStage (c : FilterCall) : Stage := c.initializePc?.elim .away InitializePc.stage

/-- The call is between its wait for `InitializationEvent` and its `KeSetEvent`. -/
def FilterCall.initializing (c : FilterCall) : Bool := c.initializeStage.within

/-- Every length but the last is zero, and the last is the size. -/
def Sized (lengths : List ℤ) (size : ℤ) : Prop := ∃ n, lengths = replicate n 0 ++ [size]

theorem Sized.snoc {lengths : List ℤ} (sized : Sized lengths 0) (length : ℤ) : Sized (lengths ++ [length]) length := by
  obtain ⟨n, rfl⟩ := sized
  exact ⟨n + 1, by rw [replicate_succ']⟩

/-- What the party inside `QCacheInitializeDevice` knows of the size; `answers` are the size known when the
device was attached and the lengths the queries have reported. -/
def InitializePc.Serves (answers : List ℤ) (size : ℤ) : InitializePc → Prop
  | .allocateIrp | .callDriver | .waitLower => Sized answers size ∧ size = 0
  | .storeSize length => Sized answers length ∧ size = 0 ∧ -2 ^ 63 ≤ length ∧ length < 2 ^ 63
  | _ => Sized answers size

/-- What the parties of `QCacheInitializeDevice` work on. -/
structure Answers where
  answers : List ℤ
  size : ℤ

def Filter.answers (cfg : Config) (f : Filter) : Answers := ⟨cfg.size :: f.lengths, f.statistics.size⟩

def Answers.Settled (resource : Answers) : Prop := Sized resource.answers resource.size

def FilterCall.Serves (resource : Answers) (c : FilterCall) : Prop :=
  ∀ pc, c.initializePc? = some pc → pc.Serves resource.answers resource.size

/-- What the parties of `QCacheInitializeDevice` keep: the books of the mutex and the event, and the size. -/
structure Initialization (cfg : Config) (f : Filter) : Prop where
  turnstile : Turnstile FilterCall.initializeStage f.initializationMutex f.initializationEvent f.calls
  size : Exclusion FilterCall.initializing Answers.Settled FilterCall.Serves f.initializationEvent
    (f.answers cfg) f.calls

section Step

variable {cfg : Config} {f f' : Filter} {pc pc' : InitializePc} {c c' : FilterCall} {d : Decision} {i : ℕ}

/-- The step at the turnstile. -/
theorem InitializeMove.stage (moved : InitializeMove f d pc f' pc') :
    Stage.Move pc.stage f.initializationMutex f.initializationEvent pc'.stage f'.initializationMutex
      f'.initializationEvent := by
  cases moved with
  | acquireMutex free => exact free ▸ .lock _
  | waitEvent signalled => exact signalled ▸ .enter _
  | releaseMutex => exact .unlock _ _
  | setEvent => exact .signal _ _
  | succeeded at_ => obtain rfl | rfl := at_ <;> exact .stay _ _ _
  | failed at_ => obtain rfl | rfl := at_ <;> exact .stay _ _ _
  | _ => exact .stay _ _ _

/-- The party inside asks for the length only while the size is zero. -/
theorem InitializeMove.serves (moved : InitializeMove f d pc f' pc') (within : pc.stage.within = true)
    (serves : pc.Serves (f.answers cfg).answers (f.answers cfg).size) :
    pc'.Serves (f'.answers cfg).answers (f'.answers cfg).size := by
  cases moved with
  | unsized zero => exact ⟨serves, zero⟩
  | succeeded at_ =>
    have zero : Sized (cfg.size :: f.lengths) 0 := by
      obtain rfl | rfl := at_ <;> exact serves.2 ▸ serves.1
    have size : f.statistics.size = 0 := by obtain rfl | rfl := at_ <;> exact serves.2
    exact ⟨zero.snoc d.information.val, size, d.information.property⟩
  | failed at_ => obtain rfl | rfl := at_ <;> exact serves.1
  | noIrp => exact serves.1
  | storeSize => exact serves.1
  | acquireMutex => contradiction
  | waitEvent => contradiction
  | _ => exact serves

/-- A step that has nothing to do with the initialization, or that brings the call to it. -/
theorem Initialization.pass (before : Initialization cfg f) (present : f.calls[i]? = some c)
    (away : c.initializeStage = .away) (stays : c'.initializePc? = none ∨ c'.initializePc? = some .acquireMutex)
    (mutex : f'.initializationMutex = f.initializationMutex) (event : f'.initializationEvent = f.initializationEvent)
    (answers : f'.answers cfg = f.answers cfg) : Initialization cfg { f' with calls := f.calls.set i c' } := by
  have stage : Stage.Move c.initializeStage f.initializationMutex f.initializationEvent c'.initializeStage
      f'.initializationMutex f'.initializationEvent := by
    rw [away, mutex, event, FilterCall.initializeStage]
    obtain none | arrives := stays
    · rw [none]
      exact .stay _ _ _
    · rw [arrives]
      exact .queue _ _
  refine ⟨before.turnstile.move present stage, ?_⟩
  change Exclusion _ _ _ f'.initializationEvent (f'.answers cfg) _
  rw [event, answers]
  refine before.size.pass present ?_ ?_ id fun _ => id
  · rw [FilterCall.initializing, away]
    rfl
  · rw [FilterCall.initializing, FilterCall.initializeStage]
    obtain none | arrives := stays
    · rw [none]
      rfl
    · rw [arrives]
      rfl

/-- A step of `QCacheInitializeDevice`. -/
theorem Initialization.work (before : Initialization cfg f) (present : f.calls[i]? = some c)
    (at_ : c.initializePc? = some pc) (goes : c'.initializePc? = some pc') (moved : InitializeMove f d pc f' pc') :
    Initialization cfg { f' with calls := f.calls.set i c' } := by
  have stage : c.initializeStage = pc.stage := by rw [FilterCall.initializeStage, at_]; rfl
  have stage' : c'.initializeStage = pc'.stage := by rw [FilterCall.initializeStage, goes]; rfl
  have turned := moved.stage
  rw [← stage, ← stage'] at turned
  refine ⟨before.turnstile.move present turned, ?_⟩
  have inside : c.initializing = pc.stage.within := by rw [FilterCall.initializing, stage]
  have inside' : c'.initializing = pc'.stage.within := by rw [FilterCall.initializing, stage']
  have works (within : pc.stage.within = true) (serves : c.Serves (f.answers cfg)) : c'.Serves (f'.answers cfg) := by
    intro pc'' here
    obtain rfl := Option.some.inj (goes.symm.trans here)
    exact moved.serves within (serves pc at_)
  have size := before.size
  change Exclusion _ _ _ f'.initializationEvent (f'.answers cfg) _
  cases moved with
  | acquireMutex => exact size.pass present inside inside' id fun _ => id
  | waitEvent signalled =>
    rw [signalled] at size
    refine size.take present inside (fun settled => ?_) inside'
    intro pc'' here
    obtain rfl := Option.some.inj (goes.symm.trans here)
    exact settled
  | setEvent => exact size.give present inside inside' fun serves => serves _ at_
  | succeeded here => obtain rfl | rfl := here <;> exact size.work present inside inside' (works rfl)
  | failed here => obtain rfl | rfl := here <;> exact size.work present inside inside' (works rfl)
  | _ => exact size.work present inside inside' (works rfl)

end Step

/-- Only `QCacheInitializeDevice` stores the size. -/
theorem size_of_no_query {s s' : State} {a : Action} (moved : s.step a = some s')
    (other : ∀ size, a ≠ .initializeDevice size) : s'.shared.statistics.size = s.shared.statistics.size := by
  cases step_cases moved with
  | receive => rfl
  | call present taken => exact taken.outer.size
  | lower present taken =>
    cases taken with
    | scattered => simp only [State.update_shared, scatterComplete_statistics]
    | _ => rfl
  | worker taken => cases taken <;> rfl
  | remover taken => cases taken <;> rfl
  | initializeDevice => exact absurd rfl (other _)

theorem Action.not_initializes {a : Action} (own : a.taken = false) (size : ℤ) : a ≠ .initializeDevice size := by
  rintro rfl
  contradiction

theorem PnpMinorFunction.routine_initializePc (c : FilterCall) (minorFunction : PnpMinorFunction) :
    (c.goto minorFunction.routine).initializePc? = none := by
  cases minorFunction <;> rfl

theorem FilterCall.usage_initializePc (c : FilterCall) (call call' : UsageCall) :
    (c.usage call call').initializePc? = none := by
  rw [FilterCall.initializePc?, FilterCall.usage_pc]

/-- A move of a call is one of `QCacheInitializeDevice`, or it leaves the initialization alone. -/
theorem FilterMove.initialize_cases {f f' : Filter} {c c' : FilterCall} {d : Decision} (cfg : Config)
    (moved : FilterMove f c d f' c') :
    (∃ pc pc', c.initializePc? = some pc ∧ c'.initializePc? = some pc' ∧ InitializeMove f d pc f' pc') ∨
      (c.initializeStage = .away ∧ (c'.initializePc? = none ∨ c'.initializePc? = some .acquireMutex) ∧
        f'.initializationMutex = f.initializationMutex ∧ f'.initializationEvent = f.initializationEvent ∧
        f'.answers cfg = f.answers cfg) := by
  have removes {device : State} (taken : f.device.stepRemover = some device) :
      ({ f with device } : Filter).answers cfg = f.answers cfg := by
    have size := size_of_no_query (a := .remover) taken fun _ => by rintro ⟨⟩
    rw [Filter.answers, Filter.statistics, size]
    rfl
  cases moved with
  | startInitialize at_ taken =>
    exact .inl ⟨_, _, by rw [FilterCall.initializePc?, at_], by rfl, taken⟩
  | attachInitialize at_ taken =>
    exact .inl ⟨_, _, by rw [FilterCall.initializePc?, at_], by rfl, taken⟩
  | acquireRemoval at_ _ _ taken =>
    exact .inr ⟨by simp [FilterCall.initializeStage, FilterCall.initializePc?, at_], .inl rfl, rfl, rfl, removes taken⟩
  | sendDown at_ _ taken =>
    exact .inr ⟨by simp [FilterCall.initializeStage, FilterCall.initializePc?, at_],
      .inl (by simp [FilterCall.initializePc?, at_]), rfl, rfl, removes taken⟩
  | remove at_ _ taken =>
    exact .inr ⟨by simp [FilterCall.initializeStage, FilterCall.initializePc?, at_],
      .inl (by simp [FilterCall.initializePc?, at_]), rfl, rfl, removes taken⟩
  | acquire at_ =>
    exact .inr ⟨by simp [FilterCall.initializeStage, FilterCall.initializePc?, at_],
      .inl (PnpMinorFunction.routine_initializePc ..), rfl, rfl, rfl⟩
  | usage at_ =>
    exact .inr ⟨by simp [FilterCall.initializeStage, FilterCall.initializePc?, at_],
      .inl (FilterCall.usage_initializePc ..), rfl, rfl, rfl⟩
  | startAnswered at_ =>
    obtain at_ | at_ := at_ <;>
      exact .inr ⟨by simp [FilterCall.initializeStage, FilterCall.initializePc?, at_], .inl rfl, rfl, rfl, rfl⟩
  | startTest at_ goes =>
    refine .inr ⟨by simp [FilterCall.initializeStage, FilterCall.initializePc?, at_], .inl ?_, rfl, rfl, rfl⟩
    obtain rfl | rfl := goes <;> rfl
  | startSized at_ goes =>
    refine .inr ⟨by simp [FilterCall.initializeStage, FilterCall.initializePc?, at_], ?_, rfl, rfl, rfl⟩
    obtain rfl | rfl := goes
    · exact .inr rfl
    · exact .inl rfl
  | startInitialized at_ =>
    exact .inr ⟨by simp [FilterCall.initializeStage, FilterCall.initializePc?, at_, InitializePc.stage], .inl rfl, rfl,
      rfl, rfl⟩
  | attachInitialized at_ =>
    exact .inr ⟨by simp [FilterCall.initializeStage, FilterCall.initializePc?, at_, InitializePc.stage], .inl rfl, rfl,
      rfl, rfl⟩
  | _ at_ => exact .inr ⟨by simp [FilterCall.initializeStage, FilterCall.initializePc?, at_], .inl rfl, rfl, rfl, rfl⟩

theorem Initialization.step {cfg : Config} {f f' : Filter} {a : FilterAction} (before : Initialization cfg f)
    (moved : f.step a = some f') : Initialization cfg f' := by
  cases filter_cases moved with
  | device own taken =>
    have size := size_of_no_query taken (Action.not_initializes own)
    have same := before.size
    rw [Filter.answers, Filter.statistics, ← size] at same
    exact ⟨before.turnstile, same⟩
  | receive => exact ⟨before.turnstile.join rfl rfl, before.size.join rfl⟩
  | call present taken =>
    obtain ⟨pc, pc', at_, goes, taken⟩ | ⟨away, stays, mutex, event, answers⟩ := taken.initialize_cases cfg
    · exact before.work present at_ goes taken
    · exact before.pass present away stays mutex event answers

theorem initialization_initial (cfg : Config) (inrush legacy : Bool) :
    Initialization cfg (.initial cfg inrush legacy) := by
  have settled : Answers.Settled ((Filter.initial cfg inrush legacy).answers cfg) := ⟨0, rfl⟩
  cases legacy with
  | false => exact ⟨.start, .start settled⟩
  | true => exact ⟨Turnstile.start.join rfl rfl, (Exclusion.start settled).join rfl⟩

theorem initialization_of_run {cfg : Config} {inrush legacy : Bool} {as : List FilterAction} {f : Filter}
    (run : Run Filter.step anyStep (.initial cfg inrush legacy) as f) : Initialization cfg f :=
  run.preserves (Initialization cfg) (initialization_initial cfg inrush legacy)
    fun _ _ _ before _ moved => before.step moved

/-- A party that stores a length or asks for one knows that the size is zero. -/
theorem Initialization.unsized {cfg : Config} {f f' : Filter} {pc pc' : InitializePc} {c : FilterCall} {d : Decision}
    {i : ℕ} (before : Initialization cfg f) (present : f.calls[i]? = some c) (at_ : c.initializePc? = some pc)
    (moved : InitializeMove f d pc f' pc') :
    (f'.statistics.size = f.statistics.size ∧ f'.lengths = f.lengths) ∨ f.statistics.size = 0 := by
  have stage : c.initializing = pc.stage.within := by
    rw [FilterCall.initializing, FilterCall.initializeStage, at_]
    rfl
  have serves (within : pc.stage.within = true) : pc.Serves (f.answers cfg).answers (f.answers cfg).size :=
    before.size.served i c present (stage.trans within) pc at_
  cases moved with
  | succeeded here => obtain rfl | rfl := here <;> exact .inr (serves rfl).2
  | storeSize => exact .inr (serves rfl).2.1
  | _ => exact .inl ⟨rfl, rfl⟩

theorem Initialization.kept {cfg : Config} {f f' : Filter} {a : FilterAction} (before : Initialization cfg f)
    (known : f.statistics.size ≠ 0) (moved : f.step a = some f') :
    f'.statistics.size = f.statistics.size ∧ f'.lengths = f.lengths := by
  cases filter_cases moved with
  | device own taken => exact ⟨size_of_no_query taken (Action.not_initializes own), rfl⟩
  | receive => exact ⟨rfl, rfl⟩
  | call present taken =>
    obtain ⟨pc, pc', at_, -, taken⟩ | ⟨-, -, -, -, answers⟩ := taken.initialize_cases cfg
    · exact (before.unsized present at_ taken).resolve_right known
    · simp only [Filter.answers, Answers.mk.injEq, cons.injEq, true_and] at answers
      exact answers.symm

/-- Whatever the order of the parties' steps, at most one of them is between its wait for `InitializationEvent` and
its signal; while nobody is, the size is the last length that a query has reported and every length before it is
zero; and a size other than zero is never changed and never asked for again. -/
theorem size_learned_once (cfg : Config) (inrush legacy : Bool) (as : List FilterAction) (f : Filter)
    (run : Run Filter.step anyStep (.initial cfg inrush legacy) as f) :
    f.calls.countP FilterCall.initializing ≤ 1 ∧
      (f.initializationEvent = true → Sized (cfg.size :: f.lengths) f.statistics.size) ∧
      (f.statistics.size ≠ 0 → ∀ bs g, Run Filter.step anyStep f bs g →
        g.statistics.size = f.statistics.size ∧ g.lengths = f.lengths) := by
  have initialization := initialization_of_run run
  refine ⟨initialization.size.alone, fun free => initialization.size.owned (initialization.size.shut free), ?_⟩
  intro known bs g more
  apply And.right
  apply more.preserves (fun g => Initialization cfg g ∧
    g.statistics.size = f.statistics.size ∧ g.lengths = f.lengths) ⟨initialization, rfl, rfl⟩
  rintro t a u ⟨before, size, lengths⟩ - moved
  obtain ⟨same, also⟩ := before.kept (size ▸ known) moved
  exact ⟨before.step moved, same.trans size, also.trans lengths⟩

theorem length65536_range : -2 ^ 63 ≤ (65536 : ℤ) ∧ (65536 : ℤ) < 2 ^ 63 := by decide

/-- A device that nothing is known of yet. -/
def freshDevice : Config where
  maxQueueItems := 2
  maxQueueSize := 4096
  size := 0
  size_range := LengthInformation.zero_range

/-- What the lower driver reports in the examples. -/
def length65536 : LengthInformation := ⟨65536, length65536_range⟩

/-- The state a replay arrives in. -/
def Filter.after (cfg : Config) (legacy : Bool) (as : List FilterAction) : Filter :=
  (runs? Filter.step anyStep (.initial cfg false legacy) as).getD (.initial cfg false legacy)

theorem filter_of_replay (cfg : Config) (legacy : Bool) (as : List FilterAction)
    (succeeds : (runs? Filter.step anyStep (.initial cfg false legacy) as).isSome) :
    Run Filter.step anyStep (.initial cfg false legacy) as (.after cfg legacy as) := run_getD succeeds

/-- A device named in the registry is started while the driver waits for its size. -/
def twoStarts : List FilterAction :=
  [.receive .startDevice] ++ replicate 5 (.call 0 {}) ++ [.call 0 { status := STATUS_PENDING }] ++
    replicate 5 (.call 1 {}) ++ [.call 0 { information := length65536 }] ++ replicate 3 (.call 0 {}) ++
    replicate 5 (.call 1 {})

theorem size_learned_once_twoStarts : ∃ f, Run Filter.step anyStep (.initial freshDevice false true) twoStarts f ∧
    f.lengths = [65536] ∧ f.statistics.size = 65536 ∧ Sized (freshDevice.size :: f.lengths) f.statistics.size := by
  have run := filter_of_replay freshDevice true twoStarts (by decide +kernel)
  exact ⟨_, run, by decide +kernel, by decide +kernel,
    (size_learned_once freshDevice false true _ _ run).2.1 (by decide +kernel)⟩

end QueueCache
