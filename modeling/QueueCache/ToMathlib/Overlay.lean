import Mathlib.Data.List.Induction
import Mathlib.Order.Nat
import Mathlib.Order.Defs.LinearOrder

/-! # Newest-wins overlays

A store laid over a memory is a partial map: it replaces the memory where it is defined. Replaying
a sequence of stores leaves at every address the value of the last store defined there, or the
original value if none is. Stores whose domain is a union of blocks have one last writer for a
whole block, so a block of the replayed memory is a block of a single store: the block's latest
version, when what the memory held first is counted as its version zero.
-/

namespace Overlay

variable {α β κ : Type*}

/-- Lay one partial map over a memory. -/
def patch (memory : α → β) (store : α → Option β) : α → β := fun x => (store x).getD (memory x)

/-- Lay a sequence of partial maps over a memory, in order. -/
def replay (memory : α → β) (stores : List (α → Option β)) : α → β := stores.foldl patch memory

@[simp] theorem replay_nil (memory : α → β) : replay memory [] = memory := rfl

@[simp] theorem replay_cons (memory : α → β) (store : α → Option β) (rest : List (α → Option β)) :
    replay memory (store :: rest) = replay (patch memory store) rest := rfl

theorem replay_append (memory : α → β) (first second : List (α → Option β)) :
    replay memory (first ++ second) = replay (replay memory first) second :=
  List.foldl_append

theorem replay_snoc (memory : α → β) (stores : List (α → Option β)) (store : α → Option β) (x : α) :
    replay memory (stores ++ [store]) x = (store x).getD (replay memory stores x) := by
  rw [replay_append]
  rfl

/-- The store at position `n` is the last one of the sequence that is defined at `x`. -/
def LastAt (stores : List (α → Option β)) (x : α) (n : ℕ) (value : β) : Prop :=
  (∃ store, stores[n]? = some store ∧ store x = some value) ∧
    ∀ m store, n < m → stores[m]? = some store → store x = none

/-- Where no store is defined the memory is unchanged. -/
theorem replay_of_none {memory : α → β} {stores : List (α → Option β)} {x : α}
    (undefined : ∀ store ∈ stores, store x = none) : replay memory stores x = memory x := by
  induction stores using List.reverseRecOn with
  | nil => rfl
  | append_singleton stores store ih =>
    rw [replay_snoc, undefined store (by simp), Option.getD_none]
    exact ih fun other member => undefined other (List.mem_append_left _ member)

/-- The last store defined at an address decides its value. -/
theorem replay_of_lastAt {memory : α → β} {stores : List (α → Option β)} {x : α} {n : ℕ} {value : β}
    (last : LastAt stores x n value) : replay memory stores x = value := by
  obtain ⟨⟨store, present, defined⟩, later⟩ := last
  induction stores using List.reverseRecOn with
  | nil => simp at present
  | append_singleton stores top ih =>
    rw [replay_snoc]
    have bound := (List.getElem?_eq_some_iff.mp present).1
    rw [List.length_append, List.length_singleton] at bound
    by_cases atTop : n = stores.length
    · subst atTop
      obtain rfl : top = store := by simpa using present
      rw [defined, Option.getD_some]
    · have below : n < stores.length := by omega
      rw [later stores.length top below (by simp), Option.getD_none]
      rw [List.getElem?_append_left below] at present
      refine ih (fun m other after there => ?_) present
      have inside := (List.getElem?_eq_some_iff.mp there).1
      exact later m other after (by rwa [List.getElem?_append_left inside])

/-- Either some store is the last one defined at an address, or none is defined there. -/
theorem exists_lastAt_or_none (stores : List (α → Option β)) (x : α) :
    (∃ n value, LastAt stores x n value) ∨ ∀ store ∈ stores, store x = none := by
  induction stores using List.reverseRecOn with
  | nil => exact .inr (by simp)
  | append_singleton stores top ih =>
    cases defined : top x with
    | some value =>
      refine .inl ⟨stores.length, value, ⟨top, by simp, defined⟩, ?_⟩
      intro m store after there
      have bound := (List.getElem?_eq_some_iff.mp there).1
      simp only [List.length_append, List.length_singleton] at bound
      omega
    | none =>
      rcases ih with ⟨n, value, ⟨store, present, atX⟩, later⟩ | undefined
      · have below := (List.getElem?_eq_some_iff.mp present).1
        refine .inl ⟨n, value, ⟨store, by rwa [List.getElem?_append_left below], atX⟩, ?_⟩
        intro m other after there
        rcases lt_trichotomy m stores.length with inside | atTop | outside
        · rw [List.getElem?_append_left inside] at there
          exact later m other after there
        · subst atTop
          obtain rfl : top = other := by simpa using there
          exact defined
        · have bound := (List.getElem?_eq_some_iff.mp there).1
          simp only [List.length_append, List.length_singleton] at bound
          omega
      · refine .inr fun store member => ?_
        rcases List.mem_append.mp member with old | new
        · exact undefined store old
        · rwa [List.mem_singleton.mp new]

/-- Stores that are defined nowhere may be left out. -/
theorem replay_filterMap {ι γ : Type*} (memory : α → β) (sources : List ι) (sends : ι → Option γ)
    (store : γ → α → Option β) : replay memory ((sources.filterMap sends).map store) =
      replay memory (sources.map fun source => (sends source).elim (fun _ => none) store) := by
  induction sources generalizing memory with
  | nil => rfl
  | cons source rest ih =>
    cases sent : sends source with
    | none =>
      rw [List.filterMap_cons_none sent, List.map_cons, sent, replay_cons, ih]
      rfl
    | some request =>
      rw [List.filterMap_cons_some sent, List.map_cons, List.map_cons, sent, replay_cons, replay_cons, ih]
      rfl

/-- The stores at the chosen places, and nothing at the others. -/
def chosen (stores : List (α → Option β)) (places : List ℕ) : List (α → Option β) :=
  stores.mapIdx fun i store => if i ∈ places then store else fun _ => none

theorem chosen_skip {stores : List (α → Option β)} {places : List ℕ} (store : α → Option β)
    (skipped : stores.length ∉ places) :
    chosen (stores ++ [store]) places = chosen stores places ++ [fun _ => none] := by
  rw [chosen, List.mapIdx_concat, if_neg skipped]
  rfl

theorem chosen_snoc (stores : List (α → Option β)) (places : List ℕ) (store : α → Option β) :
    chosen (stores ++ [store]) (places ++ [stores.length]) = chosen stores places ++ [store] := by
  rw [chosen, List.mapIdx_concat, if_pos (List.mem_append_right _ (List.mem_singleton_self _)),
    List.append_cancel_right_eq]
  apply List.mapIdx_eq_mapIdx_iff.mpr
  intro i below
  have other : i ≠ stores.length := by omega
  simp only [List.mem_append, List.mem_singleton, other, or_false]

/-- Stores replayed in the order of their places may be replayed at their places. -/
theorem replay_chosen (memory : α → β) (stores : List (α → Option β)) (places : List ℕ)
    (increasing : places.Pairwise (· < ·)) (inside : ∀ i ∈ places, i < stores.length) :
    replay memory (places.map fun i => (stores[i]?).getD fun _ => none) = replay memory (chosen stores places) := by
  induction stores using List.reverseRecOn generalizing places with
  | nil =>
    obtain rfl := List.eq_nil_iff_forall_not_mem.mpr fun i member => absurd (inside i member) (Nat.not_lt_zero i)
    rfl
  | append_singleton stores store ih =>
    have early : ∀ few : List ℕ, (∀ i ∈ few, i < stores.length) →
        (few.map fun i => ((stores ++ [store])[i]?).getD fun _ => none) =
          few.map fun i => (stores[i]?).getD fun _ => none := by
      intro few within
      apply List.map_congr_left
      intro i member
      rw [List.getElem?_append_left (within i member)]
    by_cases last : stores.length ∈ places
    · obtain rfl | ⟨front, i, rfl⟩ := List.eq_nil_or_concat places
      · contradiction
      rw [List.concat_eq_append] at last increasing inside ⊢
      obtain ⟨ordered, -, below⟩ := List.pairwise_append.mp increasing
      have atEnd : i = stores.length := by
        have bound := inside i (List.mem_append_right _ (List.mem_singleton_self _))
        rw [List.length_append, List.length_singleton] at bound
        obtain before | here := List.mem_append.mp last
        · have later := below _ before i (List.mem_singleton_self _)
          omega
        · exact (List.mem_singleton.mp here).symm
      subst atEnd
      have within : ∀ j ∈ front, j < stores.length := fun j member => below j member _ (List.mem_singleton_self _)
      funext x
      rw [chosen_snoc, List.map_append, early front within, List.map_singleton, replay_snoc, replay_snoc,
        ih front ordered within, List.getElem?_concat_length, Option.getD_some]
    · have within : ∀ i ∈ places, i < stores.length := by
        intro i member
        have bound := inside i member
        have other : i ≠ stores.length := fun same => last (same ▸ member)
        rw [List.length_append, List.length_singleton] at bound
        omega
      funext x
      rw [chosen_skip store last, early places within, replay_snoc, Option.getD_none, ih places increasing within]

/-- The places below a bound are those of a prefix of the stores. -/
theorem replay_chosen_take (memory : α → β) (stores : List (α → Option β)) {front rest : List ℕ} {bound : ℕ}
    (increasing : front.Pairwise (· < ·)) (below : ∀ i ∈ front, i < bound) (above : ∀ i ∈ rest, bound ≤ i)
    (inside : ∀ i ∈ front, i < stores.length) :
    replay memory (front.map fun i => (stores[i]?).getD fun _ => none) =
      replay memory (chosen (stores.take bound) (front ++ rest)) := by
  have same : chosen (stores.take bound) (front ++ rest) = chosen (stores.take bound) front := by
    apply List.mapIdx_eq_mapIdx_iff.mpr
    intro i early
    rw [List.length_take] at early
    have other : i ∉ rest := fun member => by
      have late := above i member
      omega
    simp only [List.mem_append, other, or_false]
  rw [same, ← replay_chosen memory _ front increasing fun i member => ?_]
  · congr 1
    apply List.map_congr_left
    intro i member
    rw [List.getElem?_take_of_lt (below i member)]
  · have early := below i member
    have within := inside i member
    rw [List.length_take]
    omega

/-- The domain of a store is a union of the blocks that a key cuts the addresses into. -/
def Blockwise (key : α → κ) (store : α → Option β) : Prop :=
  ∀ x y, key x = key y → (store x).isSome → (store y).isSome

/-- A store reaches a block when it is defined on all of it. -/
def Reaches (key : α → κ) (k : κ) (store : α → Option β) : Prop :=
  ∀ x, key x = k → (store x).isSome

theorem Blockwise.reaches {key : α → κ} {store : α → Option β} (block : Blockwise key store) {x : α}
    (defined : (store x).isSome) : Reaches key (key x) store :=
  fun _ same => block _ _ same.symm defined

/-- A block of the replayed memory comes whole from one store, the last one that reaches it, or
whole from the original memory. -/
theorem replay_block {key : α → κ} {stores : List (α → Option β)}
    (blocks : ∀ store ∈ stores, Blockwise key store) (memory : α → β) (x : α) :
    (∃ (n : ℕ) (store : α → Option β), stores[n]? = some store ∧ Reaches key (key x) store ∧
      (∀ (m : ℕ) other, n < m → stores[m]? = some other → ¬ Reaches key (key x) other) ∧
      ∀ y, key y = key x → some (replay memory stores y) = store y) ∨
    ((∀ store ∈ stores, ¬ Reaches key (key x) store) ∧
      ∀ y, key y = key x → replay memory stores y = memory y) := by
  rcases exists_lastAt_or_none stores x with ⟨n, value, ⟨store, present, defined⟩, later⟩ | undefined
  · refine .inl ⟨n, store, present, ?_, ?_, ?_⟩
    · exact (blocks store (List.mem_of_getElem? present)).reaches (by rw [defined]; rfl)
    · intro m other after there reached
      have atX := reached x rfl
      rw [later m other after there] at atX
      contradiction
    · intro y same
      have whole := (blocks store (List.mem_of_getElem? present)).reaches (by rw [defined]; rfl) y same
      obtain ⟨atY, definedY⟩ := Option.isSome_iff_exists.mp whole
      rw [definedY]
      refine congrArg some (replay_of_lastAt ⟨⟨store, present, definedY⟩, ?_⟩)
      intro m other after there
      by_contra someY
      have reachedX := blocks other (List.mem_of_getElem? there) y x same (Option.isSome_iff_ne_none.mpr someY)
      rw [later m other after there] at reachedX
      contradiction
  · refine .inr ⟨?_, ?_⟩
    · intro store member reached
      have atX := reached x rfl
      rw [undefined store member] at atX
      contradiction
    · intro y same
      apply replay_of_none
      intro store member
      by_contra someY
      have reachedX := blocks store member y x same (Option.isSome_iff_ne_none.mpr someY)
      rw [undefined store member] at reachedX
      contradiction

/-- What a memory held first, and every store since: the versions its addresses have had. -/
def versions (memory : α → β) (stores : List (α → Option β)) : List (α → Option β) :=
  (fun x => some (memory x)) :: stores

/-- The `n`-th version of a block is these values. -/
def Holds (key : α → κ) (versions : List (α → Option β)) (k : κ) (n : ℕ) (values : α → β) : Prop :=
  ∃ store, versions[n]? = some store ∧ ∀ x, key x = k → store x = some (values x)

theorem Holds.mono {key : α → κ} {vs vs' : List (α → Option β)} {k : κ} {n : ℕ} {values : α → β}
    (holds : Holds key vs k n values) (grows : vs <+: vs') : Holds key vs' k n values := by
  obtain ⟨store, present, same⟩ := holds
  obtain ⟨more, rfl⟩ := grows
  have inside := (List.getElem?_eq_some_iff.mp present).1
  exact ⟨store, by rw [List.getElem?_append_left inside, present], same⟩

/-- Only what happens to the block matters. -/
theorem Holds.congr {key : α → κ} {vs : List (α → Option β)} {k : κ} {n : ℕ} {values values' : α → β}
    (holds : Holds key vs k n values) (same : ∀ x, key x = k → values' x = values x) : Holds key vs k n values' := by
  obtain ⟨store, present, value⟩ := holds
  refine ⟨store, present, fun x inside => ?_⟩
  rw [value x inside, same x inside]

/-- A version of a block reaches it. -/
theorem Holds.reaches {key : α → κ} {vs : List (α → Option β)} {k : κ} {n : ℕ} {values : α → β}
    (holds : Holds key vs k n values) : ∃ store, vs[n]? = some store ∧ Reaches key k store := by
  obtain ⟨store, present, value⟩ := holds
  refine ⟨store, present, fun x inside => ?_⟩
  rw [value x inside]
  rfl

/-- No block has the same values in two of its versions. -/
def Distinct (key : α → κ) (versions : List (α → Option β)) : Prop :=
  ∀ k m n values, Holds key versions k m values → Holds key versions k n values → m = n

/-- One store that changes every block it reaches. -/
theorem distinct_singleton {key : α → κ} {memory : α → β} {store : α → Option β}
    (changes : ∀ k, Reaches key k store → ∃ x, key x = k ∧ store x ≠ some (memory x)) :
    Distinct key (versions memory [store]) := by
  have apart : ∀ k values, Holds key (versions memory [store]) k 0 values →
      ¬ Holds key (versions memory [store]) k 1 values := by
    rintro k values ⟨_, ⟨⟩, value⟩ holds
    obtain ⟨_, ⟨⟩, reaches⟩ := holds.reaches
    obtain ⟨_, ⟨⟩, value'⟩ := holds
    obtain ⟨x, inside, changed⟩ := changes k reaches
    exact changed ((value' x inside).trans (value x inside).symm)
  have early : ∀ k n values, Holds key (versions memory [store]) k n values → n = 0 ∨ n = 1 := by
    rintro k n values ⟨_, present, -⟩
    have bound := (List.getElem?_eq_some_iff.mp present).1
    simp only [versions, List.length_cons, List.length_nil] at bound
    omega
  intro k m n values first second
  obtain rfl | rfl := early k m values first <;> obtain rfl | rfl := early k n values second
  · rfl
  · exact absurd second (apart k values first)
  · exact absurd first (apart k values second)
  · rfl

/-- After the first `m` stores a block is its last version so far. -/
theorem exists_version {key : α → κ} {stores : List (α → Option β)}
    (blocks : ∀ store ∈ stores, Blockwise key store) (memory : α → β) (m : ℕ) (x : α) :
    ∃ n ≤ m, Holds key (versions memory stores) (key x) n (replay memory (stores.take m)) ∧
      ∀ j store, j ≤ m → (versions memory stores)[j]? = some store → Reaches key (key x) store → j ≤ n := by
  have early : ∀ store ∈ stores.take m, Blockwise key store :=
    fun store member => blocks store (List.mem_of_mem_take member)
  rcases replay_block early memory x with ⟨n, store, present, reaches, last, same⟩ | ⟨never, same⟩
  · rw [List.getElem?_take] at present
    split at present
    · next below =>
      refine ⟨n + 1, by omega, ⟨store, present, fun y inside => (same y inside).symm⟩, ?_⟩
      intro j other within there reached
      cases j with
      | zero => omega
      | succ j =>
        by_contra later
        refine last j other (by omega) ?_ reached
        rw [List.getElem?_take, if_pos (by omega)]
        exact there
    · contradiction
  · refine ⟨0, Nat.zero_le _, ⟨_, rfl, fun y inside => by rw [same y inside]⟩, ?_⟩
    intro j other within there reached
    cases j with
    | zero => exact le_rfl
    | succ j =>
      refine absurd reached (never other (List.mem_of_getElem? (i := j) ?_))
      rw [List.getElem?_take, if_pos (by omega)]
      exact there

/-- Of a block the last version there is is what the memory holds in the end. -/
theorem Holds.newest {key : α → κ} {memory : α → β} {stores : List (α → Option β)} {k : κ} {n : ℕ} {values : α → β}
    (holds : Holds key (versions memory stores) k n values) (blocks : ∀ store ∈ stores, Blockwise key store)
    (top : ∀ m store, (versions memory stores)[m]? = some store → Reaches key k store → m ≤ n) {x : α}
    (inside : key x = k) :
    values x = replay memory stores x := by
  subst inside
  obtain ⟨m, -, last, later⟩ := exists_version blocks memory stores.length x
  rw [List.take_length] at last
  obtain ⟨store, present, reaches⟩ := last.reaches
  have above : m ≤ n := top m store present reaches
  have below : n ≤ m := by
    obtain ⟨other, there, reached⟩ := holds.reaches
    have bound := (List.getElem?_eq_some_iff.mp there).1
    simp only [versions, List.length_cons] at bound
    exact later n other (by omega) there reached
  obtain rfl : m = n := by omega
  obtain ⟨first, present, value⟩ := holds
  obtain ⟨second, there, value'⟩ := last
  obtain rfl := Option.some.inj (present.symm.trans there)
  exact Option.some.inj ((value x rfl).symm.trans (value' x rfl))

end Overlay
