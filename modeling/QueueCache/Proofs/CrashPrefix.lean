import QueueCache.Proofs.Sequential

/-! # What is on the disk if the machine stops

The worker serves the queue in the order of insertion, and that is the order of the requests when a client waits
for every answer. So whenever everything stops, the disk is what a plain disk was at some point of the client's
history, with some sectors of the request at that point perhaps already there. Whatever the lower device was
asked for before an answer lies before that point: a lost write was answered lazily, and nothing that was
answered otherwise has come after it.
-/

namespace QueueCache

open Transition Overlay

section Point

variable {disk : Bytes} {s : State} {i m j : ℕ} {c : Call}

/-- The first `m` writes are those of the first `j` requests, which have been answered. -/
structure State.Point (s : State) (m j : ℕ) : Prop where
  told : ∀ (i : ℕ) (c : Call), i < j → s.calls[i]? = some c → c.answer.isSome
  below : ∀ i ∈ s.places.take m, i < j
  above : ∀ i ∈ s.places.drop m, j ≤ i
  inside : j ≤ s.calls.length

/-- Up to the place of a write that was inserted all requests have been answered. -/
theorem Sequential.point_of_place (now : Sequential disk s) (there : s.places[m]? = some j) : s.Point m j := by
  obtain ⟨inside, at_⟩ := List.getElem?_eq_some_iff.mp there
  have within : j < s.calls.length := by
    have bound := now.orderly.wf.places_lt j (at_ ▸ List.getElem_mem inside)
    simpa [State.irps] using bound
  have ordered := List.pairwise_iff_getElem.mp now.inOrder
  refine ⟨fun i c early present => ?_, fun i member => ?_, fun i member => ?_, within.le⟩
  · by_contra unanswered
    have last := now.last i c present (Option.not_isSome_iff_eq_none.mp unanswered)
    omega
  · obtain ⟨k, bound, rfl⟩ := List.mem_take_iff_getElem.mp member
    rw [← at_]
    exact ordered k m _ inside (by omega)
  · obtain ⟨k, bound, rfl⟩ := List.mem_drop_iff_getElem.mp member
    obtain rfl | later := Nat.eq_zero_or_pos k
    · simp only [Nat.add_zero, at_, le_refl]
    · rw [← at_]
      exact (ordered m (m + k) inside _ (by omega)).le

/-- When all that was inserted has been written, only a last request that is still unanswered can be ahead of its
point. -/
theorem Sequential.exists_point_at_end (now : Sequential disk s) : ∃ m j, s.Point m j ∧
    (s.places.length = m ∨ (s.places.length = m + 1 ∧ s.places[m]? = some j)) ∧
    ∀ (i : ℕ) (c : Call), s.calls[i]? = some c → c.answer.isSome → i < j := by
  have inside : ∀ i ∈ s.places, i < s.calls.length := fun i member => by
    simpa [State.irps] using now.orderly.wf.places_lt i member
  by_cases idle : ∀ c ∈ s.calls, c.answer.isSome
  · refine ⟨s.places.length, s.calls.length,
      ⟨fun i c _ present => idle c (List.mem_of_getElem? present), ?_, ?_, le_rfl⟩,
      .inl rfl, fun i c present _ => (List.getElem?_eq_some_iff.mp present).1⟩
    · rwa [List.take_length]
    · rw [List.drop_length]
      simp
  · simp only [not_forall, exists_prop] at idle
    obtain ⟨latest, member, unanswered⟩ := idle
    obtain ⟨l, there⟩ := List.getElem?_of_mem member
    have atEnd := now.last l latest there (Option.not_isSome_iff_eq_none.mp unanswered)
    have within := (List.getElem?_eq_some_iff.mp there).1
    have before : ∀ (i : ℕ) (c : Call), s.calls[i]? = some c → c.answer.isSome → i < l := by
      intro i c present answered
      have bound := (List.getElem?_eq_some_iff.mp present).1
      have other : i ≠ l := by
        rintro rfl
        rw [Option.some.inj (present.symm.trans there)] at answered
        exact unanswered answered
      omega
    by_cases placed : l ∈ s.places
    · obtain ⟨m, bound, at_⟩ := List.getElem_of_mem placed
      have here : s.places[m]? = some l := by rw [List.getElem?_eq_getElem bound, at_]
      have point := now.point_of_place here
      have last : s.places.length ≤ m + 1 := by
        by_contra more
        have later : s.places[m + 1] ∈ s.places.drop (m + 1) := by
          rw [List.drop_eq_getElem_cons (by omega)]
          exact List.mem_cons_self
        have ordered := List.pairwise_iff_getElem.mp now.inOrder m (m + 1) bound (by omega) (by omega)
        have limit := inside _ (List.mem_of_mem_drop later)
        omega
      exact ⟨m, l, point, .inr ⟨by omega, here⟩, before⟩
    · refine ⟨s.places.length, l, ⟨fun i c early present => ?_, ?_, ?_, within.le⟩, .inl rfl, before⟩
      · by_contra waits
        have last := now.last i c present (Option.not_isSome_iff_eq_none.mp waits)
        omega
      · rw [List.take_length]
        intro i member
        have bound := inside i member
        have other : i ≠ l := fun same => placed (same ▸ member)
        omega
      · rw [List.drop_length]
        simp

/-- The worker has written the first `n` items, and of some sectors the next one: for this there is a point. -/
theorem Sequential.exists_point (now : Sequential disk s) (n : ℕ) : ∃ m j, s.Point m j ∧
    (∀ k, n ≤ k → k ≤ n + 1 → min k s.places.length = m ∨
      (min k s.places.length = m + 1 ∧ s.places[m]? = some j)) ∧
    ∀ i ∈ s.places.take n, ∀ c, s.calls[i]? = some c → c.answer.isSome → i < j := by
  by_cases more : n < s.places.length
  · have there : s.places[n]? = some s.places[n] := List.getElem?_eq_getElem more
    have point := now.point_of_place there
    refine ⟨n, s.places[n], point, fun k low high => ?_, fun i member _ _ _ => point.below i member⟩
    obtain rfl | rfl : k = n ∨ k = n + 1 := by omega
    · left
      omega
    · exact .inr ⟨by omega, there⟩
  · obtain ⟨m, j, point, near, before⟩ := now.exists_point_at_end
    refine ⟨m, j, point, fun k low _ => ?_, fun i _ c present answered => before i c present answered⟩
    rw [min_eq_right (by omega)]
    exact near

/-- A sector that has as many writes as the point, or one more, holds what a plain disk held at that point, or the
write of the request there. -/
theorem Sequential.sector_at_point (now : Sequential disk s) (point : s.Point m j) {σ : ℤ}
    (near : min (s.settled σ) s.places.length = m ∨
      (min (s.settled σ) s.places.length = m + 1 ∧ s.places[m]? = some j)) :
    (∀ x, sector x = σ → s.shared.disk x = plainDisk disk (s.calls.take j) x) ∨
      ∃ c, s.calls[j]? = some c ∧ ∀ x, sector x = σ → c.irp.written x = some (s.shared.disk x) := by
  have plain := now.replay_take point.told point.below point.above
  have written : s.written.length = s.places.length := by
    rw [State.written, State.places, List.length_map, List.length_map]
  have onDisk : ∀ x, sector x = σ → s.shared.disk x =
      replay disk (s.written.take (min (s.settled σ) s.places.length)) x := by
    intro x inside
    rw [disk_settled now.orderly.wf now.orderly.fifo now.orderly.diskOk now.orderly.served, inside]
    congr 1
    rw [← written, List.take_eq_take_min]
  obtain whole | ⟨further, there⟩ := near
  · left
    intro x inside
    rw [onDisk x inside, whole, plain]
  · rw [State.places, List.getElem?_map] at there
    obtain ⟨item, inserted, rfl⟩ := Option.map_eq_some_iff.mp there
    obtain ⟨c, present, -⟩ := now.orderly.wf.linked item (List.mem_of_getElem? inserted)
    have next : s.written[m]? = some c.irp.written := by
      rw [State.written, List.getElem?_map, inserted, Option.map_some, WriteQueueItem.written_of_call present]
    have value : ∀ x, sector x = σ → s.shared.disk x =
        (c.irp.written x).getD (plainDisk disk (s.calls.take item.addr) x) := by
      intro x inside
      rw [onDisk x inside, further, List.take_add_one, next, Option.toList_some, replay_snoc, plain]
    have member : c.irp ∈ s.irps := List.mem_map_of_mem (List.mem_of_getElem? present)
    have blocks := Irp.written_blockwise (now.orderly.wholeSectors c.irp member)
    by_cases reached : (c.irp.written (512 * σ)).isSome
    · refine .inr ⟨c, present, fun x inside => ?_⟩
      have defined := blocks (512 * σ) x (by simp only [sector] at inside ⊢; omega) reached
      obtain ⟨byte, here⟩ := Option.isSome_iff_exists.mp defined
      rw [value x inside, here, Option.getD_some]
    · refine .inl fun x inside => ?_
      have undefined : c.irp.written x = none := by
        by_contra some
        exact reached (blocks x (512 * σ) (by simp only [sector] at inside ⊢; omega)
          (Option.isSome_iff_ne_none.mpr some))
      rw [value x inside, undefined, Option.getD_none]

end Point

/-- Whenever the machine stops, the disk is what a plain disk was after some first requests of a client that waits
for every answer, but for sectors that already hold the write of the next one. Every flush, and every write of
anything, that was answered with success otherwise than lazily is among these first requests. -/
theorem disk_prefix (cfg : Config) (as : List Action) (s : State) (sized : cfg.size ≠ 0)
    (run : Run State.step (fun t a => (orderly t a && oneByOne t a) = true) (.initial cfg) as s) :
    ∃ j ≤ s.calls.length,
      (∀ σ, (∀ x, sector x = σ → s.shared.disk x = plainDisk cfg.disk (s.calls.take j) x) ∨
        ∃ c, s.calls[j]? = some c ∧ ∀ x, sector x = σ → c.irp.written x = some (s.shared.disk x)) ∧
      ∀ (i : ℕ) (c : Call), s.calls[i]? = some c → c.irp.stack.needsDevice = true → ∀ completion ∈ c.completions,
        ntSuccess completion.status = true → completion.site ≠ .lazyWrite → i < j := by
  have now := sequential_of_run (sequential_initial sized) run
  obtain ⟨m, j, point, near, before⟩ := now.exists_point (s.shared.history.unlinked.length + s.worker.answered)
  refine ⟨j, point.inside, fun σ => now.sector_at_point point (near _ ?_ ?_),
    fun i c present needs completion member success notLazy => ?_⟩
  · exact Nat.add_le_add_left (s.worker.answered_le_reached σ) _
  · have bound := s.worker.reached_le σ
    rw [State.settled]
    omega
  · obtain ⟨past, -⟩ := now.orderly.answered.backed present needs member success notLazy
    refine before i ?_ c present ?_
    · rw [State.places, ← List.map_take]
      exact List.mem_map.mpr ⟨_, past, heldItem_addr i c.irp⟩
    · rw [Call.answer]
      obtain ⟨first, rest, done⟩ := List.exists_cons_of_ne_nil (List.ne_nil_of_mem member)
      rw [done]
      rfl

/-- Once the held flush has succeeded, the write that was acknowledged before it is on the disk. -/
theorem disk_prefix_heldFlush : (State.after smallDevice heldFlush).shared.disk =
    plainDisk smallDevice.disk (State.after smallDevice heldFlush).calls := by
  obtain ⟨j, inside, sectors, before⟩ := disk_prefix smallDevice heldFlush _ (by decide) (run_after (by decide +kernel))
  have flushed : ∃ c, (State.after smallDevice heldFlush).calls[1]? = some c ∧ c.irp.stack.needsDevice = true ∧
      ∃ completion ∈ c.completions, ntSuccess completion.status = true ∧ completion.site ≠ .lazyWrite :=
    ⟨_, State.call_after (by decide +kernel), by decide +kernel⟩
  obtain ⟨c, present, needs, completion, member, success, notLazy⟩ := flushed
  have past := before 1 c present needs completion member success notLazy
  have count : (State.after smallDevice heldFlush).calls.length = 2 := by decide +kernel
  obtain rfl : j = (State.after smallDevice heldFlush).calls.length := by omega
  funext x
  obtain plain | ⟨d, beyond, -⟩ := sectors (sector x)
  · rw [plain x rfl, List.take_length]
  · rw [List.getElem?_eq_none le_rfl] at beyond
    contradiction

end QueueCache
