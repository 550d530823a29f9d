import CoapServer.Queue.Sequential

/-! # How many items the queue holds

The header calls `maxSize` the maximum number of items the queue can hold. `enqueue` refuses an
item when the slot after `end_` is the one at `start`, which is so as soon as one slot is left
(`refused_iff`). A queue made for `maxSize` items therefore never holds `maxSize`, and a run of
calls keeps to the header if and only if it never enqueues with `maxSize - 1` items there
(`holds_its_size_iff`). For every size there is a run that does. -/

namespace CoapServer.Queue.Capacity

open CoapServer.Lib.Run CoapServer.Queue.Sequential

variable {α : Type}

/-- `enqueue` does not take the item: it returns something else than `0`. -/
def Refused (q : RequestQueue α) (item : α) : Prop :=
  ∃ r q', r ≠ 0 ∧ (enqueue item).run q = .ok r q'

/-- The queue before call `i` of a run from `q₀`. -/
def before (q₀ : RequestQueue α) (calls : List (Call α)) (i : ℕ) : RequestQueue α :=
  (calls.take i).foldl Call.apply q₀

/-- **The queue holds `maxSize` items** in the run: where an item is refused they are there. -/
def HoldsItsSize (maxSize : ℕ) (q₀ : RequestQueue α) (calls : List (Call α)) : Prop :=
  ∀ i item, calls[i]? = some (.enqueue item) → Refused (before q₀ calls i) item →
    (contents (before q₀ calls i)).length = maxSize

/-- A queue that represents a list refuses exactly when one slot is left. -/
theorem refused_iff {q : RequestQueue α} {L : List α} (h : Represents q L) (item : α) :
    Refused q item ↔ L.length + 1 = q.maxSize := by
  constructor
  · rintro ⟨r, q', hr, hrun⟩
    by_contra hne
    obtain ⟨q'', hrun', -⟩ := enqueue_room h (by have := h.room; omega) item
    rw [hrun'] at hrun
    exact hr (EStateM.Result.ok.inj hrun).1.symm
  · intro hfull
    exact ⟨-1, q, by decide, enqueue_full h hfull item⟩

/-- A list of calls leads to a reached queue. -/
theorem reached_foldl (q₀ : RequestQueue α) (calls : List (Call α)) :
    Reached q₀ (calls.foldl Call.apply q₀) := by
  induction calls using List.reverseRecOn with
  | nil => exact Runs.refl q₀
  | append_singleton calls c ih =>
    rw [List.foldl_append, List.foldl_cons, List.foldl_nil]
    exact ih.snoc (i := c) trivial rfl

/-- **Filling the queue**: as long as two slots are left, an item more is there. -/
theorem fill {q₀ : RequestQueue α} (h : Represents q₀ []) (item : α) :
    ∀ k < q₀.maxSize, ∃ q, (List.replicate k (Call.enqueue item)).foldl Call.apply q₀ = q ∧
      Represents q (List.replicate k item) ∧ q.maxSize = q₀.maxSize
  | 0, _ => ⟨q₀, rfl, h, rfl⟩
  | k + 1, hk => by
    obtain ⟨q, hq, hrep, hmax⟩ := fill h item k (by omega)
    obtain ⟨q', hrun, hrep', hmax'⟩ := enqueue_room hrep
      (by rw [List.length_replicate, hmax]; exact hk) item
    refine ⟨q', ?_, ?_, hmax'.trans hmax⟩
    · rw [List.replicate_succ', List.foldl_append, hq, List.foldl_cons, List.foldl_nil, Call.apply,
        hrun]
    · rw [List.replicate_succ']
      exact hrep'

/-- **What the queue holds**: a run keeps to the size if and only if no item is enqueued while
`maxSize - 1` are there, and enqueuing `maxSize` items in a row does not. -/
theorem holds_its_size_iff [Inhabited α] {maxSize : ℕ} (hpos : 1 ≤ maxSize)
    {q₀ : RequestQueue α} (hnew : new maxSize = some q₀) :
    (∀ calls, HoldsItsSize maxSize q₀ calls ↔ ∀ i item, calls[i]? = some (.enqueue item) →
      (contents (before q₀ calls i)).length ≠ maxSize - 1) ∧
    ∀ item, ¬ HoldsItsSize maxSize q₀ (List.replicate maxSize (.enqueue item)) := by
  have hbefore : ∀ calls i, Represents (before q₀ calls i) (contents (before q₀ calls i)) ∧
      (before q₀ calls i).maxSize = maxSize := fun calls i =>
    reached_represents hpos hnew (reached_foldl q₀ _)
  have hiff : ∀ calls, HoldsItsSize maxSize q₀ calls ↔ ∀ i item,
      calls[i]? = some (.enqueue item) →
        (contents (before q₀ calls i)).length ≠ maxSize - 1 := by
    intro calls
    refine forall_congr' fun i => forall_congr' fun item => imp_congr_right fun _ => ?_
    obtain ⟨hrep, hmax⟩ := hbefore calls i
    have hroom := hrep.room
    rw [refused_iff hrep, hmax]
    omega
  refine ⟨hiff, fun item hholds => ?_⟩
  obtain ⟨hrep, hmax⟩ := new_represents hpos hnew
  obtain ⟨q, hq, hfull, -⟩ := fill hrep item (maxSize - 1) (by omega)
  refine (hiff _).mp hholds (maxSize - 1) item ?_ ?_
  · rw [List.getElem?_replicate, if_pos (by omega)]
  · rw [before, List.take_replicate, min_eq_left (by omega), hq, hfull.contents_eq,
      List.length_replicate]

/-- The ring of two slots. -/
theorem holds_its_size_two : new 2 = some (⟨2, [0, 0], 0, 0⟩ : RequestQueue ℕ) ∧
    HoldsItsSize 2 (⟨2, [0, 0], 0, 0⟩ : RequestQueue ℕ) [.enqueue 7, .dequeue, .enqueue 8] ∧
    ¬ HoldsItsSize 2 (⟨2, [0, 0], 0, 0⟩ : RequestQueue ℕ) [.enqueue 7, .enqueue 7] := by
  have hnew : new 2 = some (⟨2, [0, 0], 0, 0⟩ : RequestQueue ℕ) := by decide
  obtain ⟨hiff, hnot⟩ := holds_its_size_iff (by decide) hnew
  refine ⟨hnew, (hiff _).mpr fun i item hi => ?_, hnot 7⟩
  rcases i with _ | _ | _ | i
  · decide
  · cases hi
  · decide
  · cases hi

/-- The queue made for one item refuses the first. -/
theorem first_refused : ¬ ∀ maxSize, 1 ≤ maxSize → ∀ q₀ : RequestQueue ℕ,
    new maxSize = some q₀ → ∀ calls, HoldsItsSize maxSize q₀ calls := by
  intro h
  have hrefused : Refused (⟨1, [0], 0, 0⟩ : RequestQueue ℕ) 7 := ⟨-1, _, by decide, rfl⟩
  have hheld := h 1 le_rfl _ rfl [.enqueue 7] 0 7 rfl hrefused
  exact absurd hheld (by decide)

end CoapServer.Queue.Capacity
