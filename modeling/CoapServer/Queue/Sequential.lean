import CoapServer.Basic
import CoapServer.Lib.Ring
import CoapServer.Lib.Run
import Mathlib.Data.List.ReduceOption

/-! # The request queue

`RequestQueue` is a ring buffer of `maxSize` slots, one of which stays free, so that `start = end_`
means empty. A call runs in `EStateM`: the queue it leaves is there also when it throws.

The queue *represents* a list `L` (`Represents`) when the slots from `start` on, wrapping around,
hold the elements of `L` and `end_` is the slot after them. `enqueue_room`, `enqueue_full`,
`dequeue_cons`, `dequeue_nil` and `count_run` say what each call does to a queue that represents a
list; `refines_list` puts them together over every run from a fresh queue. The list is read off the
queue by `contents`. -/

namespace CoapServer.Queue.Sequential

open CoapServer.Basic CoapServer.Lib.Ring CoapServer.Lib.Run

variable {α : Type}

/-- **The queue**: the ring `items` of `maxSize` slots, the index `start` of the first item and the
index `end_` (`end`) of the slot after the last. -/
structure RequestQueue (α : Type) where
  maxSize : ℕ
  items : List α
  start : ℕ
  end_ : ℕ
  deriving DecidableEq

/-- A call on the queue. -/
abbrev QueueM (α β : Type) := EStateM Failure (RequestQueue α) β

/-- `sizeof(RequestQueueItem)`: a pointer, a vector and a `timeval`. -/
def sizeofItem : ℕ := 48

/-- `new RequestQueueItem[n]`; `none` for `std::bad_array_new_length`. -/
def newItems [Inhabited α] (n : ℕ) : Option (List α) :=
  if n * sizeofItem ≤ ptrdiffMax then some (List.replicate n default) else none

/-- `RequestQueue::RequestQueue`. -/
def new [Inhabited α] (maxSize : ℕ) : Option (RequestQueue α) :=
  (newItems maxSize).map fun items => { maxSize, items, start := 0, end_ := 0 }

/-- `a % b` in `size_t`. -/
def rem (a b : ℕ) : QueueM α ℕ := if b = 0 then throw .remByZero else pure (a % b)

/-- `items[i]`. -/
def readItem (i : ℕ) : QueueM α α := do
  match (← get).items[i]? with
  | some item => return item
  | none => throw (.outOfBounds i)

/-- `items[i] = item`. -/
def writeItem (i : ℕ) (item : α) : QueueM α Unit := do
  if i < (← get).items.length then
    modify fun q => { q with items := q.items.set i item }
  else throw (.outOfBounds i)

/-- `RequestQueue::enqueue`. -/
def enqueue (item : α) : QueueM α ℤ := do
  let next ← rem (sizeAdd (← get).end_ 1) (← get).maxSize
  if (← get).start = next then
    return -1
  writeItem (← get).end_ item
  modify fun q => { q with end_ := sizeAdd q.end_ 1 }
  if (← get).maxSize ≤ (← get).end_ then
    modify fun q => { q with end_ := 0 }
  return 0

/-- `RequestQueue::dequeue`. -/
def dequeue : QueueM α α := do
  if (← get).start = (← get).end_ then
    throw (.runtimeError (str "Attempt to dequeue on empty RequestQueue!"))
  let item ← readItem (← get).start
  modify fun q => { q with start := sizeAdd q.start 1 }
  if (← get).maxSize ≤ (← get).start then
    modify fun q => { q with start := 0 }
  return item

/-- `RequestQueue::count`. -/
def count : QueueM α ℕ := do
  rem (sizeSub (sizeAdd (← get).end_ (← get).maxSize) (← get).start) (← get).maxSize

/-! ### The list a queue represents -/

/-- The number of items, from the indices. -/
def used (q : RequestQueue α) : ℕ := (q.end_ + q.maxSize - q.start) % q.maxSize

/-- **The items of the queue**, first in first. -/
def contents (q : RequestQueue α) : List α :=
  (window (q.items[·]?) q.maxSize q.start (used q)).reduceOption

/-- **The queue represents the list `L`.** -/
structure Represents (q : RequestQueue α) (L : List α) : Prop where
  fits : q.maxSize * sizeofItem ≤ ptrdiffMax
  len : q.items.length = q.maxSize
  start_lt : q.start < q.maxSize
  room : L.length < q.maxSize
  end_eq : q.end_ = (q.start + L.length) % q.maxSize
  cells : window (q.items[·]?) q.maxSize q.start L.length = L.map some

section Represents
variable {q : RequestQueue α} {L : List α} (h : Represents q L)
include h

theorem Represents.end_lt : q.end_ < q.maxSize := by
  rw [h.end_eq]
  exact Nat.mod_lt _ (by have := h.start_lt; omega)

theorem Represents.end_modEq : q.end_ ≡ q.start + L.length [MOD q.maxSize] := by
  rw [h.end_eq]
  exact Nat.mod_modEq _ _

theorem Represents.maxSize_lt : 2 * q.maxSize < sizeMod := by
  have := h.fits
  simp only [sizeofItem, ptrdiffMax] at this
  simp only [sizeMod]
  omega

theorem Represents.used_eq : used q = L.length := by
  have hr := h.room
  have hd := distance_eq (Nat.ModEq.refl q.start) h.end_modEq h.start_lt.le (Nat.le_add_right _ _)
    (by omega)
  rw [used, hd]
  omega

/-- **The list is read off the queue.** -/
theorem Represents.contents_eq : contents q = L := by
  rw [contents, h.used_eq, h.cells]
  simp [List.reduceOption]

/-- The queue is full when one slot is left. -/
theorem Represents.full_iff :
    q.start = (q.end_ + 1) % q.maxSize ↔ L.length + 1 = q.maxSize := by
  have hr := h.room
  rw [Lib.Ring.full_iff (Nat.ModEq.refl q.start) h.end_modEq h.start_lt (Nat.le_add_right _ _)
    (by omega)]
  omega

theorem Represents.empty_iff : q.start = q.end_ ↔ L = [] := by
  have hr := h.room
  rw [Lib.Ring.empty_iff (Nat.ModEq.refl q.start) h.end_modEq h.start_lt h.end_lt
    (Nat.le_add_right _ _) (by omega)]
  rw [← List.length_eq_zero_iff]
  omega

end Represents

/-! ### What each call computes -/

theorem readItem_run {q : RequestQueue α} {i : ℕ} {item : α} (hi : q.items[i]? = some item) :
    (readItem i).run q = .ok item q := by
  simp only [readItem, EStateM.run_bind, EStateM.run_get, hi, EStateM.run_pure]

theorem writeItem_run {q : RequestQueue α} {i : ℕ} (hi : i < q.items.length) (item : α) :
    (writeItem i item).run q = .ok ⟨⟩ { q with items := q.items.set i item } := by
  simp only [writeItem, EStateM.run_bind, EStateM.run_get, if_pos hi, EStateM.run_modify]

theorem rem_run {a b : ℕ} (hb : 0 < b) (q : RequestQueue α) :
    (rem a b).run q = .ok (a % b) q := by
  rw [rem, if_neg (by omega), EStateM.run_pure]

section Calls
variable {q : RequestQueue α} {L : List α} (h : Represents q L)
include h

/-- **What `enqueue` computes**, without the arithmetic of the machine. -/
theorem enqueue_run (item : α) : (enqueue item).run q =
    if q.start = (q.end_ + 1) % q.maxSize then .ok (-1) q
    else .ok 0 { q with
      items := q.items.set q.end_ item
      end_ := if q.maxSize ≤ q.end_ + 1 then 0 else q.end_ + 1 } := by
  have hm := h.maxSize_lt
  have he := h.end_lt
  have hadd : sizeAdd q.end_ 1 = q.end_ + 1 := sizeAdd_eq (by omega)
  have hlt : q.end_ < q.items.length := by rw [h.len]; exact he
  simp only [enqueue, EStateM.run_bind, EStateM.run_get, hadd, rem_run (by omega : 0 < q.maxSize)]
  by_cases hfull : q.start = (q.end_ + 1) % q.maxSize
  · rw [if_pos hfull, if_pos hfull, EStateM.run_pure]
  · rw [if_neg hfull, if_neg hfull]
    simp only [EStateM.run_bind, EStateM.run_get, writeItem_run hlt, EStateM.run_modify, hadd]
    by_cases hwrap : q.maxSize ≤ q.end_ + 1
    · simp only [if_pos hwrap, EStateM.run_bind, EStateM.run_modify, EStateM.run_pure]
    · simp only [if_neg hwrap, EStateM.run_pure]

/-- **What `dequeue` computes**, without the arithmetic of the machine. -/
theorem dequeue_run {item : α} (hitem : q.items[q.start]? = some item) : dequeue.run q =
    if q.start = q.end_ then
      .error (.runtimeError (str "Attempt to dequeue on empty RequestQueue!")) q
    else .ok item { q with start := if q.maxSize ≤ q.start + 1 then 0 else q.start + 1 } := by
  have hm := h.maxSize_lt
  have hs := h.start_lt
  have hadd : sizeAdd q.start 1 = q.start + 1 := sizeAdd_eq (by omega)
  simp only [dequeue, EStateM.run_bind, EStateM.run_get]
  by_cases hempty : q.start = q.end_
  · simp only [if_pos hempty, EStateM.run_bind]
    rfl
  · rw [if_neg hempty, if_neg hempty]
    simp only [EStateM.run_bind, EStateM.run_get, readItem_run hitem, EStateM.run_modify, hadd]
    by_cases hwrap : q.maxSize ≤ q.start + 1
    · simp only [if_pos hwrap, EStateM.run_bind, EStateM.run_modify, EStateM.run_pure]
    · simp only [if_neg hwrap, EStateM.run_pure]

/-- **`count` returns the number of items**, and changes nothing. -/
theorem count_run : count.run q = .ok L.length q := by
  have hm := h.maxSize_lt
  have hs := h.start_lt
  have he := h.end_lt
  have hadd : sizeAdd q.end_ q.maxSize = q.end_ + q.maxSize := sizeAdd_eq (by omega)
  have hsub : sizeSub (q.end_ + q.maxSize) q.start = q.end_ + q.maxSize - q.start :=
    sizeSub_eq (by omega) (by omega)
  simp only [count, EStateM.run_bind, EStateM.run_get]
  rw [hadd, hsub, rem_run (by omega), ← h.used_eq, used]

/-! ### What each call does to the list -/

/-- **A full queue refuses** the item and stays as it is. -/
theorem enqueue_full (hfull : L.length + 1 = q.maxSize) (item : α) :
    (enqueue item).run q = .ok (-1) q := by
  rw [enqueue_run h, if_pos (h.full_iff.mpr hfull)]

/-- **A queue with room accepts** the item, at the end of the list. -/
theorem enqueue_room (hroom : L.length + 1 < q.maxSize) (item : α) :
    ∃ q', (enqueue item).run q = .ok 0 q' ∧ Represents q' (L ++ [item]) ∧
      q'.maxSize = q.maxSize := by
  have hnot : ¬ q.start = (q.end_ + 1) % q.maxSize := by
    rw [h.full_iff]
    omega
  rw [enqueue_run h, if_neg hnot]
  refine ⟨_, rfl, ⟨h.fits, by simp [h.len], h.start_lt, by simpa using hroom, ?_, ?_⟩, rfl⟩
  · have hwrap := wrap_modEq h.end_modEq h.end_lt
    have hlt : (if q.maxSize ≤ q.end_ + 1 then 0 else q.end_ + 1) < q.maxSize := by
      split_ifs <;> omega
    rw [List.length_append, List.length_singleton, ← Nat.add_assoc]
    exact (Nat.mod_eq_of_lt hlt).symm.trans hwrap
  · simp only [List.length_append, List.length_singleton, List.map_append, List.map_cons,
      List.map_nil]
    rw [h.end_eq, window_push h.len h.room, h.cells]

/-- **An empty queue throws** and stays as it is. -/
theorem dequeue_nil (hnil : L = []) : dequeue.run q =
    .error (.runtimeError (str "Attempt to dequeue on empty RequestQueue!")) q := by
  have hlt : q.start < q.items.length := by rw [h.len]; exact h.start_lt
  rw [dequeue_run h (List.getElem?_eq_getElem hlt), if_pos (h.empty_iff.mpr hnil)]

end Calls

/-- The slot at `start` holds the first item, the slots after it the others. -/
theorem Represents.cons_cells {q : RequestQueue α} {item : α} {L : List α}
    (h : Represents q (item :: L)) : q.items[q.start]? = some item ∧
      window (q.items[·]?) q.maxSize (q.start + 1) L.length = L.map some := by
  have hcells := h.cells
  rw [List.length_cons, window_cons_cell, List.map_cons, List.cons.injEq,
    Nat.mod_eq_of_lt h.start_lt] at hcells
  exact hcells

/-- **A queue that is not empty returns its first item**, and drops it. -/
theorem dequeue_cons {q : RequestQueue α} {item : α} {L : List α}
    (h : Represents q (item :: L)) :
    ∃ q', dequeue.run q = .ok item q' ∧ Represents q' L ∧ q'.maxSize = q.maxSize := by
  have hne : ¬ q.start = q.end_ := by
    rw [h.empty_iff]
    exact List.cons_ne_nil _ _
  have hcells := h.cons_cells
  have hroom := h.room
  have hend := h.end_eq
  rw [List.length_cons] at hroom hend
  have hwrap := wrap_modEq (Nat.ModEq.refl q.start) h.start_lt
  have hlt : (if q.maxSize ≤ q.start + 1 then 0 else q.start + 1) < q.maxSize := by
    split_ifs <;> omega
  have hroom' : L.length < q.maxSize := by omega
  rw [dequeue_run h hcells.1, if_neg hne]
  refine ⟨_, rfl, ⟨h.fits, h.len, hlt, hroom', ?_, ?_⟩, rfl⟩
  · rw [hend, ← Nat.add_assoc, Nat.add_right_comm]
    exact (hwrap.add_right L.length).symm
  · rw [← window_mod, hwrap, window_mod]
    exact hcells.2

/-- A fresh queue is empty. -/
theorem new_represents [Inhabited α] {maxSize : ℕ} (hpos : 1 ≤ maxSize) {q : RequestQueue α}
    (hnew : new maxSize = some q) : Represents q [] ∧ q.maxSize = maxSize := by
  unfold new newItems at hnew
  split_ifs at hnew with hfits
  · obtain rfl := Option.some.inj hnew
    exact ⟨⟨hfits, List.length_replicate, hpos, hpos, (Nat.zero_mod _).symm, rfl⟩, rfl⟩
  · cases hnew

/-! ### Runs -/

/-- A call. -/
inductive Call (α : Type) where
  | enqueue (item : α)
  | dequeue
  | count

/-- The queue after a call, returned from or thrown out of. -/
def Call.apply (q : RequestQueue α) : Call α → RequestQueue α
  | .enqueue item => match (Sequential.enqueue item).run q with
    | .ok _ q' | .error _ q' => q'
  | .dequeue => match Sequential.dequeue.run q with
    | .ok _ q' | .error _ q' => q'
  | .count => match Sequential.count.run q with
    | .ok _ q' | .error _ q' => q'

/-- The queues reached from `q` by calls, one at a time. -/
def Reached (q : RequestQueue α) : RequestQueue α → Prop :=
  Reach (fun q (c : Call α) => some (c.apply q)) q

/-- A call on a queue that represents a list leaves one that does. -/
theorem Call.apply_represents {q : RequestQueue α} {L : List α} (h : Represents q L)
    (c : Call α) : ∃ L', Represents (c.apply q) L' ∧ (c.apply q).maxSize = q.maxSize := by
  cases c with
  | enqueue item =>
    rcases Nat.lt_or_ge (L.length + 1) q.maxSize with hroom | hfull
    · obtain ⟨q', hrun, hrep, hmax⟩ := enqueue_room h hroom item
      exact ⟨L ++ [item], by simpa only [Call.apply, hrun] using ⟨hrep, hmax⟩⟩
    · have hrun := enqueue_full h (by have := h.room; omega) item
      exact ⟨L, by simpa only [Call.apply, hrun, and_true] using h⟩
  | dequeue =>
    cases L with
    | nil =>
      have hrun := dequeue_nil h rfl
      exact ⟨[], by simpa only [Call.apply, hrun, and_true] using h⟩
    | cons item L =>
      obtain ⟨q', hrun, hrep, hmax⟩ := dequeue_cons h
      exact ⟨L, by simpa only [Call.apply, hrun] using ⟨hrep, hmax⟩⟩
  | count => exact ⟨L, by simpa only [Call.apply, count_run h, and_true] using h⟩

/-- **Every queue reached from a fresh one** represents a list. -/
theorem reached_represents [Inhabited α] {maxSize : ℕ} (hpos : 1 ≤ maxSize)
    {q₀ q : RequestQueue α} (hnew : new maxSize = some q₀) (hq : Reached q₀ q) :
    Represents q (contents q) ∧ q.maxSize = maxSize := by
  have hinv : (∃ L, Represents q L) ∧ q.maxSize = maxSize := by
    refine Runs.invariant (P := fun q => (∃ L, Represents q L) ∧ q.maxSize = maxSize) ?_ hq ?_
    · rintro s c s' ⟨⟨L, hL⟩, hmax⟩ - hs'
      obtain rfl := Option.some.inj hs'
      obtain ⟨L', hL', hmax'⟩ := c.apply_represents hL
      exact ⟨⟨L', hL'⟩, hmax'.trans hmax⟩
    · have hnew' := new_represents hpos hnew
      exact ⟨⟨[], hnew'.1⟩, hnew'.2⟩
  obtain ⟨⟨L, hL⟩, hmax⟩ := hinv
  rw [hL.contents_eq]
  exact ⟨hL, hmax⟩

/-- **The ring buffer refines a list**, in every run of calls made one at a time: `contents` starts
empty; an accepted item goes to its end and a refused one changes nothing; `dequeue` takes its
first element, or throws and changes nothing; `count` returns its length. -/
theorem refines_list [Inhabited α] {maxSize : ℕ} (hpos : 1 ≤ maxSize) {q₀ : RequestQueue α}
    (hnew : new maxSize = some q₀) :
    contents q₀ = [] ∧ ∀ q, Reached q₀ q →
      q.start < maxSize ∧ q.end_ < maxSize ∧
      (∀ item, (∃ q', (enqueue item).run q = .ok 0 q' ∧ contents q' = contents q ++ [item]) ∨
        ∃ r ≠ 0, (enqueue item).run q = .ok r q) ∧
      (∀ item L, contents q = item :: L →
        ∃ q', dequeue.run q = .ok item q' ∧ contents q' = L) ∧
      (contents q = [] → dequeue.run q =
        .error (.runtimeError (str "Attempt to dequeue on empty RequestQueue!")) q) ∧
      count.run q = .ok (contents q).length q := by
  refine ⟨(new_represents hpos hnew).1.contents_eq, fun q hq => ?_⟩
  obtain ⟨hrep, hmax⟩ := reached_represents hpos hnew hq
  refine ⟨hmax ▸ hrep.start_lt, hmax ▸ hrep.end_lt, fun item => ?_, fun item L hL => ?_,
    dequeue_nil hrep, count_run hrep⟩
  · rcases Nat.lt_or_ge ((contents q).length + 1) q.maxSize with hroom | hfull
    · obtain ⟨q', hrun, hrep', -⟩ := enqueue_room hrep hroom item
      exact Or.inl ⟨q', hrun, hrep'.contents_eq⟩
    · have hlast : (contents q).length + 1 = q.maxSize := by have := hrep.room; omega
      exact Or.inr ⟨-1, by decide, enqueue_full hrep hlast item⟩
  · rw [hL] at hrep
    obtain ⟨q', hrun, hrep', -⟩ := dequeue_cons hrep
    exact ⟨q', hrun, hrep'.contents_eq⟩

/-- The ring of two slots, which holds one item, and the run that wraps it around. -/
theorem refines_list_two : new 2 = some (⟨2, [0, 0], 0, 0⟩ : RequestQueue ℕ) ∧
    Reached (⟨2, [0, 0], 0, 0⟩ : RequestQueue ℕ) ⟨2, [7, 8], 1, 0⟩ ∧
    contents (⟨2, [7, 8], 1, 0⟩ : RequestQueue ℕ) = [8] ∧
    ∃ q', dequeue.run (⟨2, [7, 8], 1, 0⟩ : RequestQueue ℕ) = .ok 8 q' ∧ contents q' = [] := by
  have hnew : new 2 = some (⟨2, [0, 0], 0, 0⟩ : RequestQueue ℕ) := by decide
  have hq : Reached (⟨2, [0, 0], 0, 0⟩ : RequestQueue ℕ) ⟨2, [7, 8], 1, 0⟩ :=
    reach_of_foldlM [Call.enqueue 7, Call.dequeue, Call.enqueue 8] rfl
  have hcontents : contents (⟨2, [7, 8], 1, 0⟩ : RequestQueue ℕ) = [8] := by decide
  exact ⟨hnew, hq, hcontents,
    ((refines_list (by decide) hnew).2 _ hq).2.2.2.1 8 [] hcontents⟩

end CoapServer.Queue.Sequential
