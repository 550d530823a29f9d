import CoapServer.Queue.Sequential

/-! # The arithmetic of the queue

`enqueue` and `count` take remainders by `maxSize`, and `count` adds and subtracts in `size_t`. For
a queue that represents a list all of this is as it should be: the array that was allocated is small
enough for the sum not to wrap around (`safe_of_represents`). A queue of no slots represents none,
and its first `count` divides by zero, so the calls on a queue are safe in every run if and only if
it was made with a slot (`safe_iff`). -/

namespace CoapServer.Queue.Arithmetic

open CoapServer.Basic CoapServer.Lib.Run CoapServer.Queue.Sequential

variable {α : Type}

/-- What a call throws, if it does not return. -/
def thrown (q : RequestQueue α) : Call α → Option Failure
  | .enqueue item => match (enqueue item).run q with
    | .ok _ _ => none
    | .error e _ => some e
  | .dequeue => match dequeue.run q with
    | .ok _ _ => none
    | .error e _ => some e
  | .count => match count.run q with
    | .ok _ _ => none
    | .error e _ => some e

/-- **The arithmetic is safe**: no call takes a remainder by zero or accesses a slot that is not one
of the `maxSize`, and the sum of `count` is the one of the integers. -/
structure Safe (q : RequestQueue α) : Prop where
  remainder : ∀ c, thrown q c ≠ some .remByZero
  slots : q.items.length = q.maxSize
  access : ∀ c i, thrown q c ≠ some (.outOfBounds i)
  exact : (sizeSub (sizeAdd q.end_ q.maxSize) q.start : ℤ) = q.end_ + q.maxSize - q.start

section Represents
variable {q : RequestQueue α} {L : List α} (h : Represents q L)
include h

/-- A queue that represents a list only fails where it is empty. -/
theorem thrown_eq {c : Call α} {e : Failure} (he : thrown q c = some e) :
    e = .runtimeError (str "Attempt to dequeue on empty RequestQueue!") := by
  cases c with
  | enqueue item =>
    rcases Nat.lt_or_ge (L.length + 1) q.maxSize with hroom | hfull
    · obtain ⟨q', hrun, -⟩ := enqueue_room h hroom item
      rw [thrown, hrun] at he
      cases he
    · have hrun := enqueue_full h (by have := h.room; omega) item
      rw [thrown, hrun] at he
      cases he
  | dequeue =>
    cases L with
    | nil =>
      rw [thrown, dequeue_nil h rfl] at he
      exact (Option.some.inj he).symm
    | cons item L =>
      obtain ⟨q', hrun, -⟩ := dequeue_cons h
      rw [thrown, hrun] at he
      cases he
  | count =>
    rw [thrown, count_run h] at he
    cases he

/-- **A queue that represents a list is safe.** -/
theorem safe_of_represents : Safe q := by
  have hm := h.maxSize_lt
  have hs := h.start_lt
  have he := h.end_lt
  refine ⟨fun c hc => ?_, h.len, fun c i hc => ?_, ?_⟩
  · cases thrown_eq h hc
  · cases thrown_eq h hc
  · rw [sizeAdd_eq (by omega), sizeSub_eq (by omega) (by omega)]
    omega

end Represents

/-- **Every remainder of a queue of no slots is by zero.** -/
theorem remainder_by_zero {q : RequestQueue α} (hzero : q.maxSize = 0) :
    count.run q = .error .remByZero q ∧ ∀ item, (enqueue item).run q = .error .remByZero q := by
  have hrem : ∀ a, (rem a q.maxSize).run q = .error .remByZero q := by
    intro a
    rw [rem, if_pos hzero]
    rfl
  constructor
  · simp only [count, EStateM.run_bind, EStateM.run_get, hrem]
  · intro item
    simp only [enqueue, EStateM.run_bind, EStateM.run_get, hrem]

/-- **The arithmetic of every run is safe** if and only if the queue has a slot. -/
theorem safe_iff [Inhabited α] {maxSize : ℕ} {q₀ : RequestQueue α}
    (hnew : new maxSize = some q₀) : (∀ q, Reached q₀ q → Safe q) ↔ maxSize ≠ 0 := by
  constructor
  · rintro hsafe rfl
    obtain rfl := Option.some.inj hnew
    have hfresh := hsafe _ (Runs.refl _)
    refine hfresh.remainder .count ?_
    rw [thrown, (remainder_by_zero rfl).1]
  · intro hne q hq
    obtain ⟨hrep, -⟩ := reached_represents (by omega) hnew hq
    exact safe_of_represents hrep

end CoapServer.Queue.Arithmetic
