import Mathlib.Data.List.Basic
import Mathlib.Data.Nat.Notation
import Mathlib.Tactic.Common

/-! # Splicing into a buffer

A buffer is a list. `resize` gives it a length, cutting it off or filling it up, and `overwrite`
replaces a range of it. `splice` does both, as one does to place a piece of a body of known length.
`getElem?_splice` says what is at each position afterwards; `splice_prefix` and `splice_last` are
about pieces that come in order, each at the end of the prefix already in place. -/

namespace CoapServer.Lib.Splice

variable {β : Type*} {fill : β} {l data : List β} {n off i : ℕ}

/-- The list cut off or filled up with `fill` to length `n`. -/
def resize (fill : β) (n : ℕ) (l : List β) : List β := l.take n ++ List.replicate (n - l.length) fill

/-- The list with the range from `off` on replaced by `data`. -/
def overwrite (off : ℕ) (data l : List β) : List β := l.take off ++ data ++ l.drop (off + data.length)

/-- **Placing `data` at `off`** in a buffer of length `n`. -/
def splice (fill : β) (n off : ℕ) (data l : List β) : List β := overwrite off data (resize fill n l)

@[simp] theorem length_resize (fill : β) (n : ℕ) (l : List β) : (resize fill n l).length = n := by
  simp only [resize, List.length_append, List.length_take, List.length_replicate]
  omega

theorem length_overwrite (h : off + data.length ≤ l.length) :
    (overwrite off data l).length = l.length := by
  simp only [overwrite, List.length_append, List.length_take, List.length_drop]
  omega

theorem length_splice (h : off + data.length ≤ n) : (splice fill n off data l).length = n := by
  rw [splice, length_overwrite (by simpa using h), length_resize]

theorem getElem?_resize : (resize fill n l)[i]? = if i < n then some (l[i]?.getD fill) else none := by
  by_cases hn : i < n
  · rw [if_pos hn, resize]
    by_cases hl : i < l.length
    · rw [List.getElem?_append_left (by rw [List.length_take]; omega), List.getElem?_take_of_lt hn,
        List.getElem?_eq_getElem hl]
      rfl
    · rw [List.getElem?_append_right (by rw [List.length_take]; omega), List.length_take,
        List.getElem?_replicate_of_lt (by omega), List.getElem?_eq_none (by omega)]
      rfl
  · rw [if_neg hn]
    exact List.getElem?_eq_none (by rw [length_resize]; omega)

theorem getElem?_overwrite (h : off + data.length ≤ l.length) : (overwrite off data l)[i]? =
    if off ≤ i ∧ i < off + data.length then data[i - off]? else l[i]? := by
  have hoff : (l.take off).length = off := by rw [List.length_take]; omega
  rcases Nat.lt_or_ge i off with hlt | hge
  · rw [if_neg (by omega), overwrite, List.append_assoc, List.getElem?_append_left (by omega),
      List.getElem?_take_of_lt hlt]
  · rcases Nat.lt_or_ge i (off + data.length) with hin | hout
    · rw [if_pos ⟨hge, hin⟩, overwrite, List.append_assoc, List.getElem?_append_right (by omega),
        hoff, List.getElem?_append_left (by omega)]
    · rw [if_neg (by omega), overwrite, List.getElem?_append_right (by
        rw [List.length_append, hoff]; exact hout), List.length_append, hoff, List.getElem?_drop,
        Nat.add_sub_cancel' hout]

/-- **What is where after a splice.** -/
theorem getElem?_splice (h : off + data.length ≤ n) : (splice fill n off data l)[i]? =
    if off ≤ i ∧ i < off + data.length then data[i - off]?
    else if i < n then some (l[i]?.getD fill) else none := by
  rw [splice, getElem?_overwrite (by simpa using h), getElem?_resize]

/-- A piece placed at the end of a prefix makes the prefix longer. -/
theorem splice_prefix {pre : List β} (hpre : pre <+: l) (h : pre.length + data.length ≤ n) :
    pre ++ data <+: splice fill n pre.length data l := by
  have htake : (resize fill n l).take pre.length = pre := by
    obtain ⟨t, rfl⟩ := hpre
    rw [resize, List.take_append_of_le_length (by
      rw [List.length_take, List.length_append]; omega), List.take_take, Nat.min_eq_left (by omega),
      List.take_left]
  rw [splice, overwrite, htake]
  exact List.prefix_append _ _

/-- **A piece placed at the end of a prefix**, up to the end of the buffer: nothing else is left. -/
theorem splice_last {pre : List β} (hpre : pre <+: l) (h : pre.length + data.length = n) :
    splice fill n pre.length data l = pre ++ data := by
  have hp : pre ++ data <+: splice fill n pre.length data l := splice_prefix hpre (Nat.le_of_eq h)
  refine (hp.eq_of_length ?_).symm
  rw [length_splice (Nat.le_of_eq h), List.length_append, h]

end CoapServer.Lib.Splice
