import Mathlib.Data.Nat.ModEq
import Mathlib.Data.List.Range
import Mathlib.Tactic.Common

/-! # Windows of a ring

A ring of `n` cells is walked by two counters that never wrap: `c` cells have been taken from it and
`p` put into it, with `c ≤ p < c + n`. The cells in use are the *window* of `p - c` cells from `c`
on, indices taken modulo `n`. The first part is about windows as lists: taking the first cell,
appending a cell, writing outside. The second is about what the indices modulo `n` say about the
counters: their distance, and the test for a full ring. -/

namespace CoapServer.Lib.Ring

variable {β : Type*}

/-- The `len` cells from `s` on, wrapping around at `n`. -/
def window (cells : ℕ → β) (n s len : ℕ) : List β :=
  (List.range len).map fun k => cells ((s + k) % n)

theorem window_append_cell (cells : ℕ → β) (n s len : ℕ) :
    window cells n s (len + 1) = window cells n s len ++ [cells ((s + len) % n)] := by
  simp [window, List.range_succ]

theorem window_cons_cell (cells : ℕ → β) (n s len : ℕ) :
    window cells n s (len + 1) = cells (s % n) :: window cells n (s + 1) len := by
  simp only [window, List.range_succ_eq_map, List.map_cons, List.map_map, Nat.add_zero]
  refine congrArg _ (List.map_congr_left fun k _ => ?_)
  simp only [Function.comp, Nat.succ_eq_add_one]
  rw [Nat.add_assoc, Nat.add_comm 1 k]

/-- Where the window starts matters modulo `n` only. -/
theorem window_mod (cells : ℕ → β) (n s len : ℕ) :
    window cells n (s % n) len = window cells n s len := by
  refine List.map_congr_left fun k _ => ?_
  rw [Nat.mod_add_mod]

theorem window_congr {cells cells' : ℕ → β} {n s len : ℕ}
    (h : ∀ k < len, cells ((s + k) % n) = cells' ((s + k) % n)) :
    window cells n s len = window cells' n s len :=
  List.map_congr_left fun k hk => h k (List.mem_range.mp hk)

/-- The cell after a window that leaves a cell free is not in the window. -/
theorem mod_ne_of_lt {n s k len : ℕ} (hk : k < len) (hlen : len < n) :
    (s + k) % n ≠ (s + len) % n := by
  intro h
  have hmod : k ≡ len [MOD n] := Nat.ModEq.add_left_cancel' s h
  have hkl := Nat.ModEq.eq_of_lt_of_lt hmod (by omega) hlen
  omega

/-- **Writing the free cell after the window** leaves the window as it is. -/
theorem window_set {l : List β} {n s len : ℕ} (hlen : len < n) (a : β) :
    window (fun i => (l.set ((s + len) % n) a)[i]?) n s len = window (l[·]?) n s len := by
  refine window_congr fun k hk => ?_
  rw [List.getElem?_set_ne (mod_ne_of_lt hk hlen).symm]

/-- **Writing the free cell and taking it into the window** appends what was written. -/
theorem window_push {l : List β} {n s len : ℕ} (hl : l.length = n) (hlen : len < n) (a : β) :
    window (fun i => (l.set ((s + len) % n) a)[i]?) n s (len + 1) =
      window (l[·]?) n s len ++ [some a] := by
  have hlt : (s + len) % n < l.length := by
    rw [hl]
    exact Nat.mod_lt _ (by omega)
  rw [window_append_cell, window_set hlen, List.getElem?_set_self hlt]

/-! ### What the indices say about the counters -/

section Counters
variable {n c p s e : ℕ} (hs : s ≡ c [MOD n]) (he : e ≡ p [MOD n])
include hs he

/-- **The distance of the counters**, from indices that agree with them modulo `n`. -/
theorem distance_eq (hsn : s ≤ n) (hcp : c ≤ p) (hpc : p < c + n) : (e + n - s) % n = p - c := by
  have h : e + n - s ≡ p - c [MOD n] := by
    refine Nat.ModEq.add_right_cancel hs ?_
    rw [Nat.sub_add_cancel (by omega), Nat.sub_add_cancel hcp]
    exact (Nat.add_mod_right e n).trans he
  rw [h, Nat.mod_eq_of_lt (by omega)]

/-- **The test for a full ring**: the index after `e` is `s` when one cell is left, and only then. -/
theorem full_iff (hsn : s < n) (hcp : c ≤ p) (hpc : p < c + n) :
    s = (e + 1) % n ↔ p + 1 = c + n := by
  have hc : c % n = s := by rw [← hs, Nat.mod_eq_of_lt hsn]
  have hp : (e + 1) % n = (p + 1) % n := he.add_right 1
  rw [hp, ← hc]
  constructor
  · intro h
    have hd := (Nat.modEq_iff_dvd' (by omega : c ≤ p + 1)).mp h
    obtain ⟨q, hq⟩ := hd
    have hq1 : q = 1 := by
      rcases Nat.lt_trichotomy q 1 with hlt | heq | hgt
      · obtain rfl : q = 0 := by omega
        omega
      · exact heq
      · have : n * 2 ≤ n * q := Nat.mul_le_mul_left n hgt
        omega
    subst hq1
    omega
  · intro h
    rw [h, Nat.add_mod_right]

/-- The indices agree when the ring is empty, and only then. -/
theorem empty_iff (hsn : s < n) (hen : e < n) (hcp : c ≤ p) (hpc : p < c + n) : s = e ↔ p = c := by
  constructor
  · rintro rfl
    have h := distance_eq hs he hsn.le hcp hpc
    rw [Nat.add_sub_cancel_left, Nat.mod_self] at h
    omega
  · rintro rfl
    have h := hs.trans he.symm
    exact Nat.ModEq.eq_of_lt_of_lt h hsn hen

end Counters

/-- Advancing an index that is in range and wrapping it at `n` follows the counter. -/
theorem wrap_modEq {n c s : ℕ} (hs : s ≡ c [MOD n]) (hsn : s < n) :
    (if n ≤ s + 1 then 0 else s + 1) ≡ c + 1 [MOD n] := by
  split_ifs with hn
  · have hs1 : s + 1 = n := by omega
    calc 0 ≡ n [MOD n] := (Nat.modEq_zero_iff_dvd.mpr dvd_rfl).symm
      _ = s + 1 := hs1.symm
      _ ≡ c + 1 [MOD n] := hs.add_right 1
  · exact hs.add_right 1

end CoapServer.Lib.Ring
