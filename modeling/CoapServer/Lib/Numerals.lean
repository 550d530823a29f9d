import Mathlib.Data.List.Lex
import Mathlib.Data.Nat.Digits.Lemmas

/-! # Numbers in columns

`numeral b d w n` has the digits of `n` in base `b`, at least `w` of them, the highest first, in the
letters `d`. `columns` writes the numbers of a list, each behind a text of its own.

Where the numbers fit into their columns and the letters are ordered as the digits are, the texts
compare as the lists of numbers do (`columns_lt_iff`, `columns_le_iff`): who sorts the texts sorts
what they say. -/

namespace CoapServer.Lib.Numerals

variable {α : Type*} {b : ℕ} {d : ℕ → α} {w n m : ℕ}

/-! ### Numerals -/

/-- A number with at least `w` digits. -/
def numeral (b : ℕ) (d : ℕ → α) (w n : ℕ) : List α := (Nat.digitsAppend b w n).reverse.map d

theorem length_numeral (hb : 1 < b) (hn : n < b ^ w) : (numeral b d w n).length = w := by
  rw [numeral, List.length_map, List.length_reverse, Nat.length_digitsAppend hb w hn]

theorem mem_numeral (hb : 1 < b) {c : α} (hc : c ∈ numeral b d w n) : ∃ k < b, d k = c := by
  obtain ⟨k, hk, hkc⟩ := List.mem_map.mp hc
  exact ⟨k, Nat.lt_of_mem_digitsAppend hb w k (List.mem_reverse.mp hk), hkc⟩

/-- A number that has the digits itself. -/
theorem numeral_eq_digits (h : w ≤ (Nat.digits b n).length) :
    numeral b d w n = (Nat.digits b n).reverse.map d := by
  rw [numeral, Nat.digitsAppend, Nat.sub_eq_zero_of_le h, List.replicate_zero, List.append_nil]

/-- **The highest digit** comes first. -/
theorem numeral_succ (hb : 1 < b) (hn : n < b ^ (w + 1)) :
    numeral b d (w + 1) n = d (n / b ^ w) :: numeral b d w (n % b ^ w) := by
  have hpos : 0 < b ^ w := Nat.pow_pos (by omega)
  have hhigh : n / b ^ w < b := by
    rw [Nat.div_lt_iff_lt_mul hpos, ← Nat.pow_succ']
    exact hn
  have hlow : n % b ^ w < b ^ w := Nat.mod_lt _ hpos
  have hinv : ∀ {v k : ℕ}, k < b ^ v → Nat.ofDigits b (Nat.digitsAppend b v k) = k :=
    fun hk => (Nat.setInvOn_digitsAppend_ofDigits hb _).2 hk
  have hdigits : Nat.digitsAppend b (w + 1) n =
      Nat.digitsAppend b w (n % b ^ w) ++ [n / b ^ w] := by
    refine Nat.ofDigits_inj_of_len_eq hb ?_ ?_ ?_ ?_
    · rw [Nat.length_digitsAppend hb _ hn, List.length_append, Nat.length_digitsAppend hb _ hlow,
        List.length_singleton]
    · exact fun k => Nat.lt_of_mem_digitsAppend hb _ k
    · intro k hk
      rcases List.mem_append.mp hk with hk | hk
      · exact Nat.lt_of_mem_digitsAppend hb _ k hk
      · rw [List.mem_singleton.mp hk]
        exact hhigh
    · rw [hinv hn, Nat.ofDigits_append, hinv hlow, Nat.length_digitsAppend hb _ hlow,
        Nat.ofDigits_singleton, Nat.mod_add_div]
  rw [numeral, numeral, hdigits, List.reverse_append, List.map_append]
  rfl

section Order
variable [LT α]

/-- **Numerals of one length** compare as the numbers do. -/
theorem numeral_lt (hb : 1 < b) (hd : ∀ i j, i < j → j < b → d i < d j) (hnm : n < m) :
    m < b ^ w → numeral b d w n < numeral b d w m := by
  induction w generalizing n m with
  | zero =>
    intro hm
    rw [Nat.pow_zero] at hm
    omega
  | succ w ih =>
    intro hm
    have hpos : 0 < b ^ w := Nat.pow_pos (by omega)
    have hhigh : m / b ^ w < b := by
      rw [Nat.div_lt_iff_lt_mul hpos, ← Nat.pow_succ']
      exact hm
    rw [numeral_succ hb (hnm.trans hm), numeral_succ hb hm, List.cons_lt_cons_iff]
    rcases (Nat.div_le_div_right hnm.le).lt_or_eq with hlt | heq
    · exact Or.inl (hd _ _ hlt hhigh)
    · refine Or.inr ⟨congrArg d heq, ih ?_ (Nat.mod_lt _ hpos)⟩
      have hn := Nat.div_add_mod n (b ^ w)
      have hm' := Nat.div_add_mod m (b ^ w)
      rw [heq] at hn
      omega

end Order

/-! ### Columns -/

/-- A column: the text before the number, and how many digits it has. -/
structure Column (α : Type*) where
  lead : List α
  width : ℕ

/-- **The numbers in their columns.** -/
def columns (b : ℕ) (d : ℕ → α) : List (Column α) → List ℕ → List α
  | col :: cols, n :: ns => col.lead ++ numeral b d col.width n ++ columns b d cols ns
  | _, _ => []

/-- Each number fits its column. -/
def Fits (b : ℕ) (cols : List (Column α)) (ns : List ℕ) : Prop :=
  List.Forall₂ (fun col n => n < b ^ col.width) cols ns

theorem length_columns (hb : 1 < b) {cols : List (Column α)} {ns : List ℕ} (h : Fits b cols ns) :
    (columns b d cols ns).length = (cols.map fun col => col.lead.length + col.width).sum := by
  induction h with
  | nil => rfl
  | cons hn _ ih =>
    rw [columns, List.length_append, List.length_append, length_numeral hb hn, ih, List.map_cons,
      List.sum_cons]

section Order
variable [LT α]

theorem append_lt_append {l l' : List α} (h : l < l') (hlen : l.length = l'.length)
    (r r' : List α) : l ++ r < l' ++ r' := by
  induction l generalizing l' with
  | nil =>
    rw [List.eq_nil_of_length_eq_zero hlen.symm] at h
    cases h
  | cons x l ih =>
    cases l' with
    | nil => cases hlen
    | cons x' l' =>
      rw [List.cons_append, List.cons_append, List.cons_lt_cons_iff]
      rcases List.cons_lt_cons_iff.mp h with hx | ⟨rfl, hl⟩
      · exact Or.inl hx
      · exact Or.inr ⟨rfl, ih hl (Nat.succ.inj hlen)⟩

section Compare
variable {cols : List (Column α)} {ns ms : List ℕ} (hb : 1 < b)
  (hd : ∀ i j, i < j → j < b → d i < d j) (hns : Fits b cols ns) (hms : Fits b cols ms)
include hb hd hns hms

theorem columns_lt (h : ns < ms) : columns b d cols ns < columns b d cols ms := by
  induction hns generalizing ms with
  | nil =>
    cases hms
    cases h
  | @cons col n cols ns hn _ ih =>
    cases hms with
    | @cons _ m _ ms hm hms =>
      have hlen : (numeral b d col.width n).length = (numeral b d col.width m).length := by
        rw [length_numeral hb hn, length_numeral hb hm]
      simp only [columns, List.append_assoc]
      refine List.append_left_lt ?_
      rcases List.cons_lt_cons_iff.mp h with hlt | ⟨rfl, hlt⟩
      · exact append_lt_append (numeral_lt hb hd hlt hm) hlen _ _
      · exact List.append_left_lt (ih hms hlt)

variable [Std.Asymm (· < · : α → α → Prop)]

/-- **Columns compare as the lists of numbers do.** -/
theorem columns_lt_iff : columns b d cols ns < columns b d cols ms ↔ ns < ms := by
  refine ⟨fun h => ?_, columns_lt hb hd hns hms⟩
  rcases lt_trichotomy ns ms with hlt | rfl | hgt
  · exact hlt
  · exact absurd h (List.lt_irrefl _)
  · exact absurd (columns_lt hb hd hms hns hgt) (List.lt_asymm h)

theorem columns_le_iff : columns b d cols ns ≤ columns b d cols ms ↔ ns ≤ ms := by
  rw [← List.not_lt, columns_lt_iff hb hd hms hns, not_lt]

end Compare
end Order

end CoapServer.Lib.Numerals
