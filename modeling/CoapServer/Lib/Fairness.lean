import CoapServer.Lib.Run
import Mathlib.Data.List.Basic
import Mathlib.Order.Basic
import Mathlib.Order.Lattice
import Mathlib.Data.Nat.Init

/-! # Infinite executions and fairness

In each round of an `Execution` one party makes a move or nobody does. An execution is *fair* to a
label if its move is not possible or is made, again and again.

`leadsTo_of_rank` is the rule for progress: a number that no move raises, and that the moves of one
label lower, as long as what is waited for has not come. `LeadsTo` composes (`trans`), and what no move
destroys is kept along (`LeadsTo.keep`). -/

namespace CoapServer.Lib.Fairness

open CoapServer.Lib.Run

variable {σ ι : Type*}

/-- What happens in a round: the move of the label, or nothing. -/
def Round (step : σ → ι → Option σ) : Option ι → σ → σ → Prop
  | none, s, s' => s' = s
  | some i, s, s' => step s i = some s'

/-- **An infinite execution.** -/
structure Execution (step : σ → ι → Option σ) where
  state : ℕ → σ
  label : ℕ → Option ι
  round : ∀ n, Round step (label n) (state n) (state (n + 1))

variable {step : σ → ι → Option σ} {P Q R : σ → Prop}

/-- **Fair to `i`**: its move is again and again impossible, or made. -/
def Execution.Fair (e : Execution step) (i : ι) : Prop :=
  ∀ n, ∃ m, n ≤ m ∧ (step (e.state m) i = none ∨ e.label m = some i)

/-- No move destroys `P`. -/
def Stable (step : σ → ι → Option σ) (P : σ → Prop) : Prop :=
  ∀ s i s', P s → step s i = some s' → P s'

/-- **`P` leads to `Q`**: wherever `P` holds, `Q` holds there or later. -/
def Execution.LeadsTo (e : Execution step) (P Q : σ → Prop) : Prop :=
  ∀ n, P (e.state n) → ∃ m, n ≤ m ∧ Q (e.state m)

section Execution
variable {e : Execution step}

/-- **The invariant rule.** -/
theorem Execution.stable (hP : Stable step P) {n m : ℕ} (hle : n ≤ m) (h : P (e.state n)) :
    P (e.state m) := by
  induction m, hle using Nat.le_induction with
  | base => exact h
  | succ m _ ih =>
    have hround := e.round m
    cases hl : e.label m with
    | none =>
      rw [hl] at hround
      rwa [show e.state (m + 1) = e.state m from hround]
    | some i =>
      rw [hl] at hround
      exact hP _ i _ ih hround

/-- **Something that has come** was brought by a move. -/
theorem Execution.brought {m : ℕ} (h0 : ¬ P (e.state 0)) (hm : P (e.state m)) :
    ∃ n i, ¬ P (e.state n) ∧ e.label n = some i ∧ step (e.state n) i = some (e.state (n + 1)) ∧
      P (e.state (n + 1)) := by
  induction m with
  | zero => exact absurd hm h0
  | succ m ih =>
    by_cases hP : P (e.state m)
    · exact ih hP
    · have hround := e.round m
      cases hl : e.label m with
      | none =>
        rw [hl] at hround
        exact absurd ((show e.state (m + 1) = e.state m from hround) ▸ hm) hP
      | some i =>
        rw [hl] at hround
        exact ⟨m, i, hP, hl, hround, hm⟩

theorem Execution.LeadsTo.trans (h : e.LeadsTo P Q) (h' : e.LeadsTo Q R) : e.LeadsTo P R := by
  intro n hP
  obtain ⟨m, hnm, hQ⟩ := h n hP
  obtain ⟨k, hmk, hR⟩ := h' m hQ
  exact ⟨k, hnm.trans hmk, hR⟩

/-- What no move destroys still holds where `Q` comes. -/
theorem Execution.LeadsTo.keep (h : e.LeadsTo P Q) (hP : Stable step P) :
    e.LeadsTo P fun s => P s ∧ Q s := by
  intro n hn
  obtain ⟨m, hnm, hQ⟩ := h n hn
  exact ⟨m, hnm, e.stable hP hnm hn, hQ⟩

theorem Execution.LeadsTo.of_imp (h : e.LeadsTo Q R) (himp : ∀ s, P s → Q s) : e.LeadsTo P R :=
  fun n hP => h n (himp _ hP)

/-- As long as `Q` does not come, the rank does not rise. -/
theorem Execution.rank_le {Φ : σ → ℕ} (hP : Stable step P)
    (hle : ∀ s i s', P s → ¬ Q s → step s i = some s' → Q s' ∨ Φ s' ≤ Φ s)
    {n m : ℕ} (hnm : n ≤ m) (h : P (e.state n)) (hQ : ∀ k, n ≤ k → ¬ Q (e.state k)) :
    Φ (e.state m) ≤ Φ (e.state n) := by
  induction m, hnm using Nat.le_induction with
  | base => exact le_rfl
  | succ m hnm ih =>
    have hround := e.round m
    cases hl : e.label m with
    | none =>
      rw [hl] at hround
      rwa [show e.state (m + 1) = e.state m from hround]
    | some i =>
      rw [hl] at hround
      rcases hle _ i _ (e.stable hP hnm h) (hQ m hnm) hround with hcome | hlow
      · exact absurd hcome (hQ (m + 1) (Nat.le_succ_of_le hnm))
      · exact hlow.trans ih

/-- **The rank rule**: no move raises `Φ`, and the move of `i` is possible and lowers it, as long as
`Q` does not come. Then a fair execution brings `Q`. -/
theorem Execution.leadsTo_of_rank {i : ι} (hfair : e.Fair i) {Φ : σ → ℕ} (hP : Stable step P)
    (hle : ∀ s j s', P s → ¬ Q s → step s j = some s' → Q s' ∨ Φ s' ≤ Φ s)
    (hlt : ∀ s, P s → ¬ Q s → ∃ s', step s i = some s' ∧ (Q s' ∨ Φ s' < Φ s)) :
    e.LeadsTo P Q := by
  intro n h
  by_contra hnever
  have hQ : ∀ k, n ≤ k → ¬ Q (e.state k) := fun k hk hQ => hnever ⟨k, hk, hQ⟩
  -- the rank falls below every bound
  have hfall : ∀ r, ∃ m, n ≤ m ∧ Φ (e.state m) + r ≤ Φ (e.state n) := by
    intro r
    induction r with
    | zero => exact ⟨n, le_rfl, le_rfl⟩
    | succ r ih =>
      obtain ⟨m, hnm, hm⟩ := ih
      obtain ⟨k, hmk, hk⟩ := hfair m
      have hnk := hnm.trans hmk
      obtain ⟨s', hs', hlow⟩ := hlt _ (e.stable hP hnk h) (hQ k hnk)
      have hlabel : e.label k = some i := by
        rcases hk with hnone | hlabel
        · rw [hs'] at hnone
          cases hnone
        · exact hlabel
      have hround := e.round k
      rw [hlabel] at hround
      obtain rfl := Option.some.inj (hs'.symm.trans hround)
      have hstay := e.rank_le hP hle hmk (e.stable hP hnm h) fun j hj => hQ j (hnm.trans hj)
      rcases hlow with hcome | hlow
      · exact absurd hcome (hQ (k + 1) (Nat.le_succ_of_le hnk))
      · exact ⟨k + 1, Nat.le_succ_of_le hnk, by omega⟩
  obtain ⟨m, -, hm⟩ := hfall (Φ (e.state n) + 1)
  omega

end Execution

/-! ### Executions that halt -/

/-- **A list of moves** after which nothing happens. -/
def halting (step : σ → ι → Option σ) (is : List ι) (s : σ) (h : (is.foldlM step s).isSome) :
    Execution step where
  state n := ((is.take n).foldlM step s).getD s
  label n := is[n]?
  round n := by
    rcases Nat.lt_or_ge n is.length with hn | hn
    · obtain ⟨t, ht⟩ := Option.isSome_iff_exists.mp h
      rw [← List.take_append_drop (n + 1) is, List.foldlM_append, Option.bind_eq_bind,
        Option.bind_eq_some_iff] at ht
      obtain ⟨u, hu, -⟩ := ht
      have hsplit := hu
      rw [List.take_succ_eq_append_getElem hn, List.foldlM_append, Option.bind_eq_bind,
        Option.bind_eq_some_iff] at hsplit
      obtain ⟨v, hv, hvu⟩ := hsplit
      rw [List.foldlM_cons, Option.bind_eq_bind, Option.bind_eq_some_iff] at hvu
      obtain ⟨w, hw, hwu⟩ := hvu
      obtain rfl := Option.some.inj hwu
      rw [List.getElem?_eq_getElem hn, hu, hv]
      exact hw
    · rw [List.getElem?_eq_none hn, List.take_of_length_le hn,
        List.take_of_length_le (Nat.le_succ_of_le hn)]
      rfl

/-- It is fair to the moves that are not possible at its end. -/
theorem halting_fair {is : List ι} {s s' : σ} (h : is.foldlM step s = some s') {i : ι}
    (hi : step s' i = none) : (halting step is s (Option.isSome_of_eq_some h)).Fair i := by
  intro n
  refine ⟨max n is.length, le_max_left _ _, Or.inl ?_⟩
  have hend : (halting step is s (Option.isSome_of_eq_some h)).state (max n is.length) = s' := by
    change ((is.take (max n is.length)).foldlM step s).getD s = s'
    rw [List.take_of_length_le (le_max_right _ _), h]
    rfl
  rw [hend, hi]

end CoapServer.Lib.Fairness
