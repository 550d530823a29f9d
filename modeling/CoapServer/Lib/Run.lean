import Mathlib.Logic.Relation
import Mathlib.Data.Nat.Notation
import Mathlib.Tactic.Common

/-! # Runs of a machine given by a partial step function

A machine is a function `step : σ → ι → Option σ`: the label says who moves and how, `none` that
the move is not possible. A *guard* `G : σ → ι → Prop` restricts the moves, so `Runs step G s s'`
says that `s'` is reached from `s` by moves that are all made in states where the guard admits
them; `Reach step` is the case without a guard. -/

namespace CoapServer.Lib.Run

variable {σ ι : Type*} {step : σ → ι → Option σ} {G H : σ → ι → Prop}

/-- One move the guard admits. -/
def Move (step : σ → ι → Option σ) (G : σ → ι → Prop) (s s' : σ) : Prop :=
  ∃ i, G s i ∧ step s i = some s'

/-- **Runs** whose moves all meet the guard. -/
def Runs (step : σ → ι → Option σ) (G : σ → ι → Prop) : σ → σ → Prop :=
  Relation.ReflTransGen (Move step G)

/-- Runs without a guard. -/
abbrev Reach (step : σ → ι → Option σ) : σ → σ → Prop := Runs step fun _ _ => True

theorem Runs.refl (s : σ) : Runs step G s s := Relation.ReflTransGen.refl

theorem Runs.snoc {s s' s'' : σ} (h : Runs step G s s') {i : ι} (hg : G s' i)
    (hi : step s' i = some s'') : Runs step G s s'' :=
  Relation.ReflTransGen.tail h ⟨i, hg, hi⟩

theorem Runs.trans {s s' s'' : σ} (h : Runs step G s s') (h' : Runs step G s' s'') :
    Runs step G s s'' :=
  Relation.ReflTransGen.trans h h'

/-- **The invariant rule**: what the moves the guard admits preserve holds along a run. -/
theorem Runs.invariant {P : σ → Prop}
    (hstep : ∀ s i s', P s → G s i → step s i = some s' → P s') {s s' : σ}
    (h : Runs step G s s') (h0 : P s) : P s' := by
  induction h with
  | refl => exact h0
  | tail _ hmove ih =>
    obtain ⟨i, hg, hi⟩ := hmove
    exact hstep _ i _ ih hg hi

/-- The machine that refuses the moves the guard does not admit. -/
def guarded (step : σ → ι → Option σ) (G : σ → ι → Prop) [∀ s i, Decidable (G s i)] (s : σ)
    (i : ι) : Option σ :=
  if G s i then step s i else none

/-- **A list of labels that plays** is a run. -/
theorem runs_of_foldlM [∀ s i, Decidable (G s i)] :
    ∀ (is : List ι) {s s' : σ}, is.foldlM (guarded step G) s = some s' → Runs step G s s'
  | [], s, s', h => by
    simp only [List.foldlM_nil, Option.pure_def, Option.some.injEq] at h
    subst h
    exact Runs.refl s
  | i :: is, s, s', h => by
    simp only [List.foldlM_cons, Option.bind_eq_bind, Option.bind_eq_some_iff] at h
    obtain ⟨u, hu, h⟩ := h
    unfold guarded at hu
    split_ifs at hu with hg
    exact (Relation.ReflTransGen.single ⟨i, hg, hu⟩).trans (runs_of_foldlM is h)

theorem reach_of_foldlM (is : List ι) {s s' : σ} (h : is.foldlM step s = some s') :
    Reach step s s' := by
  refine runs_of_foldlM is ?_
  have hs : guarded step (fun _ _ => True) = step := by
    funext s i
    simp [guarded]
  rw [hs]
  exact h

end CoapServer.Lib.Run
