import CoapServer.Lib.Run
import Mathlib.Data.List.Basic

/-! # Runs and what is seen of them

`out s i` are the events seen when the machine makes the move `i` in `s`, none for a move that is
internal. `Traces` are the runs with their events.

Two rules lift what is known of single moves: what each move keeps of a state and the events before it
holds after every run (`Traces.invariant`); and where a *simulation* relates the states of two machines
such that each move of the first is matched by moves of the second with the same events, the second
has every trace of the first (`Traces.simulation`). -/

namespace CoapServer.Lib.Trace

open CoapServer.Lib.Run

variable {σ ι τ κ ε : Type*}

/-- **Runs with their events**, from `s`. -/
inductive Traces (step : σ → ι → Option σ) (G : σ → ι → Prop) (out : σ → ι → List ε) (s : σ) :
    List ε → σ → Prop where
  | refl : Traces step G out s [] s
  | snoc {es : List ε} {s' s'' : σ} {i : ι} (h : Traces step G out s es s') (hg : G s' i)
      (hi : step s' i = some s'') : Traces step G out s (es ++ out s' i) s''

variable {step : σ → ι → Option σ} {G : σ → ι → Prop} {out : σ → ι → List ε} {s s' s'' : σ}
  {es es' : List ε}

/-- A single move. -/
theorem Traces.single {i : ι} (hg : G s i) (hi : step s i = some s') :
    Traces step G out s (out s i) s' := by
  have h : Traces step G out s ([] ++ out s i) s' := Traces.refl.snoc hg hi
  rwa [List.nil_append] at h

theorem Traces.trans (h : Traces step G out s es s') (h' : Traces step G out s' es' s'') :
    Traces step G out s (es ++ es') s'' := by
  induction h' with
  | refl => rwa [List.append_nil]
  | snoc _ hg hi ih =>
    rw [← List.append_assoc]
    exact ih.snoc hg hi

/-- The run of a trace. -/
theorem Traces.runs (h : Traces step G out s es s') : Runs step G s s' := by
  induction h with
  | refl => exact Runs.refl s
  | snoc _ hg hi ih => exact ih.snoc hg hi

/-- **Every run has a trace.** -/
theorem traces_of_runs (h : Runs step G s s') : ∃ es, Traces step G out s es s' := by
  induction h with
  | refl => exact ⟨[], .refl⟩
  | tail _ hmove ih =>
    obtain ⟨i, hg, hi⟩ := hmove
    obtain ⟨es, hes⟩ := ih
    exact ⟨_, hes.snoc hg hi⟩

/-- A guard that is implied. -/
theorem Traces.mono {H : σ → ι → Prop} (himp : ∀ s i, G s i → H s i)
    (h : Traces step G out s es s') : Traces step H out s es s' := by
  induction h with
  | refl => exact .refl
  | snoc _ hg hi ih => exact ih.snoc (himp _ _ hg) hi

/-- **The invariant rule** for what relates a state to the events seen so far. -/
theorem Traces.invariant {P : List ε → σ → Prop}
    (hstep : ∀ es s i s', P es s → G s i → step s i = some s' → P (es ++ out s i) s')
    (h : Traces step G out s es s') (h0 : P [] s) : P es s' := by
  induction h with
  | refl => exact h0
  | snoc _ hg hi ih => exact hstep _ _ _ _ ih hg hi

/-- The trace of a list of moves, where all are possible. -/
def play (step : σ → ι → Option σ) (out : σ → ι → List ε) : List ι → σ → Option (List ε × σ)
  | [], s => some ([], s)
  | i :: is, s =>
    (step s i).bind fun s' => (play step out is s').map fun p => (out s i ++ p.1, p.2)

/-- **A list of moves that plays** is a trace. -/
theorem traces_of_play : ∀ (is : List ι) {s s' : σ} {es : List ε}, (∀ i ∈ is, ∀ s, G s i) →
    play step out is s = some (es, s') → Traces step G out s es s'
  | [], s, s', es, _, h => by
    obtain ⟨rfl, rfl⟩ := Prod.mk.inj (Option.some.inj h)
    exact .refl
  | i :: is, s, s', es, hG, h => by
    simp only [play, Option.bind_eq_some_iff, Option.map_eq_some_iff] at h
    obtain ⟨u, hu, ⟨es', v⟩, hv, hlast⟩ := h
    obtain ⟨rfl, rfl⟩ := Prod.mk.inj hlast
    have hrest := traces_of_play is (fun j hj => hG j (List.mem_cons_of_mem _ hj)) hv
    exact (Traces.single (hG i List.mem_cons_self s) hu).trans hrest

/-! ### Forward simulation -/

section Simulation
variable {step' : τ → κ → Option τ} {H : τ → κ → Prop} {out' : τ → κ → List ε} {R : σ → τ → Prop}

/-- **Forward simulation**: if each move is matched with its events, so is each trace. -/
theorem Traces.simulation
    (hsim : ∀ s i s' t, R s t → G s i → step s i = some s' →
      ∃ t', Traces step' H out' t (out s i) t' ∧ R s' t')
    (h : Traces step G out s es s') {t : τ} (hR : R s t) :
    ∃ t', Traces step' H out' t es t' ∧ R s' t' := by
  induction h with
  | refl => exact ⟨t, .refl, hR⟩
  | snoc _ hg hi ih =>
    obtain ⟨t₁, htr, hR₁⟩ := ih
    obtain ⟨t₂, htr₂, hR₂⟩ := hsim _ _ _ _ hR₁ hg hi
    exact ⟨t₂, htr.trans htr₂, hR₂⟩

end Simulation

end CoapServer.Lib.Trace
