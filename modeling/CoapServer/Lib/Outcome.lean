import CoapServer.Lib.Frame

/-! # When a program returns

A program that may throw *ends* with the condition `ok` if it returns exactly under it. The rules
follow how the program is built: a program that is run in parts returns if every part does. Their
conditions do not depend on what the parts before have returned. -/

namespace CoapServer.Lib.Outcome

variable {ε σ α β : Type}

/-- **From `s` the program returns exactly if `ok`**, and then with `Q`. -/
structure Ends (m : EStateM ε σ α) (s : σ) (ok : Prop) (Q : α → σ → Prop) : Prop where
  returns : ok → ∃ a s', m.run s = .ok a s' ∧ Q a s'
  throws : ¬ ok → ∃ e s', m.run s = .error e s'

variable {m : EStateM ε σ α} {k : α → EStateM ε σ β} {s : σ} {C D : Prop} {P Q : α → σ → Prop}
  {R : β → σ → Prop}

theorem Ends.iff (h : Ends m s C Q) : (∃ a s', m.run s = .ok a s' ∧ Q a s') ↔ C := by
  refine ⟨?_, h.returns⟩
  rintro ⟨a, s', hrun, -⟩
  by_contra hok
  obtain ⟨e, s₁, hthrow⟩ := h.throws hok
  rw [hrun] at hthrow
  cases hthrow

theorem Ends.congr (h : Ends m s C Q) (hok : C ↔ D) : Ends m s D Q :=
  ⟨fun h' => h.returns (hok.mpr h'), fun h' => h.throws (hok.not.mpr h')⟩

theorem Ends.mono (h : Ends m s C P) (hPQ : ∀ a s', P a s' → Q a s') : Ends m s C Q := by
  refine ⟨fun hok => ?_, h.throws⟩
  obtain ⟨a, s', hrun, hP⟩ := h.returns hok
  exact ⟨a, s', hrun, hPQ a s' hP⟩

theorem Ends.of_run {a : α} {s' : σ} (h : m.run s = .ok a s') (hQ : Q a s') : Ends m s True Q :=
  ⟨fun _ => ⟨a, s', h, hQ⟩, fun h => absurd trivial h⟩

theorem Ends.of_error {e : ε} {s' : σ} (h : m.run s = .error e s') : Ends m s False Q :=
  ⟨False.elim, fun _ => ⟨e, s', h⟩⟩

/-- From a program and a state that run the same. -/
theorem Ends.of_eq {m' : EStateM ε σ α} {s₁ : σ} (h : m.run s = m'.run s₁) (h' : Ends m' s₁ C Q) :
    Ends m s C Q := by
  constructor
  · rw [h]
    exact h'.returns
  · rw [h]
    exact h'.throws

theorem Ends.pure {a : α} (h : Q a s) : Ends (Pure.pure a : EStateM ε σ α) s True Q :=
  Ends.of_run rfl h

theorem Ends.throw (e : ε) : Ends (MonadExcept.throw e : EStateM ε σ α) s False Q :=
  Ends.of_error rfl

/-- **A program in two parts.** -/
theorem Ends.bind (hm : Ends m s C P) (hk : ∀ a s', P a s' → Ends (k a) s' D R) :
    Ends (m >>= k) s (C ∧ D) R := by
  constructor
  · rintro ⟨hok, hok'⟩
    obtain ⟨a, s₁, hrun₁, hP⟩ := hm.returns hok
    obtain ⟨b, s₂, hrun₂, hR⟩ := (hk a s₁ hP).returns hok'
    refine ⟨b, s₂, ?_, hR⟩
    rw [EStateM.run_bind, hrun₁]
    exact hrun₂
  · intro hnot
    by_cases hok : C
    · obtain ⟨a, s₁, hrun₁, hP⟩ := hm.returns hok
      obtain ⟨e, s₂, hrun₂⟩ := (hk a s₁ hP).throws fun hok' => hnot ⟨hok, hok'⟩
      refine ⟨e, s₂, ?_⟩
      rw [EStateM.run_bind, hrun₁]
      exact hrun₂
    · obtain ⟨e, s₁, hrun₁⟩ := hm.throws hok
      refine ⟨e, s₁, ?_⟩
      rw [EStateM.run_bind, hrun₁]

/-- Where the first part returns for certain. -/
theorem Ends.step {a : α} {s₁ : σ} (hm : m.run s = .ok a s₁) (hk : Ends (k a) s₁ C R) :
    Ends (m >>= k) s C R := by
  have hbind := (Ends.of_run (Q := fun a' s' => a' = a ∧ s' = s₁) hm ⟨rfl, rfl⟩).bind (k := k)
    (D := C) (R := R)
  refine (hbind ?_).congr (by rw [true_and])
  rintro _ _ ⟨rfl, rfl⟩
  exact hk

/-- A program behind a test. -/
theorem Ends.ite {c : Prop} {_ : Decidable c} {m' : EStateM ε σ α} (hm : c → Ends m s C Q)
    (hm' : ¬ c → Ends m' s C Q) : Ends (if c then m else m') s C Q := by
  split_ifs with h
  · exact hm h
  · exact hm' h

end CoapServer.Lib.Outcome
