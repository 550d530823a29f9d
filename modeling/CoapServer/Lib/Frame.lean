import Mathlib.Tactic.Common

/-! # What a program keeps and yields

A program over a state keeps a view of the state if the view is the same wherever the program
returns, yields what every value it returns satisfies, preserves what holds of the state it leaves
if it held of the one it began in, and does what relates the two. Another relation says where a
program ends that may also throw. The rules follow how the program is built. -/

namespace CoapServer.Lib.Frame

variable {ε σ α β γ : Type}

/-- **`m` keeps the view `f`.** -/
def Keeps (f : σ → γ) (m : EStateM ε σ α) : Prop :=
  ∀ s a s', m.run s = .ok a s' → f s' = f s

variable {f : σ → γ} {m : EStateM ε σ α} {k : α → EStateM ε σ β}

theorem Keeps.pure (a : α) : Keeps f (Pure.pure a : EStateM ε σ α) := by
  rintro s _ _ ⟨⟩
  rfl

theorem Keeps.throw (e : ε) : Keeps f (MonadExcept.throw e : EStateM ε σ α) := by
  rintro s _ _ ⟨⟩

theorem Keeps.get : Keeps f (MonadState.get : EStateM ε σ σ) := by
  rintro s _ _ ⟨⟩
  rfl

theorem Keeps.modify {g : σ → σ} (h : ∀ s, f (g s) = f s) :
    Keeps f (modifyGet fun s => (PUnit.unit, g s) : EStateM ε σ PUnit) := by
  rintro s _ _ ⟨⟩
  exact h s

/-- A run of two programs in a row, where the first returns. -/
theorem run_bind_eq {s s₁ : σ} {a : α} (h : m.run s = .ok a s₁) :
    (m >>= k).run s = (k a).run s₁ := by
  rw [EStateM.run_bind, h]

/-- A run of two programs in a row, taken apart. -/
theorem run_bind_ok {s s' : σ} {b : β} (h : (m >>= k).run s = .ok b s') :
    ∃ a s₁, m.run s = .ok a s₁ ∧ (k a).run s₁ = .ok b s' := by
  rw [EStateM.run_bind] at h
  cases hm : m.run s with
  | ok a s₁ =>
    rw [hm] at h
    exact ⟨a, s₁, rfl, h⟩
  | error e s₁ =>
    rw [hm] at h
    cases h

theorem Keeps.bind (hm : Keeps f m) (hk : ∀ a, Keeps f (k a)) : Keeps f (m >>= k) := by
  intro s b s' h
  obtain ⟨a, s₁, h₁, h₂⟩ := run_bind_ok h
  exact (hk a _ _ _ h₂).trans (hm _ _ _ h₁)

theorem Keeps.ite {c : Prop} {_ : Decidable c} {m' : EStateM ε σ α} (hm : Keeps f m)
    (hm' : Keeps f m') : Keeps f (if c then m else m') := by
  split_ifs
  · exact hm
  · exact hm'

/-! ### What a program yields -/

/-- **What `m` returns satisfies `P`.** -/
def Yields (P : α → Prop) (m : EStateM ε σ α) : Prop :=
  ∀ s a s', m.run s = .ok a s' → P a

variable {P : α → Prop} {Q : β → Prop}

theorem Yields.pure {a : α} (h : P a) : Yields P (Pure.pure a : EStateM ε σ α) := by
  rintro s _ _ ⟨⟩
  exact h

theorem Yields.throw (e : ε) : Yields P (MonadExcept.throw e : EStateM ε σ α) := by
  rintro s _ _ ⟨⟩

theorem Yields.bind (hm : Yields P m) (hk : ∀ a, P a → Yields Q (k a)) : Yields Q (m >>= k) := by
  intro s b s' h
  obtain ⟨a, s₁, h₁, h₂⟩ := run_bind_ok h
  exact hk a (hm _ _ _ h₁) _ _ _ h₂

/-- Where nothing is known of the first value. -/
theorem Yields.bind_any (hk : ∀ a, Yields Q (k a)) : Yields Q (m >>= k) :=
  Yields.bind (P := fun _ => True) (fun _ _ _ _ => trivial) fun a _ => hk a

theorem Yields.ite {c : Prop} {_ : Decidable c} {m' : EStateM ε σ α} (hm : Yields P m)
    (hm' : Yields P m') : Yields P (if c then m else m') := by
  split_ifs
  · exact hm
  · exact hm'

/-! ### What a program preserves -/

/-- **`m` preserves `I`** where it returns. -/
def Preserves (I : σ → Prop) (m : EStateM ε σ α) : Prop :=
  ∀ s a s', m.run s = .ok a s' → I s → I s'

variable {I : σ → Prop}

/-- What is kept can be read off a view. -/
theorem Keeps.preserves (hm : Keeps f m) (J : γ → Prop) : Preserves (fun s => J (f s)) m := by
  intro s a s' h hJ
  rw [hm s a s' h]
  exact hJ

theorem Preserves.pure (a : α) : Preserves I (Pure.pure a : EStateM ε σ α) := by
  rintro s _ _ ⟨⟩ h
  exact h

theorem Preserves.throw (e : ε) : Preserves I (MonadExcept.throw e : EStateM ε σ α) := by
  rintro s _ _ ⟨⟩

theorem Preserves.get : Preserves I (MonadState.get : EStateM ε σ σ) := by
  rintro s _ _ ⟨⟩ h
  exact h

theorem Preserves.bind (hm : Preserves I m) (hk : ∀ a, Preserves I (k a)) :
    Preserves I (m >>= k) := by
  intro s b s' h hI
  obtain ⟨a, s₁, h₁, h₂⟩ := run_bind_ok h
  exact hk a _ _ _ h₂ (hm _ _ _ h₁ hI)

theorem Preserves.ite {c : Prop} {_ : Decidable c} {m' : EStateM ε σ α} (hm : Preserves I m)
    (hm' : Preserves I m') : Preserves I (if c then m else m') := by
  split_ifs
  · exact hm
  · exact hm'

/-! ### What a program does -/

/-- **`m` does `R`**: wherever it returns, it has gone from a state to one related to it. -/
def Does (R : σ → σ → Prop) (m : EStateM ε σ α) : Prop :=
  ∀ s a s', m.run s = .ok a s' → R s s'

section Does
variable {R : σ → σ → Prop}

theorem Does.pure (hrefl : ∀ s, R s s) (a : α) : Does R (Pure.pure a : EStateM ε σ α) := by
  rintro s _ _ ⟨⟩
  exact hrefl s

theorem Does.throw (e : ε) : Does R (MonadExcept.throw e : EStateM ε σ α) := by
  rintro s _ _ ⟨⟩

theorem Does.get (hrefl : ∀ s, R s s) : Does R (MonadState.get : EStateM ε σ σ) := by
  rintro s _ _ ⟨⟩
  exact hrefl s

theorem Does.modify {g : σ → σ} (h : ∀ s, R s (g s)) :
    Does R (modifyGet fun s => (PUnit.unit, g s) : EStateM ε σ PUnit) := by
  rintro s _ _ ⟨⟩
  exact h s

theorem Does.bind (htrans : ∀ {a b c}, R a b → R b c → R a c) (hm : Does R m)
    (hk : ∀ a, Does R (k a)) : Does R (m >>= k) := by
  intro s b s' h
  obtain ⟨a, s₁, h₁, h₂⟩ := run_bind_ok h
  exact htrans (hm _ _ _ h₁) (hk a _ _ _ h₂)

theorem Does.ite {c : Prop} {_ : Decidable c} {m' : EStateM ε σ α} (hm : Does R m)
    (hm' : Does R m') : Does R (if c then m else m') := by
  split_ifs
  · exact hm
  · exact hm'

end Does

/-! ### Where a program ends -/

/-- The state a program ends in, whether it returns or throws. -/
def final : EStateM.Result ε σ α → σ
  | .ok _ s => s
  | .error _ s => s

/-- **`m` ends in a state related to the one it starts in.** -/
def Moves (R : σ → σ → Prop) (m : EStateM ε σ α) : Prop := ∀ s, R s (final (m.run s))

section Moves
variable {R : σ → σ → Prop}

theorem Moves.pure (hrefl : ∀ s, R s s) (a : α) : Moves R (Pure.pure a : EStateM ε σ α) := hrefl

theorem Moves.throw (hrefl : ∀ s, R s s) (e : ε) :
    Moves R (MonadExcept.throw e : EStateM ε σ α) := hrefl

theorem Moves.get (hrefl : ∀ s, R s s) : Moves R (MonadState.get : EStateM ε σ σ) := hrefl

theorem Moves.modify {g : σ → σ} (h : ∀ s, R s (g s)) :
    Moves R (modifyGet fun s => (PUnit.unit, g s) : EStateM ε σ PUnit) := h

theorem Moves.bind (htrans : ∀ {a b c}, R a b → R b c → R a c) (hm : Moves R m)
    (hk : ∀ a, Moves R (k a)) : Moves R (m >>= k) := by
  intro s
  have h := hm s
  rw [EStateM.run_bind]
  cases hrun : m.run s with
  | ok a s' =>
    rw [hrun] at h
    exact htrans h (hk a s')
  | error e s' =>
    rw [hrun] at h
    exact h

theorem Moves.ite {c : Prop} {_ : Decidable c} {m' : EStateM ε σ α} (hm : Moves R m)
    (hm' : Moves R m') : Moves R (if c then m else m') := by
  split_ifs
  · exact hm
  · exact hm'

end Moves

end CoapServer.Lib.Frame
