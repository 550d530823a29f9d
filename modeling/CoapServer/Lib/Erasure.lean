import CoapServer.Lib.Frame

/-! # Programs with ghost state

A program over a state with more in it erases to a program over a part of it, if it does the same
there and ends in the same way: what it does to the rest can be read off without changing what is
read. -/

namespace CoapServer.Lib.Erasure

variable {ε σ τ γ α β : Type}

/-- The part `f` of the state a program ends in. -/
def mapState (f : σ → τ) : EStateM.Result ε σ α → EStateM.Result ε τ α
  | .ok a s => .ok a (f s)
  | .error e s => .error e (f s)

/-- **`m` does to the part `f` of the state what `m'` does.** -/
def Erases (f : σ → τ) (m : EStateM ε σ α) (m' : EStateM ε τ α) : Prop :=
  ∀ s, mapState f (m.run s) = m'.run (f s)

variable {f : σ → τ} {m : EStateM ε σ α} {m' : EStateM ε τ α} {k : α → EStateM ε σ β}
  {k' : α → EStateM ε τ β}

theorem Erases.pure (a : α) :
    Erases f (Pure.pure a : EStateM ε σ α) (Pure.pure a : EStateM ε τ α) := fun _ => rfl

theorem Erases.throw (e : ε) :
    Erases f (MonadExcept.throw e : EStateM ε σ α) (MonadExcept.throw e : EStateM ε τ α) :=
  fun _ => rfl

theorem Erases.bind (hm : Erases f m m') (hk : ∀ a, Erases f (k a) (k' a)) :
    Erases f (m >>= k) (m' >>= k') := by
  intro s
  have h := hm s
  rw [EStateM.run_bind, EStateM.run_bind, ← h]
  cases m.run s with
  | ok a s' => exact hk a s'
  | error e s' => rfl

/-- A program that leaves the part comes first. -/
theorem Erases.skip {a : α} {n : EStateM ε τ β} (hm : Erases f m (Pure.pure a))
    (hk : Erases f (k a) n) : Erases f (m >>= k) n := by
  intro s
  have h := hm s
  rw [EStateM.run_bind]
  cases hrun : m.run s with
  | ok b s' =>
    rw [hrun] at h
    obtain ⟨rfl, hs⟩ := EStateM.Result.ok.inj h
    rw [← hs]
    exact hk s'
  | error e s' =>
    rw [hrun] at h
    cases h

theorem Erases.ite {c : Prop} {_ : Decidable c} {n : EStateM ε σ α} {n' : EStateM ε τ α}
    (hm : Erases f m m') (hn : Erases f n n') :
    Erases f (if c then m else n) (if c then m' else n') := by
  split_ifs
  · exact hm
  · exact hn

/-! ### A ghost beside the state -/

/-- A program that leaves the ghost. -/
def beside (m : EStateM ε τ α) : EStateM ε (γ × τ) α := fun s =>
  match m.run s.2 with
  | .ok a t => .ok a (s.1, t)
  | .error e t => .error e (s.1, t)

theorem erases_beside (m : EStateM ε τ α) :
    Erases Prod.snd (beside m : EStateM ε (γ × τ) α) m := by
  rintro ⟨g, t⟩
  simp only [beside, EStateM.run]
  cases m t <;> rfl

theorem beside_run_ok {m : EStateM ε τ α} {a : α} {t t' : τ} (h : m.run t = .ok a t') (g : γ) :
    (beside m).run (g, t) = .ok a (g, t') := by
  simp only [beside, EStateM.run] at h ⊢
  rw [h]

theorem beside_run_error {m : EStateM ε τ α} {e : ε} {t t' : τ} (h : m.run t = .error e t') (g : γ) :
    (beside m).run (g, t) = .error e (g, t') := by
  simp only [beside, EStateM.run] at h ⊢
  rw [h]

theorem beside_bind (m : EStateM ε τ α) (k : α → EStateM ε τ β) :
    (beside (m >>= k) : EStateM ε (γ × τ) β) = beside m >>= fun a => beside (k a) := by
  funext s
  simp only [beside, EStateM.run, bind, EStateM.bind]
  cases m s.2 <;> rfl

theorem beside_ite {c : Prop} {_ : Decidable c} (m n : EStateM ε τ α) :
    (beside (if c then m else n) : EStateM ε (γ × τ) α) = if c then beside m else beside n := by
  split_ifs <;> rfl

/-- A change of the ghost. -/
def onGhost (g : γ → γ) : EStateM ε (γ × τ) Unit := modify fun s => (g s.1, s.2)

theorem erases_onGhost (g : γ → γ) :
    Erases Prod.snd (onGhost g : EStateM ε (γ × τ) Unit) (Pure.pure ⟨⟩) := fun _ => rfl

/-! ### A ghost with an invariant -/

/-- The state a program ends in, with a ghost. -/
def withGhost (g : γ) : EStateM.Result ε τ α → EStateM.Result ε (γ × τ) α
  | .ok a t => .ok a (g, t)
  | .error e t => .error e (g, t)

/-- **As long as the ghost satisfies `I`, `m` does what `m'` does**, and the ghost satisfies it still. -/
def ErasesOn (I : γ → Prop) (m : EStateM ε (γ × τ) α) (m' : EStateM ε τ α) : Prop :=
  ∀ g t, I g → ∃ g', I g' ∧ m.run (g, t) = withGhost g' (m'.run t)

section ErasesOn
variable {I : γ → Prop} {m : EStateM ε (γ × τ) α} {k : α → EStateM ε (γ × τ) β}

theorem ErasesOn.of_beside (m' : EStateM ε τ α) : ErasesOn I (beside m') m' := by
  intro g t hg
  refine ⟨g, hg, ?_⟩
  simp only [beside, EStateM.run, withGhost]

theorem ErasesOn.pure (a : α) :
    ErasesOn I (Pure.pure a : EStateM ε (γ × τ) α) (Pure.pure a : EStateM ε τ α) :=
  fun g _ hg => ⟨g, hg, rfl⟩

theorem ErasesOn.bind (hm : ErasesOn I m m') (hk : ∀ a, ErasesOn I (k a) (k' a)) :
    ErasesOn I (m >>= k) (m' >>= k') := by
  intro g t hg
  obtain ⟨g₁, hg₁, hrun₁⟩ := hm g t hg
  rw [EStateM.run_bind, EStateM.run_bind, hrun₁]
  cases m'.run t with
  | ok a t' => exact hk a g₁ t' hg₁
  | error e t' => exact ⟨g₁, hg₁, rfl⟩

theorem ErasesOn.ite {c : Prop} {_ : Decidable c} {n : EStateM ε (γ × τ) α} {n' : EStateM ε τ α}
    (hm : ErasesOn I m m') (hn : ErasesOn I n n') :
    ErasesOn I (if c then m else n) (if c then m' else n') := by
  split_ifs
  · exact hm
  · exact hn

end ErasesOn

end CoapServer.Lib.Erasure
