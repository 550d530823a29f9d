import Mathlib.Logic.Relation
import Mathlib.Data.Nat.Notation
import Mathlib.Tactic.Common

/-! # Locks and the threads that hold them

`Held holds lock` says that the threads which take themselves to hold a lock are the one that the lock
names, so there is at most one (`Held.unique`); to take a free lock and to release it keeps this.

Where every thread waits only for a lock of higher rank than those it holds, no chain of waiting
threads is endless: `ends_of_ranked` finds at its end a thread that can go on. -/

namespace CoapServer.Lib.Mutex

variable {τ : Type*}

/-- **The lock names its holder.** -/
def Held (holds : τ → Bool) (lock : Option τ) : Prop := ∀ t, holds t = true ↔ lock = some t

section Held
variable {holds holds' : τ → Bool} {lock : Option τ} {t t' : τ}

/-- **Mutual exclusion.** -/
theorem Held.unique (h : Held holds lock) (ht : holds t = true) (ht' : holds t' = true) : t = t' :=
  Option.some.inj (((h t).mp ht).symm.trans ((h t').mp ht'))

/-- A free lock is taken. -/
theorem Held.acquire (h : Held holds none) (ht : holds' t = true)
    (hother : ∀ u, u ≠ t → holds' u = holds u) : Held holds' (some t) := by
  intro u
  by_cases hu : u = t
  · subst hu
    simp [ht]
  · rw [hother u hu, h u]
    simp [Ne.symm hu]

/-- The holder releases the lock. -/
theorem Held.release (h : Held holds lock) (ht : holds t = true) (ht' : holds' t = false)
    (hother : ∀ u, u ≠ t → holds' u = holds u) : Held holds' none := by
  intro u
  simp only [reduceCtorEq, iff_false]
  intro hu
  by_cases hut : u = t
  · rw [hut, ht'] at hu
    cases hu
  · rw [hother u hut] at hu
    exact hut (h.unique hu ht)

/-- Nobody takes or releases it. -/
theorem Held.same (h : Held holds lock) (hall : ∀ u, holds' u = holds u) : Held holds' lock :=
  fun u => by rw [hall u, h u]

end Held

/-! ### Waiting -/

section Waiting
variable {ℓ : Type*} (waits : τ → Option ℓ) (holder : ℓ → Option τ)

/-- `t` waits for a lock that `t'` holds. -/
def WaitsFor (t t' : τ) : Prop := ∃ l, waits t = some l ∧ holder l = some t'

/-- The thread waits for no lock, or for a free one. -/
def Unblocked (t : τ) : Prop := ∀ l, waits t = some l → holder l = none

variable {waits holder} {rank : ℓ → ℕ} {bound : ℕ}

/-- **Ranked locks**: every chain of waiting threads ends at one that is not blocked. -/
theorem ends_of_ranked (hbound : ∀ l, rank l ≤ bound)
    (hrank : ∀ t l l', holder l = some t → waits t = some l' → rank l < rank l') (t : τ) :
    ∃ t', Relation.ReflTransGen (WaitsFor waits holder) t t' ∧ Unblocked waits holder t' := by
  have hchain : ∀ n t l, waits t = some l → bound < rank l + n →
      ∃ t', Relation.ReflTransGen (WaitsFor waits holder) t t' ∧ Unblocked waits holder t' := by
    intro n
    induction n with
    | zero =>
      intro t l _ hn
      have hle := hbound l
      omega
    | succ n ih =>
      intro t l hwaits hn
      cases hholder : holder l with
      | none =>
        refine ⟨t, .refl, fun l' hl' => ?_⟩
        obtain rfl := Option.some.inj (hwaits.symm.trans hl')
        exact hholder
      | some u =>
        -- the holder waits for a lock of higher rank, if for any
        cases hu : waits u with
        | none => exact ⟨u, .single ⟨l, hwaits, hholder⟩, by simp [Unblocked, hu]⟩
        | some l' =>
          have hlt := hrank u l l' hholder hu
          obtain ⟨t', hrun, hfree⟩ := ih u l' hu (by omega)
          exact ⟨t', .head ⟨l, hwaits, hholder⟩ hrun, hfree⟩
  cases hwaits : waits t with
  | none => exact ⟨t, .refl, by simp [Unblocked, hwaits]⟩
  | some l => exact hchain (bound + 1) t l hwaits (by omega)

end Waiting

end CoapServer.Lib.Mutex
