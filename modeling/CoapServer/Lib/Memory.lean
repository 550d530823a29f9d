import Mathlib.Logic.Function.Basic
import Mathlib.Data.Nat.Notation
import Mathlib.Tactic.Common

/-! # Objects on a heap and their owners

`new` makes an object at an address that was never used, `delete` ends its life; an access to an
address without an object is a fault, and so is to delete one twice. Pointers are held by owners:
`Owns own h` says that each pointer that is held leads to an object, that no two owners hold the same
one, and that each object has an owner. What the owners see of their objects (`view`) then changes at
one owner only, for each way in which a heap changes. -/

namespace CoapServer.Lib.Memory

variable {α κ : Type*} [DecidableEq κ]

/-- **A heap**: the objects by their addresses, and the address that comes next. -/
structure Heap (α : Type*) where
  cells : ℕ → Option α
  fresh : ℕ

/-- An access to an address without an object. -/
inductive Fault where
  | dangling (a : ℕ)
  | notAllocated (a : ℕ)
  deriving DecidableEq

/-- The heap without objects. -/
def Heap.empty : Heap α := { cells := fun _ => none, fresh := 0 }

/-- `new`: the heap with an object more, which is at `fresh`. -/
def Heap.new (h : Heap α) (x : α) : Heap α :=
  { cells := Function.update h.cells h.fresh (some x), fresh := h.fresh + 1 }

def Heap.read (h : Heap α) (a : ℕ) : Except Fault α :=
  match h.cells a with
  | some x => .ok x
  | none => .error (.dangling a)

/-- The heap with another object at `a`. -/
def Heap.put (h : Heap α) (a : ℕ) (x : α) : Heap α :=
  { h with cells := Function.update h.cells a (some x) }

def Heap.write (h : Heap α) (a : ℕ) (x : α) : Except Fault (Heap α) :=
  if (h.cells a).isSome then .ok (h.put a x) else .error (.dangling a)

/-- The heap without the object at `a`. -/
def Heap.drop (h : Heap α) (a : ℕ) : Heap α := { h with cells := Function.update h.cells a none }

/-- `delete`. -/
def Heap.delete (h : Heap α) (a : ℕ) : Except Fault (Heap α) :=
  if (h.cells a).isSome then .ok (h.drop a) else .error (.notAllocated a)

/-- **The objects are owned**: the pointers that `own` gives lead to objects, each to its own, and all
objects are reached. -/
structure Owns (own : κ → Option ℕ) (h : Heap α) : Prop where
  live : ∀ k a, own k = some a → (h.cells a).isSome
  single : ∀ k k' a, own k = some a → own k' = some a → k = k'
  owned : ∀ a, (h.cells a).isSome → ∃ k, own k = some a
  bounded : ∀ a, (h.cells a).isSome → a < h.fresh

/-- **What the owners see.** -/
def view (own : κ → Option ℕ) (h : Heap α) (k : κ) : Option α := (own k).bind h.cells

omit [DecidableEq κ] in
theorem owns_empty : Owns (fun _ : κ => none) (Heap.empty : Heap α) :=
  ⟨by simp, by simp, by simp [Heap.empty], by simp [Heap.empty]⟩

section Owns
variable {own : κ → Option ℕ} {h : Heap α} {k : κ} {a : ℕ} {x : α}

omit [DecidableEq κ] in
/-- An object that is owned can be read. -/
theorem Owns.read (ho : Owns own h) (hk : own k = some a) :
    ∃ x, h.read a = .ok x ∧ view own h k = some x := by
  obtain ⟨x, hx⟩ := Option.isSome_iff_exists.mp (ho.live k a hk)
  exact ⟨x, by rw [Heap.read, hx], by rw [view, hk, Option.bind_some, hx]⟩

omit [DecidableEq κ] in
theorem Owns.write_eq (ho : Owns own h) (hk : own k = some a) (x : α) :
    h.write a x = .ok (h.put a x) := by
  rw [Heap.write, if_pos (ho.live k a hk)]

omit [DecidableEq κ] in
theorem Owns.delete_eq (ho : Owns own h) (hk : own k = some a) : h.delete a = .ok (h.drop a) := by
  rw [Heap.delete, if_pos (ho.live k a hk)]

omit [DecidableEq κ] in
/-- Other owners hold other pointers. -/
theorem Owns.ne (ho : Owns own h) (hk : own k = some a) {k' : κ} (hne : k' ≠ k) {a' : ℕ}
    (hk' : own k' = some a') : a' ≠ a := by
  rintro rfl
  exact hne (ho.single k' k a' hk' hk)

omit [DecidableEq κ] in
/-- A new object is at an address that is not held. -/
theorem Owns.ne_fresh (ho : Owns own h) (hk : own k = some a) : a ≠ h.fresh :=
  Nat.ne_of_lt (ho.bounded a (ho.live k a hk))

/-- **A new object** for an owner that has none. -/
theorem Owns.new (ho : Owns own h) (hk : own k = none) (x : α) :
    Owns (Function.update own k (some h.fresh)) (h.new x) ∧
    view (Function.update own k (some h.fresh)) (h.new x) =
      Function.update (view own h) k (some x) := by
  have hcells : ∀ k' a, own k' = some a → (h.new x).cells a = h.cells a := fun k' a hk' =>
    Function.update_of_ne (ho.ne_fresh hk') _ _
  refine ⟨⟨fun k' a ha => ?_, fun k₁ k₂ a h₁ h₂ => ?_, fun a ha => ?_, fun a ha => ?_⟩, ?_⟩
  · by_cases hkk : k' = k
    · subst hkk
      rw [Function.update_self] at ha
      obtain rfl := Option.some.inj ha
      simp [Heap.new]
    · rw [Function.update_of_ne hkk] at ha
      rw [hcells k' a ha]
      exact ho.live k' a ha
  · by_cases hk₁ : k₁ = k
    · by_cases hk₂ : k₂ = k
      · exact hk₁.trans hk₂.symm
      · subst hk₁
        rw [Function.update_self] at h₁
        rw [Function.update_of_ne hk₂] at h₂
        exact absurd (Option.some.inj h₁).symm (ho.ne_fresh h₂)
    · rw [Function.update_of_ne hk₁] at h₁
      by_cases hk₂ : k₂ = k
      · subst hk₂
        rw [Function.update_self] at h₂
        exact absurd (Option.some.inj h₂).symm (ho.ne_fresh h₁)
      · rw [Function.update_of_ne hk₂] at h₂
        exact ho.single k₁ k₂ a h₁ h₂
  · by_cases hfresh : a = h.fresh
    · exact ⟨k, by rw [Function.update_self, hfresh]⟩
    · simp only [Heap.new, Function.update_of_ne hfresh] at ha
      obtain ⟨k', hk'⟩ := ho.owned a ha
      have hne : k' ≠ k := by
        rintro rfl
        rw [hk] at hk'
        cases hk'
      exact ⟨k', by rw [Function.update_of_ne hne, hk']⟩
  · by_cases hfresh : a = h.fresh
    · rw [hfresh]
      exact Nat.lt_succ_self _
    · simp only [Heap.new, Function.update_of_ne hfresh] at ha
      exact Nat.lt_succ_of_lt (ho.bounded a ha)
  · funext k'
    by_cases hkk : k' = k
    · subst hkk
      simp [view, Heap.new]
    · rw [view, Function.update_of_ne hkk, Function.update_of_ne hkk, view]
      cases hk' : own k' with
      | none => rfl
      | some a =>
        simp only [Option.bind_some]
        exact hcells k' a hk'

/-- **An object changes.** -/
theorem Owns.put (ho : Owns own h) (hk : own k = some a) (x : α) :
    Owns own (h.put a x) ∧ view own (h.put a x) = Function.update (view own h) k (some x) := by
  have hlive : ∀ a', ((h.put a x).cells a').isSome ↔ (h.cells a').isSome := by
    intro a'
    by_cases ha : a' = a
    · subst ha
      simp [Heap.put, ho.live k a' hk]
    · simp only [Heap.put, Function.update_of_ne ha]
  refine ⟨⟨fun k' a' ha => (hlive a').mpr (ho.live k' a' ha), ho.single,
    fun a' ha => ho.owned a' ((hlive a').mp ha), fun a' ha => ho.bounded a' ((hlive a').mp ha)⟩, ?_⟩
  funext k'
  by_cases hkk : k' = k
  · subst hkk
    simp [view, hk, Heap.put]
  · rw [view, Function.update_of_ne hkk, view]
    cases hk' : own k' with
    | none => rfl
    | some a' =>
      simp only [Option.bind_some]
      exact Function.update_of_ne (ho.ne hk hkk hk') _ _

/-- **An object is deleted**, and its pointer forgotten. -/
theorem Owns.drop (ho : Owns own h) (hk : own k = some a) :
    Owns (Function.update own k none) (h.drop a) ∧
    view (Function.update own k none) (h.drop a) = Function.update (view own h) k none := by
  have hheld : ∀ k' a', Function.update own k none k' = some a' → k' ≠ k ∧ own k' = some a' := by
    intro k' a' ha
    by_cases hkk : k' = k
    · subst hkk
      rw [Function.update_self] at ha
      cases ha
    · rw [Function.update_of_ne hkk] at ha
      exact ⟨hkk, ha⟩
  have hcells : ∀ k' a', k' ≠ k → own k' = some a' → (h.drop a).cells a' = h.cells a' :=
    fun k' a' hne hk' => Function.update_of_ne (ho.ne hk hne hk') _ _
  have hlive : ∀ a', ((h.drop a).cells a').isSome → a' ≠ a ∧ (h.cells a').isSome := by
    intro a' ha
    by_cases haa : a' = a
    · subst haa
      simp [Heap.drop] at ha
    · simp only [Heap.drop, Function.update_of_ne haa] at ha
      exact ⟨haa, ha⟩
  refine ⟨⟨fun k' a' ha => ?_, fun k₁ k₂ a' h₁ h₂ => ?_, fun a' ha => ?_, fun a' ha => ?_⟩, ?_⟩
  · obtain ⟨hne, hk'⟩ := hheld k' a' ha
    rw [hcells k' a' hne hk']
    exact ho.live k' a' hk'
  · exact ho.single k₁ k₂ a' (hheld k₁ a' h₁).2 (hheld k₂ a' h₂).2
  · obtain ⟨hne, hsome⟩ := hlive a' ha
    obtain ⟨k', hk'⟩ := ho.owned a' hsome
    have hkk : k' ≠ k := by
      rintro rfl
      rw [hk] at hk'
      exact hne (Option.some.inj hk').symm
    exact ⟨k', by rw [Function.update_of_ne hkk, hk']⟩
  · exact ho.bounded a' (hlive a' ha).2
  · funext k'
    by_cases hkk : k' = k
    · subst hkk
      simp [view]
    · rw [view, Function.update_of_ne hkk, Function.update_of_ne hkk, view]
      cases hk' : own k' with
      | none => rfl
      | some a' =>
        simp only [Option.bind_some]
        exact hcells k' a' hkk hk'

end Owns

end CoapServer.Lib.Memory
