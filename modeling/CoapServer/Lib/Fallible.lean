import Mathlib.Data.List.Forall2
import Mathlib.Tactic.Common

/-! # Computations that can fail

What is known of a computation in `Except` or `Option` from how it ends. -/

namespace CoapServer.Lib.Fallible

universe v

variable {ε : Type*} {α β : Type v}

theorem map_eq_ok {f : α → β} {x : Except ε α} {b : β} (h : f <$> x = .ok b) :
    ∃ a, x = .ok a ∧ f a = b := by
  cases x with
  | ok a => exact ⟨a, rfl, Except.ok.inj h⟩
  | error e => cases h

theorem map_eq_error {f : α → β} {x : Except ε α} {e : ε} (h : f <$> x = .error e) :
    x = .error e := by
  cases x with
  | ok a => cases h
  | error e' =>
    obtain rfl := Except.error.inj h
    rfl

theorem bind_eq_ok {f : α → Except ε β} {x : Except ε α} {b : β} (h : x >>= f = .ok b) :
    ∃ a, x = .ok a ∧ f a = .ok b := by
  cases x with
  | ok a => exact ⟨a, rfl, h⟩
  | error e => cases h

/-- **A traversal succeeds** where each step does, item by item. -/
theorem mapM_eq_ok_iff {f : α → Except ε β} {xs : List α} {ys : List β} :
    xs.mapM f = .ok ys ↔ List.Forall₂ (fun x y => f x = .ok y) xs ys := by
  induction xs generalizing ys with
  | nil =>
    rw [List.mapM_nil, List.forall₂_nil_left_iff]
    exact ⟨fun h => (Except.ok.inj h).symm, fun h => congrArg Except.ok h.symm⟩
  | cons x xs ih =>
    rw [List.mapM_cons]
    constructor
    · intro h
      obtain ⟨y, hy, h⟩ := bind_eq_ok h
      obtain ⟨ys', hys, h⟩ := bind_eq_ok h
      obtain rfl := Except.ok.inj h
      exact .cons hy (ih.mp hys)
    · rintro (_ | ⟨hy, hys⟩)
      rw [hy, ih.mpr hys]
      rfl

/-- It succeeds at all if each step does. -/
theorem mapM_isOk_iff {f : α → Except ε β} {xs : List α} :
    (∃ ys, xs.mapM f = .ok ys) ↔ ∀ x ∈ xs, ∃ y, f x = .ok y := by
  simp only [mapM_eq_ok_iff]
  constructor
  · rintro ⟨ys, h⟩
    exact List.Forall₂.rec (by simp) (fun hxy _ ih => List.forall_mem_cons.mpr ⟨⟨_, hxy⟩, ih⟩) h
  · intro h
    induction xs with
    | nil => exact ⟨[], .nil⟩
    | cons x xs ih =>
      obtain ⟨⟨y, hy⟩, hxs⟩ := List.forall_mem_cons.mp h
      obtain ⟨ys, hys⟩ := ih hxs
      exact ⟨y :: ys, .cons hy hys⟩

/-! ### Lists related item by item -/

section Related
variable {α β : Type*} {R S : α → β → Prop} {xs : List α} {ys : List β}

theorem exists_of_forall₂_left (h : List.Forall₂ R xs ys) {x : α} (hx : x ∈ xs) :
    ∃ y ∈ ys, R x y := by
  induction h with
  | nil => cases hx
  | cons hxy _ ih =>
    rcases List.mem_cons.mp hx with rfl | hx
    · exact ⟨_, List.mem_cons_self, hxy⟩
    · obtain ⟨y, hy, hR⟩ := ih hx
      exact ⟨y, List.mem_cons_of_mem _ hy, hR⟩

theorem exists_of_forall₂_right (h : List.Forall₂ R xs ys) {y : β} (hy : y ∈ ys) :
    ∃ x ∈ xs, R x y :=
  exists_of_forall₂_left h.flip hy

theorem forall₂_imp_mem (h : List.Forall₂ R xs ys) (himp : ∀ x ∈ xs, ∀ y, R x y → S x y) :
    List.Forall₂ S xs ys := by
  induction h with
  | nil => exact .nil
  | cons hxy _ ih =>
    exact .cons (himp _ List.mem_cons_self _ hxy)
      (ih fun x hx => himp x (List.mem_cons_of_mem _ hx))

/-- The items of the first list are only related to themselves. -/
theorem eq_of_forall₂ {R : α → α → Prop} {xs ys : List α} (h : List.Forall₂ R xs ys)
    (heq : ∀ x ∈ xs, ∀ y, R x y → y = x) : ys = xs := by
  induction h with
  | nil => rfl
  | cons hxy _ ih =>
    rw [heq _ List.mem_cons_self _ hxy, ih fun x hx => heq x (List.mem_cons_of_mem _ hx)]

end Related

/-- What is read of each element. -/
theorem mapM_map_eq_some {α β γ : Type*} {f : α → β} {g : β → Option γ} {h : α → γ} {as : List α}
    (hg : ∀ a ∈ as, g (f a) = some (h a)) : (as.map f).mapM g = some (as.map h) := by
  induction as with
  | nil => rfl
  | cons a as ih =>
    have has := ih fun a' ha' => hg a' (List.mem_cons_of_mem a ha')
    rw [List.map_cons, List.mapM_cons, hg a List.mem_cons_self, has]
    rfl

end CoapServer.Lib.Fallible
