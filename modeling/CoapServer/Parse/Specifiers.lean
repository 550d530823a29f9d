import CoapServer.Parse.Replace

/-! # Numbers in templates

A specifier of a template is a dollar before a number, which names an argument. Its value is a number
without a bound (`Specifier`), while the server counts it in a `size_t`: what it sees is the value
modulo `2^64` (`numbered_error_iff`). A specifier that is out of range may therefore be taken for one
that is in range, and only then is a template accepted that is not in order
(`rejects_iff_unwrapped`). -/

namespace CoapServer.Parse.Specifiers

open CoapServer.Basic CoapServer.Lib.Template CoapServer.Parse.Replace

section Numbers
variable {ε : Type} (group : ℕ → Except ε Str) (improper : ε)

/-- The templates of the server, with numbers that are counted without a bound. -/
def unbounded : Reader Byte ε :=
  { numbered group improper with grow := fun k d => k * 10 + d }

/-- **A malformed specifier**, from the left: a dollar before neither a dollar nor a digit. -/
def Malformed (s : Str) : Prop := (unbounded (fun _ => .ok []) ()).Meets none s

/-- **A specifier of value `k`**, from the left: a dollar before as many digits as there are. -/
def Specifier (s : Str) (k : ℕ) : Prop := (unbounded (fun _ => .ok []) ()).Meets (some k) s

/-- Neither depends on what the numbers stand for. -/
theorem meets_unbounded {x : Option ℕ} {s : Str} : (unbounded group improper).Meets x s ↔
    (unbounded (fun _ => .ok []) ()).Meets x s := by
  have hsame : SameTemplates (unbounded (fun _ => .ok []) ()) (unbounded group improper) id :=
    ⟨rfl, rfl, rfl, fun _ _ => rfl⟩
  exact meets_congr hsame

/-- **The server counts modulo `2^64`.** -/
theorem same_numbered {ε' : Type} (group' : ℕ → Except ε' Str) (improper' : ε') :
    SameTemplates (unbounded group' improper') (numbered group improper) (· % sizeMod) where
  escape := rfl
  digit := rfl
  zero := rfl
  grow k d := by
    show (k * 10 + d) % sizeMod = (k % sizeMod * 10 + d) % sizeMod
    simp only [sizeMod]
    omega

/-- **When a scan of the server fails.** -/
theorem numbered_error_iff {s : Str} : (∃ e, (numbered group improper).scan .text s = .error e) ↔
    Malformed s ∨ ∃ k, Specifier s k ∧ ∃ e, group (k % sizeMod) = .error e := by
  have hsame := same_numbered group improper (fun _ => .ok []) ()
  rw [scan_error_iff]
  constructor
  · rintro (h | ⟨idx, e, h, he⟩)
    · obtain ⟨x, hx, hm⟩ := hsame.of_meets h
      obtain rfl := Option.map_eq_none_iff.mp hx
      exact Or.inl hm
    · obtain ⟨x, hx, hm⟩ := hsame.of_meets h
      obtain ⟨k, rfl, rfl⟩ := Option.map_eq_some_iff.mp hx
      exact Or.inr ⟨k, hm, e, he⟩
  · rintro (h | ⟨k, h, e, he⟩)
    · exact Or.inl (hsame.meets h)
    · exact Or.inr ⟨_, e, hsame.meets h, he⟩

end Numbers

/-! ### What is rejected -/

/-- The number of one of `n` arguments. -/
def InRange (n k : ℕ) : Prop := 1 ≤ k ∧ k ≤ n

/-- **A template to be rejected**, for `n` arguments. -/
def Rejectable (n : ℕ) (s : Str) : Prop := Malformed s ∨ ∃ k, Specifier s k ∧ ¬ InRange n k

/-- `_TemplateReplace` throws. -/
def Throws (s : Str) (inst : TemplateInstance) : Prop :=
  ∃ what, templateReplace s inst = .error (.runtimeError what)

/-- The text of a template, the numbers taken for what they are. -/
def exactReplace (s : Str) (inst : TemplateInstance) : Except Failure Str :=
  (unbounded (templateArg s inst) (improperTemplate s)).scan .text s

section Replace
variable {s : Str} {inst : TemplateInstance}

theorem templateArg_error_iff {idx : ℕ} : (∃ e, templateArg s inst idx = .error e) ↔
    ¬ InRange inst.templateArgs.length idx := by
  unfold templateArg InRange
  split_ifs with hgt hzero
  · exact iff_of_true ⟨_, rfl⟩ (by omega)
  · exact iff_of_true ⟨_, rfl⟩ (by omega)
  · exact iff_of_false (by simp) (by omega)

/-- All errors are exceptions. -/
theorem throws_iff_error : Throws s inst ↔ ∃ e, templateReplace s inst = .error e := by
  constructor
  · exact fun ⟨what, h⟩ => ⟨_, h⟩
  · rintro ⟨e, h⟩
    obtain ⟨what, rfl⟩ := templateReplace_error h
    exact ⟨what, h⟩

/-- **When `_TemplateReplace` throws.** -/
theorem throws_iff : Throws s inst ↔ Malformed s ∨
    ∃ k, Specifier s k ∧ ¬ InRange inst.templateArgs.length (k % sizeMod) := by
  rw [throws_iff_error, templateReplace_eq]
  refine (numbered_error_iff (templateArg s inst) (improperTemplate s)).trans ?_
  simp only [templateArg_error_iff]

/-- When the numbers are taken for what they are, exactly what is in order has a text. -/
theorem exactReplace_error_iff : (∃ e, exactReplace s inst = .error e) ↔
    Rejectable inst.templateArgs.length s := by
  rw [exactReplace, scan_error_iff, Rejectable]
  simp only [meets_unbounded]
  refine or_congr Iff.rfl (exists_congr fun k => ?_)
  rw [← templateArg_error_iff]
  exact exists_and_left

/-- A number of an argument is a `size_t`. -/
theorem mod_of_inRange {k : ℕ} (h : InRange inst.templateArgs.length k) : k % sizeMod = k :=
  Nat.mod_eq_of_lt (Nat.lt_of_le_of_lt h.2 inst.fits)

/-- A text by what the numbers are is the text of `_TemplateReplace`. -/
theorem replace_of_exact {out : Str} (h : exactReplace s inst = .ok out) :
    templateReplace s inst = .ok out := by
  rw [templateReplace_eq]
  have hsame := same_numbered (templateArg s inst) (improperTemplate s) (templateArg s inst)
    (improperTemplate s)
  refine scan_congr hsame (fun k g _ hg => ?_) h
  have hrange : InRange inst.templateArgs.length k := by
    by_contra hnot
    obtain ⟨e, he⟩ := templateArg_error_iff.mpr hnot
    have herror : templateArg s inst k = .ok g := hg
    rw [he] at herror
    cases herror
  show templateArg s inst (k % sizeMod) = .ok g
  rw [mod_of_inRange hrange]
  exact hg

end Replace

/-- **No specifier is taken for another one**: all values are in range, or the template is rejected
for one that is malformed, or out of range modulo `2^64`. -/
def Unwrapped (n : ℕ) (s : Str) : Prop :=
  (∀ k, Specifier s k → InRange n k) ∨ Malformed s ∨
    ∃ k, Specifier s k ∧ ¬ InRange n (k % sizeMod)

/-- **What is not in order is rejected**, and no number is taken for another one, exactly if none
wraps around into the range of the arguments. -/
theorem rejects_iff_unwrapped (s : Str) (inst : TemplateInstance) :
    ((Rejectable inst.templateArgs.length s → Throws s inst) ∧
      ∀ out, templateReplace s inst = .ok out → exactReplace s inst = .ok out) ↔
    Unwrapped inst.templateArgs.length s := by
  constructor
  · rintro ⟨hrejects, -⟩
    by_cases hall : ∀ k, Specifier s k → InRange inst.templateArgs.length k
    · exact Or.inl hall
    · refine Or.inr (throws_iff.mp (hrejects (Or.inr ?_)))
      simpa only [not_forall, exists_prop] using hall
  · intro h
    have hthrows : Rejectable inst.templateArgs.length s → Throws s inst := by
      intro hreject
      rcases h with hall | hbad
      · rcases hreject with hmal | ⟨k, hk, hrange⟩
        · exact throws_iff.mpr (Or.inl hmal)
        · exact absurd (hall k hk) hrange
      · exact throws_iff.mpr hbad
    refine ⟨hthrows, fun out hout => ?_⟩
    cases hexact : exactReplace s inst with
    | error e =>
      obtain ⟨what, hwhat⟩ := hthrows (exactReplace_error_iff.mp ⟨e, hexact⟩)
      rw [hwhat] at hout
      cases hout
    | ok out' =>
      have hout' := replace_of_exact hexact
      rw [hout'] at hout
      exact hout

/-- An instance with one argument. -/
def oneArgument : TemplateInstance := ⟨str "one", [str "a"], by decide⟩

/-- The specifier of `2^64 + 1` is replaced by the first argument. -/
theorem wrapped_specifier_accepted : ¬ ∀ (s : Str) (inst : TemplateInstance),
    Rejectable inst.templateArgs.length s → Throws s inst := by
  intro h
  have hdigits : [1, 8, 4, 4, 6, 7, 4, 4, 0, 7, 3, 7, 0, 9, 5, 5, 1, 6, 1, 7] ≠ [] := by simp
  have hnumber : Specifier (dollar :: (str "18446744073709551617" ++ [])) (sizeMod + 1) :=
    .number hdigits rfl (by simp)
  have hreject : Rejectable 1 (str "$18446744073709551617") :=
    Or.inr ⟨_, hnumber, fun hrange => absurd hrange.2 (by decide)⟩
  obtain ⟨what, hwhat⟩ := h _ oneArgument hreject
  rw [templateReplace_eq] at hwhat
  cases hwhat

end CoapServer.Parse.Specifiers
