import CoapServer.Parse.Specifiers

/-! # Substitution of captures

`_regexReplace` puts what a regular expression captured into the name and the file paths of a dynamic
configuration. Where the template is improper, or refers to a group that the expression does not
have, it writes an error and returns the empty string. Its loop is the scan of the template
(`regexLoop_eq`), as that of `_TemplateReplace` is; the two differ in the numbers they let through
(`engines_agree_iff`). -/

namespace CoapServer.Server.Substitute

open CoapServer.Basic CoapServer.Lib.Template CoapServer.Parse.Replace CoapServer.Parse.Specifiers

/-- `sm[idx]`. The index one past the last group is let through; it has no text. -/
def captured (input : Str) (sm : List Str) (idx : ℕ) : Except Str Str :=
  if sm.length < idx then
    .error (str "ERROR: Insufficient regex matches for template string: " ++ input)
  else .ok (sm.getD idx [])

/-- The templates of `_regexReplace`. -/
def captures (input : Str) (sm : List Str) : Reader Byte Str :=
  { escape := dollar
    digit
    digit_escape := digit_dollar
    grow := growIndex
    group := captured input sm
    improper := str "ERROR: Improperly formatted template string: `" ++ input ++ str "`!" }

/-- The loop of `_regexReplace`. -/
def regexLoop (input : Str) (sm : List Str) : Except Failure (Except Str Str) :=
  expandLoop (captured input sm)
    (str "ERROR: Improperly formatted template string: `" ++ input ++ str "`!") input 0 []

/-- The line `_regexReplace` writes, or the text it returns. -/
def substitute (input : Str) (sm : List Str) : Except Str Str := (captures input sm).scan .text input

/-- **`_regexReplace`.** -/
def regexReplace (input : Str) (sm : List Str) : Str :=
  match substitute input sm with
  | .ok out => out
  | .error _ => []

/-- What `_regexReplace` writes to `std::cerr`. -/
def regexReplaceErr (input : Str) (sm : List Str) : List Str :=
  match substitute input sm with
  | .ok _ => []
  | .error line => [line]

/-- **The loop of `_regexReplace` is the scan of the template**, and ends. -/
theorem regexLoop_eq (input : Str) (sm : List Str) :
    regexLoop input sm = .ok (substitute input sm) := by
  rw [regexLoop, expandLoop_eq _ _ _ _ _ (Nat.zero_le _), List.drop_zero]
  show Except.ok (([] ++ ·) <$> substitute input sm) = _
  cases substitute input sm <;> rfl

/-- **`out` is the template with the captures put in.** -/
def Filled (input : Str) (sm : List Str) (out : Str) : Prop :=
  ∃ ps, (captures input sm).Spells ps input ∧ (captures input sm).expand ps = .ok out

theorem substitute_eq_ok_iff {input : Str} {sm : List Str} {out : Str} :
    substitute input sm = .ok out ↔ Filled input sm out := scan_eq_ok_iff _

/-- A template is filled in one way only. -/
theorem Filled.unique {input : Str} {sm : List Str} {out out' : Str} (h : Filled input sm out)
    (h' : Filled input sm out') : out = out' :=
  Except.ok.inj ((substitute_eq_ok_iff.mpr h).symm.trans (substitute_eq_ok_iff.mpr h'))

/-- **What is substituted** is the filled template. -/
theorem regexReplace_eq {input : Str} {sm : List Str} {out : Str} (h : Filled input sm out) :
    regexReplace input sm = out := by
  rw [regexReplace, substitute_eq_ok_iff.mpr h]

/-- Where something is substituted, it is the filled template. -/
theorem filled_of_ne_nil {input : Str} {sm : List Str} (h : regexReplace input sm ≠ []) :
    Filled input sm (regexReplace input sm) := by
  unfold regexReplace at h ⊢
  cases hsub : substitute input sm with
  | ok out => exact substitute_eq_ok_iff.mp hsub
  | error line =>
    rw [hsub] at h
    exact absurd rfl h

example : regexReplace (str "dynamic/$1/value-$2.log") [str "dyn/a/val7", str "a", str "7"] =
    str "dynamic/a/value-7.log" := by decide

/-- The first group after the last is empty, the next an error. -/
example : regexReplace (str "$$$2") [str "x", str "y"] = str "$" := by decide

example : regexReplace (str "$$$3") [str "x", str "y"] = [] := by decide

/-! ### The two engines -/

section Engines
variable {input : Str} {inst : TemplateInstance} {whole : Str}

theorem captured_error_iff {sm : List Str} {idx : ℕ} :
    (∃ e, captured input sm idx = .error e) ↔ sm.length < idx := by
  unfold captured
  split_ifs with hlt
  · exact iff_of_true ⟨_, rfl⟩ hlt
  · exact iff_of_false (by simp) hlt

/-- **When `_regexReplace` takes an error return.** -/
theorem substitute_error_iff {sm : List Str} : (∃ e, substitute input sm = .error e) ↔
    Malformed input ∨ ∃ k, Specifier input k ∧ sm.length < k % sizeMod := by
  refine (numbered_error_iff (captured input sm)
    (str "ERROR: Improperly formatted template string: `" ++ input ++ str "`!")).trans ?_
  simp only [captured_error_iff]

/-- An argument is the capture of its number. -/
theorem captured_of_templateArg {idx : ℕ} {arg : Str} (h : templateArg input inst idx = .ok arg) :
    captured input (whole :: inst.templateArgs) idx = .ok arg := by
  unfold templateArg at h
  split_ifs at h with hgt hzero
  obtain ⟨j, rfl⟩ := Nat.exists_eq_succ_of_ne_zero hzero
  have hle : ¬ (whole :: inst.templateArgs).length < j + 1 := by
    rw [List.length_cons]
    omega
  have harg : inst.templateArgs.getD j [] = arg := Except.ok.inj h
  rw [captured, if_neg hle, List.getD_cons_succ, harg]

/-- A text of `_TemplateReplace` is one of `_regexReplace`. -/
theorem substitute_of_replace {out : Str} (h : templateReplace input inst = .ok out) :
    substitute input (whole :: inst.templateArgs) = .ok out := by
  rw [templateReplace_eq] at h
  have hsame : SameTemplates (template input inst) (captures input (whole :: inst.templateArgs)) id :=
    ⟨rfl, rfl, rfl, fun _ _ => rfl⟩
  exact scan_congr hsame (fun idx g _ hg => captured_of_templateArg hg) h

end Engines

/-- **The engines agree**: `_regexReplace` returns what `_TemplateReplace` does, and takes an error
return where that throws. -/
def Agree (input : Str) (inst : TemplateInstance) (whole : Str) : Prop :=
  (∀ out, templateReplace input inst = .ok out →
    regexLoop input (whole :: inst.templateArgs) = .ok (.ok out)) ∧
  (Throws input inst → ∃ line, regexLoop input (whole :: inst.templateArgs) = .ok (.error line))

/-- **No number at the boundary**: none is that of the whole match or one past the last group, modulo
`2^64`, unless the template is malformed or has a number that is further out. -/
def OffBoundary (n : ℕ) (input : Str) : Prop :=
  (∀ k, Specifier input k → k % sizeMod ≠ 0 ∧ k % sizeMod ≠ n + 1) ∨ Malformed input ∨
    ∃ k, Specifier input k ∧ n + 1 < k % sizeMod

/-- **The engines agree exactly off the boundary.** -/
theorem engines_agree_iff (input : Str) (inst : TemplateInstance) (whole : Str) :
    Agree input inst whole ↔ OffBoundary inst.templateArgs.length input := by
  have herror : (∃ line, regexLoop input (whole :: inst.templateArgs) = .ok (.error line)) ↔
      Malformed input ∨ ∃ k, Specifier input k ∧ inst.templateArgs.length + 1 < k % sizeMod := by
    simp only [regexLoop_eq, Except.ok.injEq]
    exact substitute_error_iff
  constructor
  · rintro ⟨-, hthrows⟩
    by_cases hoff : ∀ k, Specifier input k →
        k % sizeMod ≠ 0 ∧ k % sizeMod ≠ inst.templateArgs.length + 1
    · exact Or.inl hoff
    · refine Or.inr (herror.mp (hthrows (throws_iff.mpr (Or.inr ?_))))
      simp only [not_forall] at hoff
      obtain ⟨k, hk, hboundary⟩ := hoff
      exact ⟨k, hk, fun hrange => hboundary ⟨by have := hrange.1; omega, by have := hrange.2; omega⟩⟩
  · intro h
    refine ⟨fun out hout => by rw [regexLoop_eq, substitute_of_replace hout], fun hthrows => ?_⟩
    rw [herror]
    rcases h with hoff | hfar
    · refine (throws_iff.mp hthrows).imp id ?_
      rintro ⟨k, hk, hrange⟩
      obtain ⟨hne, hne'⟩ := hoff k hk
      refine ⟨k, hk, ?_⟩
      unfold InRange at hrange
      omega
    · exact hfar

/-- The number one past the last group: an error of `_TemplateReplace`, and nothing for
`_regexReplace`. -/
theorem engines_differ : ¬ ∀ (input : Str) (inst : TemplateInstance) (whole : Str),
    (∀ k, Specifier input k → k ≠ 0) → Agree input inst whole := by
  intro h
  have htwo : ∀ k, Specifier (str "$2") k → k ≠ 0 := by
    rintro k hk rfl
    -- a reader for which zero is an error has none here
    have hmeets := (meets_unbounded (fun k => if k = 0 then .error () else .ok []) ()).mpr hk
    obtain ⟨e, he⟩ := (scan_error_iff _).mpr (Or.inr ⟨0, (), hmeets, rfl⟩)
    cases he
  obtain ⟨what, hwhat⟩ : Throws (str "$2") oneArgument := ⟨_, by rw [templateReplace_eq]; rfl⟩
  obtain ⟨line, hline⟩ := (h (str "$2") oneArgument (str "x") htwo).2 ⟨what, hwhat⟩
  rw [regexLoop_eq] at hline
  cases hline

end CoapServer.Server.Substitute
