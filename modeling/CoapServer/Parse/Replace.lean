import CoapServer.Basic
import CoapServer.Lib.Template
import Mathlib.Data.Nat.Digits.Defs

/-! # Template strings

`_TemplateReplace` puts the arguments of a template instance into a string. It reads the string by an
index, which it advances at an escape, in a number, at the end of a number and in the loop, as
`_regexReplace` does with the captures of a regular expression; `expandLoop_eq` says that all this is
the scan of a template, from the index on. A list of tokens that is written out is then rendered as
its text (`replace_round_trip`). -/

namespace CoapServer.Parse.Replace

open CoapServer.Basic CoapServer.Lib.Template

/-- **`TemplateInstance`.** The number of arguments is a `size_t`. -/
structure TemplateInstance where
  templateId : Str
  templateArgs : List Str
  fits : templateArgs.length < sizeMod

/-! ### Reading a string -/

/-- `in[i]`: the string is followed by a zero, and nothing behind that can be read. -/
def readAt (s : Str) (i : ℕ) : Except Failure Byte :=
  if i = s.length then .ok 0
  else match s[i]? with
    | some c => .ok c
    | none => .error (.outOfBounds i)

/-- What is read up to the end. -/
theorem readAt_spec {s : Str} {i : ℕ} (hi : i ≤ s.length) :
    (s.drop i = [] ∧ readAt s i = .ok 0) ∨ ∃ c, s.drop i = c :: s.drop (i + 1) ∧ readAt s i = .ok c := by
  unfold readAt
  rcases Nat.lt_or_eq_of_le hi with hlt | rfl
  · refine Or.inr ⟨s[i], List.drop_eq_getElem_cons hlt, ?_⟩
    rw [if_neg (by omega), List.getElem?_eq_getElem hlt]
  · exact Or.inl ⟨List.drop_length, if_pos rfl⟩

/-- A read up to the end does not fail. -/
theorem readAt_ne_error {s : Str} {i : ℕ} (hi : i ≤ s.length) (e : Failure) :
    readAt s i ≠ .error e := by
  rcases readAt_spec hi with ⟨-, hok⟩ | ⟨c, -, hok⟩
  all_goals
    rw [hok]
    rintro ⟨⟩

/-- What stands where a character was read. -/
theorem drop_of_readAt {s : Str} {i : ℕ} {c : Byte} (hi : i ≤ s.length) (h : readAt s i = .ok c) :
    s.drop i = [] ∧ c = 0 ∨ s.drop i = c :: s.drop (i + 1) := by
  rcases readAt_spec hi with ⟨hdrop, hok⟩ | ⟨c', hdrop, hok⟩
  · rw [h] at hok
    exact Or.inl ⟨hdrop, Except.ok.inj hok⟩
  · rw [h] at hok
    rw [Except.ok.inj hok]
    exact Or.inr hdrop

/-- A digit is read before the end only. -/
theorem lt_of_digit {s : Str} {i d : ℕ} {c : Byte} (h : readAt s i = .ok c)
    (hd : digit c = some d) : i < s.length := by
  unfold readAt at h
  split_ifs at h with hi
  · obtain rfl := Except.ok.inj h
    cases hd
  · cases hget : s[i]? with
    | some c' => exact (List.getElem?_eq_some_iff.mp hget).1
    | none =>
      rw [hget] at h
      cases h

/-- The inner loop, over the digits of a number: the number, and the index behind it. -/
def digitRun (s : Str) (i idx : ℕ) : Except Failure (ℕ × ℕ) :=
  match _hread : readAt s i with
  | .error e => .error e
  | .ok c =>
    match hd : digit c with
    | none => .ok (idx, i)
    | some d => digitRun s (i + 1) (growIndex idx d)
termination_by s.length - i
decreasing_by
  have := lt_of_digit _hread hd
  omega

/-- What the inner loop reads: the digits from the index on. -/
theorem digitRun_spec (s : Str) (i idx : ℕ) (hi : i ≤ s.length) :
    ∃ (cs : Str) (ds : List ℕ) (j : ℕ), digitRun s i idx = .ok (ds.foldl growIndex idx, j) ∧ j ≤ s.length ∧
      s.drop i = cs ++ s.drop j ∧ cs.map digit = ds.map some ∧
      ∀ c ∈ (s.drop j).head?, digit c = none := by
  fun_induction digitRun s i idx with
  | case1 i idx e hread => exact absurd hread (readAt_ne_error hi e)
  | case2 i idx c hread hd =>
    refine ⟨[], [], i, rfl, hi, rfl, rfl, fun c' hc' => ?_⟩
    rcases drop_of_readAt hi hread with ⟨hdrop, -⟩ | hdrop
    · rw [hdrop] at hc'
      cases hc'
    · rw [hdrop] at hc'
      obtain rfl := Option.some.inj hc'
      exact hd
  | case3 i idx c hread d hd ih =>
    have hlt : i < s.length := lt_of_digit hread hd
    obtain ⟨cs, ds, j, hrun, hj, hdrop', hds, hend⟩ := ih (by omega)
    refine ⟨c :: cs, d :: ds, j, hrun, hj, ?_, by rw [List.map_cons, List.map_cons, hd, hds], hend⟩
    rcases drop_of_readAt hi hread with ⟨hdrop, -⟩ | hdrop
    · have := List.drop_eq_nil_iff.mp hdrop
      omega
    · rw [hdrop, hdrop', List.cons_append]

theorem le_of_digitRun {s : Str} {i idx idx' j : ℕ} (h : digitRun s i idx = .ok (idx', j)) :
    i ≤ j := by
  fun_induction digitRun s i idx with
  | case1 => cases h
  | case2 i idx =>
    obtain ⟨-, rfl⟩ := Prod.mk.inj (Except.ok.inj h)
    exact Nat.le_refl _
  | case3 i idx c hread d hd ih =>
    have := ih h
    omega

/-! ### The loop -/

section Loop
variable {ε : Type} (group : ℕ → Except ε Str) (improper : ε)

/-- **The templates of the server**: a dollar before a number that is counted in a `size_t`. -/
def numbered : Reader Byte ε :=
  { escape := dollar, digit, digit_escape := digit_dollar, grow := growIndex, group, improper }

/-- **The loop over a template**, from the index `i` on, with what was put out so far. The text of a
number and what happens at an improper escape differ between `_TemplateReplace` and
`_regexReplace`. -/
def expandLoop (s : Str) (i : ℕ) (out : Str) : Except Failure (Except ε Str) :=
  if hi : i < s.length then
    if s[i] = dollar then
      match readAt s (i + 1) with
      | .error e => .error e
      | .ok c =>
        if c = dollar then expandLoop s (i + 2) (out ++ [c])
        else if (digit c).isSome then
          match hrun : digitRun s (i + 1) 0 with
          | .error e => .error e
          | .ok (idx, j) =>
            match group idx with
            | .error e => .ok (.error e)
            -- the index is moved back by one, and the loop moves it on again
            | .ok arg => expandLoop s j (out ++ arg)
        else .ok (.error improper)
    else expandLoop s (i + 1) (out ++ [s[i]])
  else .ok (.ok out)
termination_by s.length - i
decreasing_by
  · omega
  · have := le_of_digitRun hrun
    omega
  · omega

/-- The loop at a dollar before a number. -/
theorem expandLoop_number {s : Str} {i idx j : ℕ} {c : Byte} (out : Str) (hlt : i < s.length)
    (hdollar : s[i] = dollar) (hread : readAt s (i + 1) = .ok c) (hc : c ≠ dollar)
    (hd : (digit c).isSome) (hrun : digitRun s (i + 1) 0 = .ok (idx, j)) :
    expandLoop group improper s i out = (match group idx with
      | .error e => .ok (.error e)
      | .ok arg => expandLoop group improper s j (out ++ arg)) := by
  rw [expandLoop, dif_pos hlt, if_pos hdollar]
  simp only [hread, if_neg hc, if_pos hd]
  split
  · rename_i hrun'
    rw [hrun] at hrun'
    cases hrun'
  · rename_i hrun'
    rw [hrun] at hrun'
    obtain ⟨rfl, rfl⟩ := Prod.mk.inj (Except.ok.inj hrun')
    rfl

/-- The scan at a dollar before a number. -/
theorem scan_digitRun {s : Str} {i idx j : ℕ} {c : Byte} (hlt : i < s.length)
    (hdollar : s[i] = dollar) (hread : readAt s (i + 1) = .ok c) (hd : (digit c).isSome)
    (hrun : digitRun s (i + 1) 0 = .ok (idx, j)) :
    j ≤ s.length ∧ (numbered group improper).scan .text (s.drop i) =
      group idx >>= fun g => (g ++ ·) <$> (numbered group improper).scan .text (s.drop j) := by
  obtain ⟨cs, ds, j', hok, hj, hdrop, hds, hend⟩ := digitRun_spec s (i + 1) 0 hlt
  rw [hrun] at hok
  obtain ⟨rfl, rfl⟩ := Prod.mk.inj (Except.ok.inj hok)
  refine ⟨hj, ?_⟩
  have hne : ds ≠ [] := by
    rintro rfl
    obtain rfl : cs = [] := List.map_eq_nil_iff.mp hds
    rcases drop_of_readAt hlt hread with ⟨-, rfl⟩ | hdrop'
    · cases hd
    · rw [List.nil_append] at hdrop
      rw [hdrop] at hdrop'
      have hnone := hend c (by rw [hdrop']; rfl)
      rw [hnone] at hd
      cases hd
  rw [List.drop_eq_getElem_cons hlt, hdollar, hdrop]
  exact scan_number (numbered group improper) hne hds hend

/-- **The loop is the scan** of what is left of the string, and reads nothing behind its end. -/
theorem expandLoop_eq (s : Str) (i : ℕ) (out : Str) (hi : i ≤ s.length) :
    expandLoop group improper s i out =
      .ok ((out ++ ·) <$> (numbered group improper).scan .text (s.drop i)) := by
  fun_induction expandLoop group improper s i out with
  | case1 i out hlt hdollar e hread => exact absurd hread (readAt_ne_error hlt e)
  | case2 i out hlt hdollar hread ih =>
    rcases drop_of_readAt hlt hread with ⟨-, hzero⟩ | hdrop
    · cases hzero
    · have hlt' : i + 1 < s.length := by
        by_contra hge
        rw [List.drop_eq_nil_of_le (by omega)] at hdrop
        cases hdrop
      have hscan := scan_escape (numbered group improper) (s.drop (i + 2))
      rw [ih hlt', List.drop_eq_getElem_cons hlt, hdollar, hdrop]
      refine congrArg Except.ok (Eq.trans ?_ (congrArg ((out ++ ·) <$> ·) hscan.symm))
      rw [Functor.map_map]
      simp only [List.append_assoc, List.singleton_append]
      rfl
  | case3 i out hlt hdollar c hread hc hd e hrun =>
    obtain ⟨cs, ds, j, hok, -⟩ := digitRun_spec s (i + 1) 0 hlt
    rw [hok] at hrun
    cases hrun
  | case4 i out hlt hdollar c hread hc hd idx j hrun e hgroup =>
    obtain ⟨-, hscan⟩ := scan_digitRun group improper hlt hdollar hread hd hrun
    rw [hscan, hgroup]
    rfl
  | case5 i out hlt hdollar c hread hc hd idx j hrun arg hgroup ih =>
    obtain ⟨hj, hscan⟩ := scan_digitRun group improper hlt hdollar hread hd hrun
    rw [ih hj, hscan, hgroup]
    show _ = Except.ok ((out ++ ·) <$> (arg ++ ·) <$> (numbered group improper).scan .text (s.drop j))
    rw [Functor.map_map]
    simp only [List.append_assoc]
  | case6 i out hlt hdollar c hread hc hd =>
    have hend : ∀ c' ∈ (s.drop (i + 1)).head?, c' ≠ dollar ∧ digit c' = none := by
      intro c' hc'
      rcases drop_of_readAt hlt hread with ⟨hdrop, -⟩ | hdrop
      · rw [hdrop] at hc'
        cases hc'
      · rw [hdrop] at hc'
        obtain rfl := Option.some.inj hc'
        exact ⟨hc, by simpa using hd⟩
    rw [List.drop_eq_getElem_cons hlt, hdollar]
    have hscan := scan_improper (numbered group improper) hend
    exact congrArg (fun x => Except.ok ((out ++ ·) <$> x)) hscan.symm
  | case7 i out hlt hdollar ih =>
    rw [ih hlt, List.drop_eq_getElem_cons hlt,
      scan_letter (numbered group improper) (c := s[i]) hdollar, Functor.map_map]
    simp only [List.append_assoc, List.singleton_append]
  | case8 i out hge =>
    rw [List.drop_eq_nil_of_le (by omega), Reader.scan]
    exact congrArg (fun x => Except.ok (Except.ok x)) (List.append_nil out).symm

end Loop

/-! ### `_TemplateReplace` -/

/-- The argument of a number. -/
def templateArg (s : Str) (inst : TemplateInstance) (idx : ℕ) : Except Failure Str :=
  if inst.templateArgs.length < idx then
    .error (.runtimeError
      (str "ERROR: Template instance does not have enough arguments for template string: `" ++ s ++
        str "`!"))
  else if idx = 0 then
    .error (.runtimeError (str "ERROR: Template string argument specifier cannot be zero: `" ++ s ++
      str "`!"))
  else .ok (inst.templateArgs.getD (idx - 1) [])

/-- The error of a string with an escape before anything else. -/
def improperTemplate (s : Str) : Failure :=
  .runtimeError (str "ERROR: Improperly formatted template string: `" ++ s ++ str "`!")

/-- **The templates of `_TemplateReplace`.** -/
def template (s : Str) (inst : TemplateInstance) : Reader Byte Failure :=
  { escape := dollar
    digit
    digit_escape := digit_dollar
    grow := growIndex
    group := templateArg s inst
    improper := improperTemplate s }

/-- **The loop**, from the index `i` on, with what was put out so far. -/
def replaceLoop (s : Str) (inst : TemplateInstance) (i : ℕ) (out : Str) : Except Failure Str :=
  if hi : i < s.length then
    if s[i] = dollar then
      match readAt s (i + 1) with
      | .error e => .error e
      | .ok c =>
        if c = dollar then replaceLoop s inst (i + 2) (out ++ [c])
        else if (digit c).isSome then
          match hrun : digitRun s (i + 1) 0 with
          | .error e => .error e
          | .ok (idx, j) =>
            match templateArg s inst idx with
            | .error e => .error e
            -- the index is moved back by one, and the loop moves it on again
            | .ok arg => replaceLoop s inst j (out ++ arg)
        else .error (improperTemplate s)
    else replaceLoop s inst (i + 1) (out ++ [s[i]])
  else .ok out
termination_by s.length - i
decreasing_by
  · omega
  · have := le_of_digitRun hrun
    omega
  · omega

/-- **`_TemplateReplace`.** -/
def templateReplace (s : Str) (inst : TemplateInstance) : Except Failure Str :=
  replaceLoop s inst 0 []

/-- `_TemplateReplace` runs the loop over a template. -/
theorem replaceLoop_eq (s : Str) (inst : TemplateInstance) (i : ℕ) (out : Str) :
    replaceLoop s inst i out =
      expandLoop (templateArg s inst) (improperTemplate s) s i out >>= id := by
  fun_induction replaceLoop s inst i out with
  | case1 i out hlt hdollar e hread => exact absurd hread (readAt_ne_error hlt e)
  | case2 i out hlt hdollar hread ih =>
    rw [expandLoop, dif_pos hlt, if_pos hdollar]
    simp only [hread, if_true]
    exact ih
  | case3 i out hlt hdollar c hread hc hd e hrun =>
    obtain ⟨cs, ds, j, hok, -⟩ := digitRun_spec s (i + 1) 0 hlt
    rw [hok] at hrun
    cases hrun
  | case4 i out hlt hdollar c hread hc hd idx j hrun e harg =>
    rw [expandLoop_number _ _ _ hlt hdollar hread hc hd hrun, harg]
    rfl
  | case5 i out hlt hdollar c hread hc hd idx j hrun arg harg ih =>
    rw [expandLoop_number _ _ _ hlt hdollar hread hc hd hrun, harg]
    exact ih
  | case6 i out hlt hdollar c hread hc hd =>
    rw [expandLoop, dif_pos hlt, if_pos hdollar]
    simp only [hread, if_neg hc, if_neg hd]
    rfl
  | case7 i out hlt hdollar ih =>
    rw [expandLoop, dif_pos hlt, if_neg hdollar]
    exact ih
  | case8 i out hge =>
    rw [expandLoop, dif_neg hge]
    rfl

/-- **`_TemplateReplace` is the scan of a template.** -/
theorem templateReplace_eq (s : Str) (inst : TemplateInstance) :
    templateReplace s inst = (template s inst).scan .text s := by
  rw [templateReplace, replaceLoop_eq, expandLoop_eq _ _ _ _ _ (Nat.zero_le _), List.drop_zero]
  show ([] ++ ·) <$> (template s inst).scan .text s = _
  cases (template s inst).scan .text s <;> rfl

/-! ### Tokens -/

/-- A token of a template string: a literal text, or the number of an argument. -/
inductive Token where
  | literal (text : Str)
  | index (k : ℕ)

/-- The decimal digits of a number. -/
def decimal (k : ℕ) : Str := (Nat.digits 10 k).reverse.map fun d => UInt8.ofNat (0x30 + d)

/-- **How a token is written**: each escape of a literal twice, and an escape before a number. -/
def Token.written : Token → Str
  | .literal text => text.flatMap fun c => if c = dollar then [c, c] else [c]
  | .index k => dollar :: decimal k

/-- **What a token stands for.** -/
def Token.rendered (inst : TemplateInstance) : Token → Str
  | .literal text => text
  | .index k => inst.templateArgs.getD (k - 1) []

/-- A literal that starts with a digit. -/
def Token.StartsWithDigit : Token → Prop
  | .literal text => ∃ c ∈ text.head?, (digit c).isSome
  | .index _ => False

/-- **A well-formed list of tokens**, for `n` arguments. -/
def WellFormed (n : ℕ) : List Token → Prop
  | [] => True
  | .literal text :: ts => text ≠ [] ∧ WellFormed n ts
  | .index k :: ts => 1 ≤ k ∧ k ≤ n ∧ (∀ t ∈ ts.head?, ¬ t.StartsWithDigit) ∧ WellFormed n ts

/-- The pieces of a token. -/
def Token.pieces : Token → List (Piece Byte)
  | .literal text => text.map .letter
  | .index k => [.group k]

/-- The number of its digits is the number again. -/
theorem foldl_digits {k : ℕ} (hk : k < sizeMod) :
    (Nat.digits 10 k).reverse.foldl growIndex 0 = k := by
  have hmod : ∀ ds : List ℕ, ds.foldr (fun d idx => growIndex idx d) 0 =
      Nat.ofDigits 10 ds % sizeMod := by
    intro ds
    induction ds with
    | nil => rfl
    | cons d ds ih =>
      rw [List.foldr_cons, ih, Nat.ofDigits_cons]
      simp only [growIndex, sizeAdd, sizeMod]
      omega
  rw [List.foldl_reverse, hmod, Nat.ofDigits_digits, Nat.mod_eq_of_lt hk]

/-- The digits are read as such. -/
theorem map_digit_decimal (k : ℕ) :
    (decimal k).map digit = (Nat.digits 10 k).reverse.map some := by
  have hdigit : ∀ d < 10, digit (UInt8.ofNat (0x30 + d)) = some d := by decide
  rw [decimal, List.map_map]
  refine List.map_congr_left fun d hd => ?_
  exact hdigit d (Nat.digits_lt_base (by omega) (List.mem_reverse.mp hd))

section Spells
variable {s : Str} {inst : TemplateInstance}

/-- A literal is spelled letter by letter. -/
theorem spells_literal (text : Str) {ps : List (Piece Byte)} {t : Str}
    (h : (template s inst).Spells ps t) :
    (template s inst).Spells ((Token.literal text).pieces ++ ps)
      ((Token.literal text).written ++ t) := by
  induction text with
  | nil => exact h
  | cons c text ih =>
    simp only [Token.pieces, Token.written, List.map_cons, List.flatMap_cons, List.cons_append]
      at ih ⊢
    split_ifs with hc
    · obtain rfl := hc
      exact .escape ih
    · exact .letter hc ih

/-- What is written begins with a digit only where a literal does. -/
theorem head_written {n : ℕ} {ts : List Token} (h : WellFormed n ts)
    (hts : ∀ t ∈ ts.head?, ¬ t.StartsWithDigit) :
    ∀ c ∈ (ts.flatMap Token.written).head?, digit c = none := by
  intro c hc
  cases ts with
  | nil => cases hc
  | cons t ts =>
    have hdollar : digit dollar = none := by decide
    cases t with
    | index k =>
      obtain rfl := Option.some.inj hc
      exact hdollar
    | literal text =>
      obtain ⟨b, text, rfl⟩ := List.exists_cons_of_ne_nil h.1
      have hb : digit b = none := by
        by_contra hsome
        exact hts _ rfl ⟨b, rfl, Option.isSome_iff_ne_none.mpr hsome⟩
      rw [List.flatMap_cons, Token.written, List.flatMap_cons] at hc
      split_ifs at hc with hbd
      · obtain rfl := Option.some.inj hc
        exact hb
      · obtain rfl := Option.some.inj hc
        exact hb

/-- **A well-formed list of tokens is spelled by what is written.** -/
theorem spells_written {ts : List Token} (h : WellFormed inst.templateArgs.length ts) :
    (template s inst).Spells (ts.flatMap Token.pieces) (ts.flatMap Token.written) := by
  induction ts with
  | nil => exact .nil
  | cons t ts ih =>
    cases t with
    | literal text => exact spells_literal text (ih h.2)
    | index k =>
      obtain ⟨hpos, hle, hhead, hwf⟩ := h
      have hk : k < sizeMod := Nat.lt_of_le_of_lt hle inst.fits
      have hne : (Nat.digits 10 k).reverse ≠ [] := by
        rw [Ne, List.reverse_eq_nil_iff]
        exact Nat.digits_ne_nil_iff_ne_zero.mpr (by omega)
      have hspell := Reader.Spells.group (r := template s inst) hne (map_digit_decimal k)
        (head_written hwf hhead) (ih hwf)
      have hidx : (Nat.digits 10 k).reverse.foldl (template s inst).grow 0 = k := foldl_digits hk
      rw [hidx] at hspell
      exact hspell

/-- The text of a literal. -/
theorem expand_literal (text : Str) {ps : List (Piece Byte)} {out : Str}
    (h : (template s inst).expand ps = .ok out) :
    (template s inst).expand ((Token.literal text).pieces ++ ps) = .ok (text ++ out) := by
  induction text with
  | nil => exact h
  | cons c text ih =>
    show (template s inst).expand (.letter c :: ((Token.literal text).pieces ++ ps)) = _
    rw [expand_letter, ih]
    rfl

/-- **The text of a well-formed list of tokens.** -/
theorem expand_rendered {ts : List Token} (h : WellFormed inst.templateArgs.length ts) :
    (template s inst).expand (ts.flatMap Token.pieces) = .ok (ts.flatMap (Token.rendered inst)) := by
  induction ts with
  | nil => rfl
  | cons t ts ih =>
    cases t with
    | literal text => exact expand_literal text (ih h.2)
    | index k =>
      obtain ⟨hpos, hle, -, hwf⟩ := h
      have harg : templateArg s inst k = .ok (inst.templateArgs.getD (k - 1) []) := by
        rw [templateArg, if_neg (by omega), if_neg (by omega)]
      show (template s inst).expand (.group k :: ts.flatMap Token.pieces) = _
      rw [expand_group, ih hwf]
      show (templateArg s inst k >>= _) = _
      rw [harg]
      rfl

end Spells

/-- **What `_TemplateReplace` fails with** is an exception. -/
theorem templateReplace_error {s : Str} {inst : TemplateInstance} {e : Failure}
    (h : templateReplace s inst = .error e) : ∃ what, e = .runtimeError what := by
  have hgroup : ∀ idx e, templateArg s inst idx = .error e → ∃ what, e = .runtimeError what := by
    intro idx e harg
    unfold templateArg at harg
    split_ifs at harg
    all_goals
      obtain rfl := Except.error.inj harg
      exact ⟨_, rfl⟩
  rw [templateReplace_eq] at h
  exact scan_error (template s inst) (P := fun e => ∃ what, e = .runtimeError what) ⟨_, rfl⟩ hgroup h

/-- **The round trip**: a well-formed list of tokens that is written out is rendered as its text, and
no string makes `_TemplateReplace` read beyond its end. -/
theorem replace_round_trip (inst : TemplateInstance) :
    (∀ ts : List Token, WellFormed inst.templateArgs.length ts →
      templateReplace (ts.flatMap Token.written) inst = .ok (ts.flatMap (Token.rendered inst))) ∧
    ∀ s i, templateReplace s inst ≠ .error (.outOfBounds i) := by
  refine ⟨fun ts h => ?_, fun s i => ?_⟩
  · rw [templateReplace_eq, scan_spells _ (spells_written h), expand_rendered h]
  · intro herror
    obtain ⟨what, hwhat⟩ := templateReplace_error herror
    cases hwhat

/-- An instance with two arguments, of which one has an escape. -/
def pairInstance : TemplateInstance := ⟨str "pair", [str "$2", str "b"], by decide⟩

/-- The escape in the argument is not read again. -/
theorem replace_round_trip_val :
    templateReplace ([Token.literal (str "a$"), .index 1, .index 2, .literal (str "-")].flatMap
      Token.written) pairInstance = .ok (str "a$$2b-") := by
  have hminus : ¬ (Token.literal (str "-")).StartsWithDigit := by
    rintro ⟨c, hc, hd⟩
    obtain rfl : 0x2d = c := Option.some.inj hc
    cases hd
  have hindex : ¬ (Token.index 2).StartsWithDigit := id
  refine (replace_round_trip pairInstance).1 _ ⟨by decide, by decide, by decide, ?_, by decide,
    by decide, ?_, by decide, trivial⟩
  · rintro t ⟨⟩
    exact hindex
  · rintro t ⟨⟩
    exact hminus

example : (Token.index 12).written = str "$12" := by
  simp [Token.written, decimal, str]
  decide

end CoapServer.Parse.Replace
