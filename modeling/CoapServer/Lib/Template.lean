import CoapServer.Lib.Fallible
import Mathlib.Data.Nat.Notation
import Mathlib.Data.List.Basic

/-! # Templates with numbered groups

In a template an escape before a number stands for the group of that number, two escapes for one,
and every other letter for itself; an escape before anything else is improper. `scan` reads a
template letter by letter. What a template means is given by its pieces: `Spells ps t` says that `t`
is a spelling of the pieces `ps`, and `expand` is their text. `scan_eq_ok_iff` says that the scan
succeeds exactly on the spellings of pieces whose groups are all there, with their text, and
`scan_error_iff` that it fails exactly where it `Meets` an improper escape or a group that is not
there. -/

namespace CoapServer.Lib.Template

open CoapServer.Lib.Fallible

/-- **How templates are read**: the escape, the digits and how a number grows by one, the text of the
group of a number, and the error of an improper template. -/
structure Reader (β ε : Type*) where
  escape : β
  digit : β → Option ℕ
  digit_escape : digit escape = none
  grow : ℕ → ℕ → ℕ
  group : ℕ → Except ε (List β)
  improper : ε

/-- Where the scan is: at a letter, after an escape, in a number. -/
inductive Mode where
  | text
  | escaped
  | index (idx : ℕ)

variable {β ε : Type*} [DecidableEq β] (r : Reader β ε)

/-- **The scan of a template.** -/
def Reader.scan : Mode → List β → Except ε (List β)
  | .text, [] => .ok []
  | .text, c :: cs => if c = r.escape then scan .escaped cs else (c :: ·) <$> scan .text cs
  | .escaped, [] => .error r.improper
  | .escaped, c :: cs =>
    if c = r.escape then (c :: ·) <$> scan .text cs
    else match r.digit c with
      | some d => scan (.index (r.grow 0 d)) cs
      | none => .error r.improper
  | .index idx, [] => r.group idx
  | .index idx, c :: cs =>
    match r.digit c with
    | some d => scan (.index (r.grow idx d)) cs
    | none =>
      r.group idx >>= fun g => (g ++ ·) <$>
        if c = r.escape then scan .escaped cs else (c :: ·) <$> scan .text cs

/-! ### Pieces -/

/-- A piece of a template. -/
inductive Piece (β : Type*) where
  | letter (c : β)
  | group (idx : ℕ)

/-- **The pieces a template spells.** A number ends where no digit follows. -/
inductive Reader.Spells : List (Piece β) → List β → Prop
  | nil : Spells [] []
  | letter {c : β} {ps : List (Piece β)} {t : List β} (hc : c ≠ r.escape) (h : Spells ps t) :
      Spells (.letter c :: ps) (c :: t)
  | escape {ps : List (Piece β)} {t : List β} (h : Spells ps t) :
      Spells (.letter r.escape :: ps) (r.escape :: r.escape :: t)
  | group {ps : List (Piece β)} {t cs : List β} {ds : List ℕ} (hne : ds ≠ [])
      (hds : cs.map r.digit = ds.map some) (hend : ∀ c ∈ t.head?, r.digit c = none)
      (h : Spells ps t) : Spells (.group (ds.foldl r.grow 0) :: ps) (r.escape :: (cs ++ t))

/-- The text of a piece. -/
def Reader.text : Piece β → Except ε (List β)
  | .letter c => .ok [c]
  | .group idx => r.group idx

/-- **The text of pieces.** -/
def Reader.expand : List (Piece β) → Except ε (List β)
  | [] => .ok []
  | p :: ps => r.text p >>= fun x => (x ++ ·) <$> Reader.expand ps

omit [DecidableEq β] in
theorem expand_letter (c : β) (ps : List (Piece β)) :
    r.expand (.letter c :: ps) = (c :: ·) <$> r.expand ps := rfl

omit [DecidableEq β] in
theorem expand_group (idx : ℕ) (ps : List (Piece β)) :
    r.expand (.group idx :: ps) = r.group idx >>= fun g => (g ++ ·) <$> r.expand ps := rfl

/-! ### The scan -/

/-- At the end of a number the scan goes on as at a letter. -/
theorem scan_index_end (idx : ℕ) {t : List β} (hend : ∀ c ∈ t.head?, r.digit c = none) :
    r.scan (.index idx) t = r.group idx >>= fun g => (g ++ ·) <$> r.scan .text t := by
  cases t with
  | nil =>
    simp only [Reader.scan]
    cases r.group idx with
    | ok g => simp [bind, Except.bind, Functor.map, Except.map]
    | error e => rfl
  | cons c cs =>
    have hc : r.digit c = none := hend c (by simp)
    simp only [Reader.scan, hc]

/-- The scan reads a number to its end. -/
theorem scan_index_digits {cs : List β} {ds : List ℕ} (hds : cs.map r.digit = ds.map some)
    (idx : ℕ) (t : List β) :
    r.scan (.index idx) (cs ++ t) = r.scan (.index (ds.foldl r.grow idx)) t := by
  induction ds generalizing cs idx with
  | nil =>
    obtain rfl : cs = [] := List.map_eq_nil_iff.mp hds
    rfl
  | cons d ds ih =>
    obtain ⟨c, cs, rfl, hc, htail⟩ := List.map_eq_cons_iff.mp hds
    simp only [List.cons_append, Reader.scan, hc, List.foldl_cons]
    exact ih htail _

/-- A scan of a letter. -/
theorem scan_letter {c : β} (hc : c ≠ r.escape) (t : List β) :
    r.scan .text (c :: t) = (c :: ·) <$> r.scan .text t := by
  rw [Reader.scan, if_neg hc]

theorem scan_escape (t : List β) :
    r.scan .text (r.escape :: r.escape :: t) = (r.escape :: ·) <$> r.scan .text t := by
  rw [Reader.scan, if_pos rfl, Reader.scan, if_pos rfl]

theorem scan_improper {t : List β} (hend : ∀ c ∈ t.head?, c ≠ r.escape ∧ r.digit c = none) :
    r.scan .text (r.escape :: t) = .error r.improper := by
  rw [Reader.scan, if_pos rfl]
  cases t with
  | nil => rfl
  | cons c t =>
    obtain ⟨hc, hd⟩ := hend c rfl
    rw [Reader.scan, if_neg hc]
    simp only [hd]

/-- The scan of a number, and of what follows it. -/
theorem scan_number {cs t : List β} {ds : List ℕ} (hne : ds ≠ [])
    (hds : cs.map r.digit = ds.map some) (hend : ∀ c ∈ t.head?, r.digit c = none) :
    r.scan .text (r.escape :: (cs ++ t)) =
      r.group (ds.foldl r.grow 0) >>= fun g => (g ++ ·) <$> r.scan .text t := by
  obtain ⟨d, ds, rfl⟩ := List.exists_cons_of_ne_nil hne
  obtain ⟨c, cs, rfl, hc, htail⟩ := List.map_eq_cons_iff.mp hds
  have hce : c ≠ r.escape := by
    rintro rfl
    rw [r.digit_escape] at hc
    cases hc
  rw [Reader.scan, if_pos rfl, List.cons_append, Reader.scan, if_neg hce]
  simp only [hc]
  rw [scan_index_digits r htail, scan_index_end r _ hend, List.foldl_cons]

/-- **The scan of a spelling** is the text of its pieces. -/
theorem scan_spells {ps : List (Piece β)} {t : List β} (h : r.Spells ps t) :
    r.scan .text t = r.expand ps := by
  induction h with
  | nil => rfl
  | letter hc _ ih => rw [scan_letter r hc, ih, expand_letter]
  | escape _ ih => rw [scan_escape, ih, expand_letter]
  | group hne hds hend _ ih => rw [scan_number r hne hds hend, ih, expand_group]

/-- The scan of a template without an escape. -/
theorem scan_plain {t : List β} (h : r.escape ∉ t) : r.scan .text t = .ok t := by
  induction t with
  | nil => rfl
  | cons c cs ih =>
    have hc : c ≠ r.escape := by
      rintro rfl
      exact h List.mem_cons_self
    rw [Reader.scan, if_neg hc, ih fun hmem => h (List.mem_cons_of_mem _ hmem)]
    rfl

omit [DecidableEq β] in
/-- The digits a text begins with. -/
theorem digits_of_text (t : List β) : ∃ (cs u : List β) (ds : List ℕ), t = cs ++ u ∧
    cs.map r.digit = ds.map some ∧ ∀ c ∈ u.head?, r.digit c = none := by
  induction t with
  | nil => exact ⟨[], [], [], rfl, rfl, by simp⟩
  | cons c t ih =>
    cases hd : r.digit c with
    | none => exact ⟨[], c :: t, [], rfl, rfl, by simpa using hd⟩
    | some d =>
      obtain ⟨cs, u, ds, rfl, hds, hend⟩ := ih
      exact ⟨c :: cs, u, d :: ds, rfl, by rw [List.map_cons, List.map_cons, hd, hds], hend⟩

/-- **Templates are read in pieces**: nothing, a letter, two escapes, a number or an improper
escape. -/
theorem template_induction {P : List β → Prop} (nil : P [])
    (letter : ∀ c t, c ≠ r.escape → P t → P (c :: t))
    (escape : ∀ t, P t → P (r.escape :: r.escape :: t))
    (number : ∀ cs ds t, ds ≠ [] → cs.map r.digit = ds.map some →
      (∀ c ∈ t.head?, r.digit c = none) → P t → P (r.escape :: (cs ++ t)))
    (improper : ∀ t, (∀ c ∈ t.head?, c ≠ r.escape ∧ r.digit c = none) → P (r.escape :: t))
    (t : List β) : P t := by
  induction hn : t.length using Nat.strongRecOn generalizing t with
  | ind n ih =>
    subst hn
    cases t with
    | nil => exact nil
    | cons c t =>
      by_cases hc : c = r.escape
      · obtain rfl := hc
        obtain ⟨cs, u, ds, rfl, hds, hend⟩ := digits_of_text r t
        by_cases hne : ds = []
        · obtain rfl := hne
          obtain rfl : cs = [] := List.map_eq_nil_iff.mp hds
          cases u with
          | nil => exact improper [] (by simp)
          | cons c u =>
            by_cases hc : c = r.escape
            · obtain rfl := hc
              have hlt : u.length < (r.escape :: ([] ++ r.escape :: u)).length := by
                simp only [List.length_cons, List.nil_append]
                omega
              exact escape u (ih u.length hlt u rfl)
            · refine improper _ fun c' hc' => ⟨?_, hend c' hc'⟩
              obtain rfl := Option.some.inj hc'
              exact hc
        · have hlt : u.length < (r.escape :: (cs ++ u)).length := by
            simp only [List.length_cons, List.length_append]
            omega
          exact number cs ds u hne hds hend (ih u.length hlt u rfl)
      · exact letter c t hc (ih t.length (by simp) t rfl)

/-- The scan succeeds only on spellings. -/
theorem spells_of_scan {t out : List β} (h : r.scan .text t = .ok out) :
    ∃ ps, r.Spells ps t ∧ r.expand ps = .ok out := by
  induction t using template_induction r generalizing out with
  | nil => exact ⟨[], .nil, h⟩
  | letter c t hc ih =>
    rw [scan_letter r hc] at h
    obtain ⟨out', hout, rfl⟩ := map_eq_ok h
    obtain ⟨ps, hps, hexp⟩ := ih hout
    exact ⟨_, .letter hc hps, by rw [expand_letter, hexp]; rfl⟩
  | escape t ih =>
    rw [scan_escape] at h
    obtain ⟨out', hout, rfl⟩ := map_eq_ok h
    obtain ⟨ps, hps, hexp⟩ := ih hout
    exact ⟨_, .escape hps, by rw [expand_letter, hexp]; rfl⟩
  | number cs ds t hne hds hend ih =>
    rw [scan_number r hne hds hend] at h
    obtain ⟨g, hg, h⟩ := bind_eq_ok h
    obtain ⟨out', hout, rfl⟩ := map_eq_ok h
    obtain ⟨ps, hps, hexp⟩ := ih hout
    exact ⟨_, .group hne hds hend hps, by rw [expand_group, hg, hexp]; rfl⟩
  | improper t hend =>
    rw [scan_improper r hend] at h
    cases h

/-- **What a scan fails with** is the error of an improper template, or of a group. -/
theorem scan_error {P : ε → Prop} (himproper : P r.improper)
    (hgroup : ∀ idx e, r.group idx = .error e → P e) {t : List β} {e : ε}
    (h : r.scan .text t = .error e) : P e := by
  induction t using template_induction r with
  | nil => cases h
  | letter c t hc ih =>
    rw [scan_letter r hc] at h
    exact ih (map_eq_error h)
  | escape t ih =>
    rw [scan_escape] at h
    exact ih (map_eq_error h)
  | number cs ds t hne hds hend ih =>
    rw [scan_number r hne hds hend] at h
    cases hg : r.group (ds.foldl r.grow 0) with
    | error e' =>
      rw [hg] at h
      obtain rfl := Except.error.inj h
      exact hgroup _ e' hg
    | ok g =>
      rw [hg] at h
      exact ih (map_eq_error h)
  | improper t hend =>
    rw [scan_improper r hend] at h
    obtain rfl := Except.error.inj h
    exact himproper

/-- **When a scan succeeds**, and with what. -/
theorem scan_eq_ok_iff {t out : List β} :
    r.scan .text t = .ok out ↔ ∃ ps, r.Spells ps t ∧ r.expand ps = .ok out := by
  constructor
  · exact spells_of_scan r
  · rintro ⟨ps, hps, hexp⟩
    rw [scan_spells r hps, hexp]

/-! ### What a scan meets -/

/-- **What a scan meets** on its way from the left: a number, or an escape that is improper. A number
is as long as there are digits. -/
inductive Reader.Meets : Option ℕ → List β → Prop
  | improper {u : List β} (hend : ∀ c ∈ u.head?, c ≠ r.escape ∧ r.digit c = none) :
      Meets none (r.escape :: u)
  | number {u cs : List β} {ds : List ℕ} (hne : ds ≠ []) (hds : cs.map r.digit = ds.map some)
      (hend : ∀ c ∈ u.head?, r.digit c = none) :
      Meets (some (ds.foldl r.grow 0)) (r.escape :: (cs ++ u))
  | letter {x : Option ℕ} {c : β} {t : List β} (hc : c ≠ r.escape) (h : Meets x t) :
      Meets x (c :: t)
  | escape {x : Option ℕ} {t : List β} (h : Meets x t) : Meets x (r.escape :: r.escape :: t)
  | group {x : Option ℕ} {t cs : List β} {ds : List ℕ} (hne : ds ≠ [])
      (hds : cs.map r.digit = ds.map some) (hend : ∀ c ∈ t.head?, r.digit c = none)
      (h : Meets x t) : Meets x (r.escape :: (cs ++ t))

/-! ### When a scan fails -/

/-- A scan fails at what it meets. -/
theorem scan_of_meets {x : Option ℕ} {t : List β} (h : r.Meets x t)
    (hx : ∀ idx, x = some idx → ∃ e, r.group idx = .error e) : ∃ e, r.scan .text t = .error e := by
  induction h with
  | improper hend => exact ⟨_, scan_improper r hend⟩
  | number hne hds hend =>
    obtain ⟨e, he⟩ := hx _ rfl
    exact ⟨e, by rw [scan_number r hne hds hend, he]; rfl⟩
  | letter hc _ ih =>
    obtain ⟨e, he⟩ := ih hx
    exact ⟨e, by rw [scan_letter r hc, he]; rfl⟩
  | escape _ ih =>
    obtain ⟨e, he⟩ := ih hx
    exact ⟨e, by rw [scan_escape, he]; rfl⟩
  | group hne hds hend _ ih =>
    obtain ⟨e, he⟩ := ih hx
    rw [scan_number r hne hds hend]
    cases hg : r.group _ with
    | error e' => exact ⟨e', rfl⟩
    | ok g => exact ⟨e, by rw [he]; rfl⟩

/-- **When a scan fails**: it meets an improper escape, or a number whose group has no text. -/
theorem scan_error_iff {t : List β} : (∃ e, r.scan .text t = .error e) ↔
    r.Meets none t ∨ ∃ idx e, r.Meets (some idx) t ∧ r.group idx = .error e := by
  constructor
  · rintro ⟨e, h⟩
    induction t using template_induction r generalizing e with
    | nil => cases h
    | letter c t hc ih =>
      rw [scan_letter r hc] at h
      refine (ih e (map_eq_error h)).imp (.letter hc) ?_
      exact fun ⟨idx, e, hm, he⟩ => ⟨idx, e, .letter hc hm, he⟩
    | escape t ih =>
      rw [scan_escape] at h
      refine (ih e (map_eq_error h)).imp .escape ?_
      exact fun ⟨idx, e, hm, he⟩ => ⟨idx, e, .escape hm, he⟩
    | number cs ds t hne hds hend ih =>
      rw [scan_number r hne hds hend] at h
      cases hg : r.group (ds.foldl r.grow 0) with
      | error e' => exact Or.inr ⟨_, e', .number hne hds hend, hg⟩
      | ok g =>
        rw [hg] at h
        refine (ih e (map_eq_error h)).imp (.group hne hds hend) ?_
        exact fun ⟨idx, e, hm, he⟩ => ⟨idx, e, .group hne hds hend hm, he⟩
    | improper t hend => exact Or.inl (.improper hend)
  · rintro (h | ⟨idx, e, h, he⟩)
    · exact scan_of_meets r h (by simp)
    · exact scan_of_meets r h fun idx' hidx' => ⟨e, by rw [← Option.some.inj hidx', he]⟩

/-! ### Readers that differ in their groups -/

/-- **Two readers of the same templates**: one counts by `φ` what the other counts. -/
structure SameTemplates {ε' : Type*} (r : Reader β ε) (r' : Reader β ε') (φ : ℕ → ℕ) : Prop where
  escape : r'.escape = r.escape
  digit : r'.digit = r.digit
  zero : φ 0 = 0
  grow : ∀ k d, φ (r.grow k d) = r'.grow (φ k) d

section SameTemplates
variable {ε' : Type*} {r : Reader β ε} {r' : Reader β ε'} {φ : ℕ → ℕ} (h : SameTemplates r r' φ)
include h

omit [DecidableEq β] in
theorem SameTemplates.foldl (ds : List ℕ) (k : ℕ) :
    φ (ds.foldl r.grow k) = ds.foldl r'.grow (φ k) := by
  induction ds generalizing k with
  | nil => rfl
  | cons d ds ih => rw [List.foldl_cons, List.foldl_cons, ih, h.grow]

omit [DecidableEq β] in
/-- What one scan meets, the other meets. -/
theorem SameTemplates.meets {x : Option ℕ} {t : List β} (hm : r.Meets x t) :
    r'.Meets (x.map φ) t := by
  have hfold : ∀ ds : List ℕ, φ (ds.foldl r.grow 0) = ds.foldl r'.grow 0 := fun ds => by
    rw [h.foldl, h.zero]
  induction hm with
  | improper hend =>
    rw [← h.escape]
    exact .improper (by rw [h.escape, h.digit]; exact hend)
  | number hne hds hend =>
    rw [← h.escape, Option.map_some, hfold]
    exact .number hne (by rw [h.digit]; exact hds) (by rw [h.digit]; exact hend)
  | letter hc _ ih => exact .letter (by rw [h.escape]; exact hc) ih
  | escape _ ih =>
    rw [← h.escape]
    exact .escape ih
  | group hne hds hend _ ih =>
    rw [← h.escape]
    exact .group hne (by rw [h.digit]; exact hds) (by rw [h.digit]; exact hend) ih

omit [DecidableEq β] in
theorem SameTemplates.of_meets {y : Option ℕ} {t : List β} (hm : r'.Meets y t) :
    ∃ x, x.map φ = y ∧ r.Meets x t := by
  have hfold : ∀ ds : List ℕ, φ (ds.foldl r.grow 0) = ds.foldl r'.grow 0 := fun ds => by
    rw [h.foldl, h.zero]
  induction hm with
  | improper hend =>
    refine ⟨none, rfl, ?_⟩
    rw [h.escape]
    exact .improper (by rw [← h.escape, ← h.digit]; exact hend)
  | @number u cs ds hne hds hend =>
    refine ⟨_, by rw [Option.map_some, hfold], ?_⟩
    rw [h.escape]
    exact .number hne (by rw [← h.digit]; exact hds) (by rw [← h.digit]; exact hend)
  | letter hc _ ih =>
    obtain ⟨x, hx, hm⟩ := ih
    exact ⟨x, hx, .letter (by rw [← h.escape]; exact hc) hm⟩
  | escape _ ih =>
    obtain ⟨x, hx, hm⟩ := ih
    rw [h.escape]
    exact ⟨x, hx, .escape hm⟩
  | group hne hds hend _ ih =>
    obtain ⟨x, hx, hm⟩ := ih
    rw [h.escape]
    exact ⟨x, hx, .group hne (by rw [← h.digit]; exact hds) (by rw [← h.digit]; exact hend) hm⟩

end SameTemplates

omit [DecidableEq β] in
/-- Readers that count alike meet the same. -/
theorem meets_congr {ε' : Type*} {r : Reader β ε} {r' : Reader β ε'} (h : SameTemplates r r' id)
    {x : Option ℕ} {t : List β} : r'.Meets x t ↔ r.Meets x t := by
  constructor
  · intro hm
    obtain ⟨y, rfl, hy⟩ := h.of_meets hm
    rwa [Option.map_id]
  · intro hm
    have hm' := h.meets hm
    rwa [Option.map_id] at hm'

/-- **A scan depends on the groups it meets only.** -/
theorem scan_congr {ε' : Type*} {r : Reader β ε} {r' : Reader β ε'} {φ : ℕ → ℕ}
    (h : SameTemplates r r' φ) {t : List β}
    (hgroup : ∀ idx g, r.Meets (some idx) t → r.group idx = .ok g → r'.group (φ idx) = .ok g)
    {out : List β} (hscan : r.scan .text t = .ok out) : r'.scan .text t = .ok out := by
  have hdigit : r'.digit = r.digit := h.digit
  induction t using template_induction r generalizing out with
  | nil =>
    obtain rfl := Except.ok.inj hscan
    rfl
  | letter c t hc ih =>
    rw [scan_letter r hc] at hscan
    obtain ⟨out', hout, rfl⟩ := map_eq_ok hscan
    have ih := ih (fun idx g hm => hgroup idx g (.letter hc hm)) hout
    rw [scan_letter r' (by rw [h.escape]; exact hc), ih]
    rfl
  | escape t ih =>
    rw [scan_escape] at hscan
    obtain ⟨out', hout, rfl⟩ := map_eq_ok hscan
    have ih := ih (fun idx g hm => hgroup idx g (.escape hm)) hout
    rw [← h.escape, scan_escape, ih]
    rfl
  | number cs ds t hne hds hend ih =>
    rw [scan_number r hne hds hend] at hscan
    obtain ⟨g, hg, hscan⟩ := bind_eq_ok hscan
    obtain ⟨out', hout, rfl⟩ := map_eq_ok hscan
    have ih := ih (fun idx g hm => hgroup idx g (.group hne hds hend hm)) hout
    have hfold : φ (ds.foldl r.grow 0) = ds.foldl r'.grow 0 := by rw [h.foldl, h.zero]
    have hg' := hgroup _ g (.number hne hds hend) hg
    rw [hfold] at hg'
    rw [← h.escape, scan_number r' hne (by rw [hdigit]; exact hds) (by rw [hdigit]; exact hend),
      hg', ih]
    rfl
  | improper t hend =>
    rw [scan_improper r hend] at hscan
    cases hscan

end CoapServer.Lib.Template
