import Mathlib.Data.List.Basic
import Mathlib.Data.Nat.Notation
import Mathlib.Tactic.Common

/-! # Lexically normal paths

A path is a list over an alphabet with a separator and a dot; its components are what stands between
the separators. The normal form (`normalise`) drops empty components and single dots and lets a
double dot cancel the name before it; what is left over is a number of steps up (`ups`, none in an
absolute path) and then names. A path is *inside* a directory when it goes the same steps up and on
through the names of the directory.

`normalise_join` says what the normal form of a path below a directory is: the directory, taken as
many steps up as the rest has `ups`, and then the names of the rest. `inside_under_iff` reads off
when that is inside the directory: when the rest does not go up, or comes back down the same way. -/

namespace CoapServer.Lib.Path

variable {β : Type*} [DecidableEq β]

/-- **A normal path.** -/
structure NormalPath (β : Type*) where
  absolute : Bool
  ups : ℕ
  names : List (List β)
  deriving DecidableEq

/-- One component more. -/
def push (dot : β) (p : NormalPath β) (c : List β) : NormalPath β :=
  if c = [] ∨ c = [dot] then p
  else if c = [dot, dot] then
    if p.names = [] then if p.absolute then p else { p with ups := p.ups + 1 }
    else { p with names := p.names.dropLast }
  else { p with names := p.names ++ [c] }

/-- The path that starts with a separator, or not. -/
def root (absolute : Bool) : NormalPath β := { absolute, ups := 0, names := [] }

/-- The components of a path from `p` on. -/
def follow (sep dot : β) (p : NormalPath β) (path : List β) : NormalPath β :=
  (path.splitOn sep).foldl (push dot) p

/-- **The normal form of a path.** -/
def normalise (sep dot : β) (path : List β) : NormalPath β :=
  follow sep dot (root (path.head? = some sep)) path

/-- The normal form of what a path adds to a directory, a separator at its start or not. -/
def relative (sep dot : β) (path : List β) : NormalPath β := follow sep dot (root false) path

/-- **A path inside a directory.** -/
def Inside (dir p : NormalPath β) : Prop :=
  p.absolute = dir.absolute ∧ p.ups = dir.ups ∧ dir.names <+: p.names

instance (dir p : NormalPath β) : Decidable (Inside dir p) := by
  unfold Inside
  infer_instance

/-- The directory, the steps of `rest` up and its names down. -/
def under (dir rest : NormalPath β) : NormalPath β :=
  if rest.ups ≤ dir.names.length then
    { dir with names := dir.names.take (dir.names.length - rest.ups) ++ rest.names }
  else if dir.absolute then { dir with names := rest.names }
  else { dir with ups := dir.ups + (rest.ups - dir.names.length), names := rest.names }

section Push
variable (dot : β) {p : NormalPath β} {c : List β}

theorem push_skip (h : c = [] ∨ c = [dot]) : push dot p c = p := if_pos h

theorem push_name (h : ¬ (c = [] ∨ c = [dot])) (hup : c ≠ [dot, dot]) :
    push dot p c = { p with names := p.names ++ [c] } := by
  rw [push, if_neg h, if_neg hup]

theorem push_up (hnames : p.names ≠ []) :
    push dot p [dot, dot] = { p with names := p.names.dropLast } := by
  rw [push, if_neg (by simp), if_pos rfl, if_neg hnames]

theorem push_up_top (hnames : p.names = []) : push dot p [dot, dot] =
    if p.absolute then p else { p with ups := p.ups + 1 } := by
  rw [push, if_neg (by simp), if_pos rfl, if_pos hnames]

theorem push_absolute : (push dot p c).absolute = p.absolute := by
  unfold push
  split_ifs <;> rfl

end Push

/-! ### Paths below a directory -/

section Under
variable {dir : NormalPath β}

omit [DecidableEq β] in
theorem under_of_le (rest : NormalPath β) (h : rest.ups ≤ dir.names.length) : under dir rest =
    { dir with names := dir.names.take (dir.names.length - rest.ups) ++ rest.names } := if_pos h

omit [DecidableEq β] in
theorem under_of_lt (rest : NormalPath β) (h : dir.names.length < rest.ups) : under dir rest =
    if dir.absolute then { dir with names := rest.names }
    else { dir with ups := dir.ups + (rest.ups - dir.names.length), names := rest.names } :=
  if_neg (Nat.not_le.mpr h)

end Under

/-- A step up at the top of the rest is one more step up from the directory. -/
theorem under_up_top (dot : β) (dir : NormalPath β) {rest : NormalPath β}
    (hnames : rest.names = []) :
    under dir { rest with ups := rest.ups + 1 } = push dot (under dir rest) [dot, dot] := by
  rcases Nat.lt_trichotomy rest.ups dir.names.length with hlt | heq | hgt
  · have hne : dir.names.take (dir.names.length - rest.ups) ≠ [] := by
      rw [Ne, List.take_eq_nil_iff, not_or]
      exact ⟨by omega, List.ne_nil_of_length_pos (by omega)⟩
    rw [under_of_le { rest with ups := rest.ups + 1 } hlt, under_of_le rest (Nat.le_of_lt hlt),
      push_up _ (by simpa [hnames] using hne)]
    have htake : (dir.names.take (dir.names.length - rest.ups)).dropLast =
        dir.names.take (dir.names.length - (rest.ups + 1)) := by
      rw [List.dropLast_eq_take, List.take_take, List.length_take]
      congr 1
      omega
    simp [hnames, htake]
  · rw [under_of_lt { rest with ups := rest.ups + 1 } (Nat.lt_succ_of_le (Nat.le_of_eq heq.symm)),
      under_of_le rest (Nat.le_of_eq heq),
      push_up_top _ (by simp [hnames, heq])]
    simp [hnames, heq]
  · have hsub : rest.ups + 1 - dir.names.length = rest.ups - dir.names.length + 1 := by omega
    rw [under_of_lt { rest with ups := rest.ups + 1 } (Nat.lt_succ_of_lt hgt), under_of_lt rest hgt]
    by_cases habs : dir.absolute = true
    · simp [habs, push_up_top, hnames]
    · simp [habs, push_up_top, hnames, hsub, Nat.add_assoc]

/-- A component after a relative path, below a directory. -/
theorem under_push (dot : β) (dir : NormalPath β) {rest : NormalPath β}
    (hrel : rest.absolute = false) (c : List β) :
    under dir (push dot rest c) = push dot (under dir rest) c := by
  by_cases hskip : c = [] ∨ c = [dot]
  · rw [push_skip _ hskip, push_skip _ hskip]
  · by_cases hup : c = [dot, dot]
    · subst hup
      by_cases hnames : rest.names = []
      · rw [push_up_top _ hnames, if_neg (by simp [hrel]), under_up_top _ _ hnames]
      · have hne : ∀ l : List (List β), l ++ rest.names ≠ [] := fun l => by simp [hnames]
        rw [push_up _ hnames]
        rcases Nat.lt_or_ge dir.names.length rest.ups with hlt | hle
        · rw [under_of_lt rest hlt, under_of_lt { rest with names := rest.names.dropLast } hlt]
          split_ifs <;> simp [push_up, hnames]
        · rw [under_of_le rest hle, under_of_le { rest with names := rest.names.dropLast } hle,
            push_up _ (hne _)]
          simp [List.dropLast_append_of_ne_nil hnames]
    · rw [push_name _ hskip hup, push_name _ hskip hup]
      unfold under
      split_ifs <;> simp

omit [DecidableEq β] in
theorem under_root (dir : NormalPath β) : under dir (root false) = dir := by
  simp [under, root]

/-- **Following a path from a directory** goes to the directory, the steps up and the names down. -/
theorem follow_eq_under (sep dot : β) (dir : NormalPath β) (path : List β) :
    follow sep dot dir path = under dir (relative sep dot path) := by
  have h : ∀ (cs : List (List β)) (rest : NormalPath β), rest.absolute = false →
      cs.foldl (push dot) (under dir rest) = under dir (cs.foldl (push dot) rest) := by
    intro cs
    induction cs with
    | nil => exact fun _ _ => rfl
    | cons c cs ih =>
      intro rest hrel
      rw [List.foldl_cons, List.foldl_cons, ← under_push dot dir hrel c]
      exact ih _ ((push_absolute dot).trans hrel)
  have h0 := h (path.splitOn sep) (root false) rfl
  rw [under_root] at h0
  exact h0

/-- Following a path after another, with a separator between them. -/
theorem follow_append (sep dot : β) (p : NormalPath β) (path path' : List β) :
    follow sep dot p (path ++ sep :: path') = follow sep dot (follow sep dot p path) path' := by
  rw [follow, List.splitOn_append_cons_self, List.foldl_append]
  rfl

/-- **The normal form of a path below a directory.** -/
theorem normalise_join (sep dot : β) {dir : List β} (hdir : dir ≠ []) (path : List β) :
    normalise sep dot (dir ++ sep :: path) =
      under (normalise sep dot dir) (relative sep dot path) := by
  have hhead : (dir ++ sep :: path).head? = dir.head? := by
    cases dir with
    | nil => exact absurd rfl hdir
    | cons b dir => rfl
  rw [normalise, follow_append, hhead, follow_eq_under]
  rfl

/-- The rest does not leave the directory, or comes back the way it went up. -/
def Returns (dir rest : NormalPath β) : Prop :=
  (rest.ups ≤ dir.names.length ∨ dir.absolute = true) ∧
    dir.names.drop (dir.names.length - rest.ups) <+: rest.names

instance (dir rest : NormalPath β) : Decidable (Returns dir rest) := by
  unfold Returns
  infer_instance

omit [DecidableEq β] in
/-- **When a path below a directory is inside it.** -/
theorem inside_under_iff (dir rest : NormalPath β) : Inside dir (under dir rest) ↔ Returns dir rest := by
  unfold Inside under Returns
  by_cases hle : rest.ups ≤ dir.names.length
  · have hsplit := List.take_append_drop (dir.names.length - rest.ups) dir.names
    simp only [hle, if_true, true_and, true_or]
    have hcancel : dir.names.take (dir.names.length - rest.ups) ++
        dir.names.drop (dir.names.length - rest.ups) <+:
          dir.names.take (dir.names.length - rest.ups) ++ rest.names ↔
        dir.names.drop (dir.names.length - rest.ups) <+: rest.names :=
      List.prefix_append_right_inj _
    rw [hsplit] at hcancel
    exact hcancel
  · have hdrop : dir.names.drop (dir.names.length - rest.ups) = dir.names := by
      rw [show dir.names.length - rest.ups = 0 by omega, List.drop_zero]
    rw [hdrop, if_neg hle]
    by_cases habs : dir.absolute = true
    · simp [habs]
    · have hne : rest.ups - dir.names.length ≠ 0 := by omega
      simp [habs, hle, hne]

end CoapServer.Lib.Path
