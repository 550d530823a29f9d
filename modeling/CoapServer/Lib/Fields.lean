import Mathlib.Tactic.Common

/-! # Texts of lines and fields

A text of lines has a separator behind each of them. Lines without the separator are read back from
their text (`lines_terminate`), also where other text follows (`Terminated.lines_append`). A line is
taken apart at the first or the last place of a separator: `splitFirst`, `splitLast`. -/

namespace CoapServer.Lib.Fields

variable {β : Type*} {sep : β}

/-- The text of lines. -/
def terminate (sep : β) (ls : List (List β)) : List β := ls.flatMap (· ++ [sep])

theorem terminate_append (ls ls' : List (List β)) :
    terminate sep (ls ++ ls') = terminate sep ls ++ terminate sep ls' :=
  List.flatMap_append

theorem terminate_flatMap {α : Type*} (f : α → List (List β)) (as : List α) :
    terminate sep (as.flatMap f) = as.flatMap fun a => terminate sep (f a) :=
  List.flatMap_assoc

/-- **A text of whole lines.** -/
def Terminated (sep : β) (text : List β) : Prop :=
  ∃ ls, (∀ l ∈ ls, sep ∉ l) ∧ text = terminate sep ls

theorem Terminated.append {a b : List β} (ha : Terminated sep a) (hb : Terminated sep b) :
    Terminated sep (a ++ b) := by
  obtain ⟨ls, hls, rfl⟩ := ha
  obtain ⟨ls', hls', rfl⟩ := hb
  refine ⟨ls ++ ls', fun l hl => ?_, (terminate_append ls ls').symm⟩
  rcases List.mem_append.mp hl with hl | hl
  · exact hls l hl
  · exact hls' l hl

variable [DecidableEq β]

/-- **The lines of a text.** What stands behind the last separator is none. -/
def lines (sep : β) (text : List β) : List (List β) := (text.splitOn sep).dropLast

theorem lines_cons {l : List β} (h : sep ∉ l) (rest : List β) :
    lines sep (l ++ sep :: rest) = l :: lines sep rest := by
  rw [lines, List.splitOn_append_cons_self_of_not_mem h,
    List.dropLast_cons_of_ne_nil (List.splitOn_ne_nil _ _), lines]

/-- **Lines are read back**, before what follows. -/
theorem lines_terminate_append {ls : List (List β)} (h : ∀ l ∈ ls, sep ∉ l) (rest : List β) :
    lines sep (terminate sep ls ++ rest) = ls ++ lines sep rest := by
  induction ls with
  | nil => rfl
  | cons l ls ih =>
    have hl := h l List.mem_cons_self
    have hls := ih fun l' hl' => h l' (List.mem_cons_of_mem l hl')
    have htext : terminate sep (l :: ls) ++ rest = l ++ sep :: (terminate sep ls ++ rest) := by
      simp [terminate]
    rw [htext, lines_cons hl, hls, List.cons_append]

theorem lines_terminate {ls : List (List β)} (h : ∀ l ∈ ls, sep ∉ l) :
    lines sep (terminate sep ls) = ls := by
  have hlines := lines_terminate_append h []
  rwa [List.append_nil, show lines sep ([] : List β) = [] from rfl, List.append_nil] at hlines

/-- **Whole lines are read by themselves.** -/
theorem Terminated.lines_append {text : List β} (h : Terminated sep text) (rest : List β) :
    lines sep (text ++ rest) = lines sep text ++ lines sep rest := by
  obtain ⟨ls, hls, rfl⟩ := h
  rw [lines_terminate_append hls, lines_terminate hls]

/-! ### Fields -/

/-- The text before the first separator, and behind it. -/
def splitFirst (sep : β) (text : List β) : Option (List β × List β) :=
  match text.dropWhile (· ≠ sep) with
  | [] => none
  | _ :: rest => some (text.takeWhile (· ≠ sep), rest)

theorem splitFirst_append {a : List β} (h : sep ∉ a) (b : List β) :
    splitFirst sep (a ++ sep :: b) = some (a, b) := by
  have hall : ∀ c ∈ a, decide (c ≠ sep) = true := by
    intro c hc
    rw [decide_eq_true_iff]
    rintro rfl
    exact h hc
  have hdrop : (a ++ sep :: b).dropWhile (· ≠ sep) = sep :: b := by
    rw [List.dropWhile_append_of_pos hall]
    exact List.dropWhile_cons_of_neg (by simp)
  have htake : (a ++ sep :: b).takeWhile (· ≠ sep) = a := by
    rw [List.takeWhile_append_of_pos hall, List.takeWhile_cons_of_neg (by simp), List.append_nil]
  unfold splitFirst
  rw [hdrop, htake]

/-- The text before the last separator, and behind it. -/
def splitLast (sep : β) (text : List β) : Option (List β × List β) :=
  (splitFirst sep text.reverse).map fun parts => (parts.2.reverse, parts.1.reverse)

theorem splitLast_append (a : List β) {b : List β} (h : sep ∉ b) :
    splitLast sep (a ++ sep :: b) = some (a, b) := by
  have hrev : (a ++ sep :: b).reverse = b.reverse ++ sep :: a.reverse := by simp
  unfold splitLast
  rw [hrev, splitFirst_append (by simpa using h)]
  simp

end CoapServer.Lib.Fields
