import Mathlib.Data.List.Basic
import Mathlib.Data.Nat.Notation
import Mathlib.Tactic.Common

/-! # Output streams that fail

A stream hands each piece to its device, which takes all of it or leaves some of it out. After a write
that failed the stream is bad, and what it is given then is lost. So a stream takes pieces whole exactly
where it is good and none of these writes fails (`takenAll_eq_iff`). -/

namespace CoapServer.Lib.Streams

variable {α : Type*}

/-- **A stream**: if it is good, how many writes there were, and what was written. -/
structure Stream (α : Type*) where
  good : Bool
  writes : ℕ
  written : List α

/-- The outcome of each write: success, or a failure where a part of the piece was taken. -/
abbrev Device := ℕ → Option ℕ

namespace Stream
variable (device : Device) (s : Stream α)

/-- What is taken of a piece. -/
def taken (piece : List α) : List α :=
  if s.good then
    match device s.writes with
    | none => piece
    | some n => piece.dropLast.take n
  else []

/-- A write of a piece. -/
def write (piece : List α) : Stream α :=
  { good := s.good && (device s.writes).isNone
    writes := s.writes + 1
    written := s.written ++ s.taken device piece }

/-- Writes of one piece after the other. -/
def writeAll (pieces : List (List α)) : Stream α := pieces.foldl (write device) s

/-- What is taken of one piece after the other. -/
def takenAll : Stream α → List (List α) → List α
  | _, [] => []
  | s, piece :: pieces => s.taken device piece ++ takenAll (s.write device piece) pieces

/-- **The next `n` writes succeed.** -/
def Takes (n : ℕ) : Prop := 0 < n → s.good = true ∧ ∀ k < n, device (s.writes + k) = none

variable {device s}

theorem writeAll_written (pieces : List (List α)) : ∀ s : Stream α,
    (s.writeAll device pieces).written = s.written ++ s.takenAll device pieces := by
  induction pieces with
  | nil => exact fun s => (List.append_nil _).symm
  | cons piece pieces ih =>
    intro s
    have hrest := ih (s.write device piece)
    rw [writeAll, List.foldl_cons, ← writeAll, hrest, takenAll, ← List.append_assoc]
    rfl

theorem taken_of_none (hgood : s.good = true) (hdevice : device s.writes = none) (piece : List α) :
    s.taken device piece = piece := by
  rw [taken, if_pos hgood, hdevice]

/-- A write that fails leaves something out. -/
theorem taken_lt {piece : List α} (hpiece : piece ≠ [])
    (h : ¬ (s.good = true ∧ device s.writes = none)) :
    (s.taken device piece).length < piece.length := by
  have hpos := List.length_pos_iff.mpr hpiece
  unfold taken
  split_ifs with hgood
  · obtain ⟨n, hn⟩ := Option.ne_none_iff_exists'.mp fun hnone => h ⟨hgood, hnone⟩
    rw [hn]
    simp only [List.length_take, List.length_dropLast]
    omega
  · exact hpos

theorem taken_le (piece : List α) : (s.taken device piece).length ≤ piece.length := by
  unfold taken
  split_ifs
  · cases device s.writes with
    | none => exact Nat.le_refl _
    | some n =>
      simp only [List.length_take, List.length_dropLast]
      omega
  · exact Nat.zero_le _

theorem takenAll_le (pieces : List (List α)) : ∀ s : Stream α,
    (s.takenAll device pieces).length ≤ pieces.flatten.length := by
  induction pieces with
  | nil => exact fun s => Nat.le_refl _
  | cons piece pieces ih =>
    intro s
    rw [takenAll, List.flatten_cons, List.length_append, List.length_append]
    exact Nat.add_le_add (taken_le piece) (ih _)

/-- The first of the next writes, and the others. -/
theorem takes_succ (piece : List α) {n : ℕ} : s.Takes device (n + 1) ↔
    (s.good = true ∧ device s.writes = none) ∧ (s.write device piece).Takes device n := by
  constructor
  · intro h
    obtain ⟨hgood, hdevice⟩ := h n.succ_pos
    have hfirst : device s.writes = none := hdevice 0 n.succ_pos
    refine ⟨⟨hgood, hfirst⟩, fun _ => ⟨by simp [write, hgood, hfirst], fun k hk => ?_⟩⟩
    have hnext := hdevice (k + 1) (Nat.succ_lt_succ hk)
    rwa [Nat.add_comm k 1, ← Nat.add_assoc] at hnext
  · rintro ⟨⟨hgood, hfirst⟩, hrest⟩ -
    refine ⟨hgood, fun k hk => ?_⟩
    cases k with
    | zero => exact hfirst
    | succ k =>
      have hk : k < n := Nat.lt_of_succ_lt_succ hk
      have hnext := (hrest (Nat.zero_lt_of_lt hk)).2 k hk
      rwa [write, Nat.add_assoc, Nat.add_comm 1 k] at hnext

/-- **Pieces are taken whole exactly where every write succeeds.** -/
theorem takenAll_eq_iff (pieces : List (List α)) (hne : ∀ piece ∈ pieces, piece ≠ []) :
    ∀ s : Stream α, s.takenAll device pieces = pieces.flatten ↔ s.Takes device pieces.length := by
  induction pieces with
  | nil => exact fun s => ⟨fun _ h => absurd h (Nat.lt_irrefl 0), fun _ => rfl⟩
  | cons piece pieces ih =>
    intro s
    have hrest := ih (fun p hp => hne p (List.mem_cons_of_mem _ hp)) (s.write device piece)
    rw [List.length_cons, takes_succ piece, ← hrest, takenAll, List.flatten_cons]
    constructor
    · intro heq
      have hlen := congrArg List.length heq
      rw [List.length_append, List.length_append] at hlen
      have hle : ((s.write device piece).takenAll device pieces).length ≤ pieces.flatten.length :=
        takenAll_le pieces _
      have hfirst : s.good = true ∧ device s.writes = none := by
        by_contra hfails
        have hlt := taken_lt (hne piece List.mem_cons_self) hfails
        omega
      rw [taken_of_none hfirst.1 hfirst.2] at heq
      exact ⟨hfirst, List.append_cancel_left heq⟩
    · rintro ⟨⟨hgood, hfirst⟩, heq⟩
      rw [taken_of_none hgood hfirst, heq]

end Stream

end CoapServer.Lib.Streams
