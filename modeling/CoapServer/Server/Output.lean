import CoapServer.Server.LogStream

/-! # What is captured of a command

`executeCmd` leaves the stream as it was if the command runs too long, and otherwise reads the lines
of its output up to the first empty one. What comes after an empty line is dropped, so the output is
captured whole if and only if nothing but line breaks comes after one (`captured_iff`). -/

namespace CoapServer.Server.Output

open CoapServer.Basic CoapServer.Config CoapServer.Resources.Object CoapServer.Server.World
open CoapServer.Server.Process CoapServer.Server.LogLines
open CoapServer.Server.LogStream (valueResource valueServer logOnly)

variable {κ : Type}

/-- **Nothing comes after an empty line**: from the first one on all lines are empty. -/
def Gapless (out : Str) : Prop :=
  ∀ line ∈ (out.splitOn newline).dropWhile (· ≠ []), line = []

instance (out : Str) : Decidable (Gapless out) := by
  unfold Gapless
  infer_instance

/-- How the command of the method `m` of `r` ends on the input `data`. -/
def shellResult (r : Resource) (m : ResourceMethod) (env : ProcEnv) (call : ℕ) (data : Str) :
    CmdResult :=
  env.shell call m.config.cmd data r.getPath (methStringify m.getMethodType)
    (if m.config.cmdStdin then data else [])

/-- **What the stream should hold** afterwards: what it did, or the whole output without the line
breaks. -/
def captured (result : CmdResult) (data : Str) : Str :=
  match result with
  | .exited _ out => out.filter (· ≠ newline)
  | .timedOut | .threw => data

/-- `executeCmd` returns, and the stream holds what it should. -/
def Captures (r : Resource) (m : ResourceMethod) (env : ProcEnv) (call : ℕ) (data : Str)
    (w : CoAPServer κ) : Prop :=
  ∃ code w', (executeCmd r m env call data).run w =
    .ok (code, captured (shellResult r m env call data) data) w'

/-- The lines of an output hold all of it but the line breaks. -/
theorem flatten_splitOn (out : Str) : (out.splitOn newline).flatten = out.filter (· ≠ newline) := by
  induction out with
  | nil => rfl
  | cons c out ih =>
    obtain ⟨first, rest, hsplit⟩ := List.exists_cons_of_ne_nil (List.splitOn_ne_nil newline out)
    rw [List.splitOn_cons_eq_if_modifyHead]
    by_cases hc : c = newline
    · rw [if_pos (by simpa using hc), List.flatten_cons, List.nil_append, ih,
        List.filter_cons_of_neg (by simpa using hc)]
    · rw [if_neg (by simpa using hc), List.filter_cons_of_pos (by simpa using hc), ← ih, hsplit,
        List.modifyHead_cons, List.flatten_cons, List.flatten_cons, List.cons_append]

/-- **The lines read are the whole output** if and only if it has no gap. -/
theorem firstLines_eq_iff (out : Str) : firstLines out = out.filter (· ≠ newline) ↔ Gapless out := by
  have hlines : (out.splitOn newline).flatten =
      firstLines out ++ ((out.splitOn newline).dropWhile (· ≠ [])).flatten := by
    rw [firstLines, ← List.flatten_append]
    exact congrArg _ List.takeWhile_append_dropWhile.symm
  rw [← flatten_splitOn, hlines, List.self_eq_append_right, List.flatten_eq_nil_iff]
  rfl

/-- **When the output is captured**: whatever the stream held, the command exceeds its time, or
nothing comes after an empty line of its output. -/
theorem captured_iff {r : Resource} {m : ResourceMethod} {env : ProcEnv} {call : ℕ} {data : Str}
    (hlaunch : shellResult r m env call data ≠ .threw) (w : CoAPServer κ) :
    Captures r m env call data w ↔
      ∀ code out, shellResult r m env call data = .exited code out → Gapless out := by
  unfold Captures
  cases hshell : shellResult r m env call data with
  | threw => exact absurd hshell hlaunch
  | timedOut =>
    refine iff_of_true ⟨-1, { w with
      stderr := w.stderr ++ [notExited m.config.cmd m.config.cmdTimeout] }, ?_⟩
      (by rintro code out ⟨⟩)
    unfold shellResult at hshell
    simp only [executeCmd, hshell, EStateM.run_bind, writeErr_run, EStateM.run_pure, captured]
  | exited code out =>
    have hrun : (executeCmd r m env call data).run w = .ok (code, firstLines out) w := by
      unfold shellResult at hshell
      simp only [executeCmd, hshell, EStateM.run_pure]
    rw [hrun]
    constructor
    · rintro ⟨code', w', h⟩ _ _ ⟨⟩
      exact (firstLines_eq_iff out).mp (Prod.mk.inj (EStateM.Result.ok.inj h).1).2
    · intro h
      exact ⟨code, w, by rw [captured, (firstLines_eq_iff out).mpr (h code out rfl)]⟩

/-- A method that runs a command. -/
def catMethod : ResourceMethod :=
  { config := { type := .get, format := [str "STRING"], cmd := str "cat" }, fmts := [.text] }

/-- Commands that print `out`. -/
def printing (out : Str) : ProcEnv :=
  { localtime := fun _ => Timestamps.epoch, shell := fun _ _ _ _ _ _ => .exited 0 out }

theorem captured_iff_lines :
    Captures valueResource catMethod (printing (str "a\nb\n\n")) 0 [] (valueServer logOnly) := by
  have hlaunch : shellResult valueResource catMethod (printing (str "a\nb\n\n")) 0 [] ≠ .threw := by
    rintro ⟨⟩
  refine (captured_iff hlaunch _).mpr fun code out hout => ?_
  obtain ⟨-, rfl⟩ := CmdResult.exited.inj hout
  decide

/-- Of the output `a`, an empty line and `b`, only `a` is captured. -/
theorem paragraph_dropped : ¬ ∀ (r : Resource) (m : ResourceMethod) (env : ProcEnv) (call : ℕ)
    (data : Str) (w : CoAPServer ℕ), shellResult r m env call data ≠ .threw →
    Captures r m env call data w := by
  intro h
  obtain ⟨code, w', hrun⟩ := h valueResource catMethod (printing (str "a\n\nb")) 0 []
    (valueServer logOnly) (by rintro ⟨⟩)
  have hout := (Prod.mk.inj (EStateM.Result.ok.inj hrun).1).2
  exact absurd hout (by decide)

end CoapServer.Server.Output
