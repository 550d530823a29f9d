import CoapServer.Lib.Fallible
import CoapServer.Queue.Arithmetic
import CoapServer.Server.Process

/-! # The command line

`_handleCmdLine` has the command line parsed by a table of options and takes the values as they are,
also the size of the queue, which `main` makes the queue of. The arithmetic of the queue is safe in
every run if and only if the command line does not ask for a size of zero (`arithmetic_safe_iff`).
Where it does, the thread of the queue divides by zero in its first round, before any request
(`consume_by_zero`). -/

namespace CoapServer.Server.CommandLine

open CoapServer.Basic CoapServer.Lib.Fallible CoapServer.Queue.Sequential
open CoapServer.Queue.Arithmetic CoapServer.Server.World CoapServer.Server.Process

/-! ### The options -/

/-- The value of an option, and its default: none, a `std::string` or a `size_t`. -/
inductive Semantic where
  | none
  | string (default : Option Str)
  | size (default : Option ℕ)

/-- An option of the table: its long and short name, its value and what is said about it. -/
structure OptionDescription where
  names : Str
  semantic : Semantic
  description : Str

/-- `po::options_description`: a title and the options. -/
structure OptionsDescription where
  caption : Str
  options : List OptionDescription

/-- The default of `--config`. -/
def defaultConfig : Str := str "config.json"

/-- The default of `--queue`. -/
def defaultQueue : ℕ := 32

/-- **The table of the options.** -/
def desc : OptionsDescription where
  caption := str "Program options"
  options :=
    [⟨str "help,h", .none, str "Print this help message"⟩,
      ⟨str "config,c", .string (some defaultConfig), str "Configuration file"⟩,
      ⟨str "port,p", .string none, str "Override listening port"⟩,
      ⟨str "addr,a", .string none, str "Override listening address"⟩,
      ⟨str "logdir,l", .string none, str "Override base log directory"⟩,
      ⟨str "queue,q", .size (some defaultQueue), str "Set request handler queue size"⟩]

/-- `options_t`. -/
structure Options where
  configPath : Str
  portOverride : Str
  addrOverride : Str
  logDirOverride : Str
  queueSize : ℕ

/-- **What `boost::program_options` does**: it parses a command line by a table, which gives the text
of each option that is there by its long name; converts a text to a `size_t`; and prints a table. -/
structure ProgramOptions where
  parseCommandLine : OptionsDescription → List Str → Except Failure (Str → Option Str)
  lexicalCast : Str → Except Failure ℕ
  lexicalCast_lt : ∀ text n, lexicalCast text = .ok n → n < sizeMod
  print : OptionsDescription → Str

section HandleCmdLine
variable (po : ProgramOptions)

/-- The size of the queue that is asked for. -/
def queueSize (given : Str → Option Str) : Except Failure ℕ :=
  match given (str "queue") with
  | some text => po.lexicalCast text
  | none => .ok defaultQueue

/-- What `po::notify` stores: the texts that are given, and the defaults. -/
def notify (given : Str → Option Str) (queueSize : ℕ) : Options :=
  { configPath := (given (str "config")).getD defaultConfig
    portOverride := (given (str "port")).getD []
    addrOverride := (given (str "addr")).getD []
    logDirOverride := (given (str "logdir")).getD []
    queueSize }

/-- **`_handleCmdLine`**: what it returns, the options, and what it writes to `std::cout`. -/
def handleCmdLine (argv : List Str) : Except Failure (ℤ × Options × List Str) := do
  let given ← po.parseCommandLine desc argv
  let queueSize ← queueSize po given
  if (given (str "help")).isSome then
    return (1, notify given queueSize,
      [str "Usage: " ++ argv.headD [] ++ str " [options]", po.print desc])
  return (0, notify given queueSize, [])

/-- **The arithmetic is safe**: whenever the command line is accepted and the queue allocated, it is
in every state that the queue reaches. -/
def ArithmeticSafe (argv : List Str) : Prop :=
  ∀ opts out, handleCmdLine po argv = .ok (0, opts, out) →
    ∀ q₀ : RequestQueue RequestQueueItem, new opts.queueSize = some q₀ →
      ∀ q, Reached q₀ q → Safe q

/-- **The command line asks for no slots**: it can be parsed and does not ask for help, and the text
of its `--queue` is read as zero. -/
def AsksForNone (argv : List Str) : Prop :=
  ∃ given text, po.parseCommandLine desc argv = .ok given ∧ given (str "help") = none ∧
    given (str "queue") = some text ∧ po.lexicalCast text = .ok 0

end HandleCmdLine

section Accepted
variable {po : ProgramOptions} {argv : List Str}

/-- **What is accepted**: a command line that can be parsed, does not ask for help, and has a size
that can be read, if it has one. -/
theorem handleCmdLine_eq_ok_iff {opts : Options} {out : List Str} :
    handleCmdLine po argv = .ok (0, opts, out) ↔ ∃ given size,
      po.parseCommandLine desc argv = .ok given ∧ given (str "help") = none ∧
      queueSize po given = .ok size ∧ opts = notify given size ∧ out = [] := by
  constructor
  · intro h
    obtain ⟨given, hgiven, h⟩ := bind_eq_ok h
    obtain ⟨size, hsize, h⟩ := bind_eq_ok h
    split_ifs at h with hhelp
    · cases h
    · cases h
      exact ⟨given, size, hgiven, by simpa using hhelp, hsize, rfl, rfl⟩
  · rintro ⟨given, size, hgiven, hhelp, hsize, rfl, rfl⟩
    unfold handleCmdLine
    rw [hgiven]
    show (queueSize po given >>= _) = _
    rw [hsize]
    show (if _ then _ else _) = _
    rw [if_neg (by simp [hhelp])]
    rfl

/-- The size is zero only where the text says so. -/
theorem queueSize_eq_zero_iff {given : Str → Option Str} : queueSize po given = .ok 0 ↔
    ∃ text, given (str "queue") = some text ∧ po.lexicalCast text = .ok 0 := by
  unfold queueSize
  cases given (str "queue") with
  | none => exact iff_of_false (by rintro ⟨⟩) (by rintro ⟨text, ⟨⟩, -⟩)
  | some text => simp

/-- A size of zero is accepted where it is asked for. -/
theorem accepts_zero_iff : (∃ opts out, handleCmdLine po argv = .ok (0, opts, out) ∧
    opts.queueSize = 0) ↔ AsksForNone po argv := by
  constructor
  · rintro ⟨opts, out, haccepted, hzero⟩
    obtain ⟨given, size, hgiven, hhelp, hsize, rfl, -⟩ := handleCmdLine_eq_ok_iff.mp haccepted
    obtain rfl : size = 0 := hzero
    obtain ⟨text, htext, hcast⟩ := queueSize_eq_zero_iff.mp hsize
    exact ⟨given, text, hgiven, hhelp, htext, hcast⟩
  · rintro ⟨given, text, hgiven, hhelp, htext, hcast⟩
    have hsize := queueSize_eq_zero_iff.mpr ⟨text, htext, hcast⟩
    exact ⟨notify given 0, [],
      handleCmdLine_eq_ok_iff.mpr ⟨given, 0, hgiven, hhelp, hsize, rfl, rfl⟩, rfl⟩

end Accepted

/-! ### The queue that is made -/

/-- **The arithmetic of the queue is safe** in every run if and only if the command line does not ask
for a queue of no slots. -/
theorem arithmetic_safe_iff (po : ProgramOptions) (argv : List Str) :
    ArithmeticSafe po argv ↔ ¬ AsksForNone po argv := by
  constructor
  · rintro hsafe hnone
    obtain ⟨opts, out, haccepted, hzero⟩ := accepts_zero_iff.mpr hnone
    have hnew : new opts.queueSize = some (⟨0, [], 0, 0⟩ : RequestQueue RequestQueueItem) := by
      rw [hzero]
      rfl
    exact (safe_iff hnew).mp (hsafe opts out haccepted _ hnew) hzero
  · intro hnone opts out haccepted q₀ hnew
    have hne : opts.queueSize ≠ 0 := fun hzero =>
      hnone (accepts_zero_iff.mp ⟨opts, out, haccepted, hzero⟩)
    exact (safe_iff hnew).mpr hne

/-- **The thread of a queue of no slots** divides by zero in its first round. -/
theorem consume_by_zero {κ : Type} {w : CoAPServer κ} (hzero : w.queue.maxSize = 0)
    (env : ProcEnv) : (consume env).run w = .error .remByZero w := by
  simp only [consume, EStateM.run_bind, onQueue_error (remainder_by_zero hzero).1]

/-- Digits that are read as a `size_t`. -/
def readSize (text : Str) : Except Failure ℕ :=
  match text.mapM digit with
  | some (d :: ds) =>
    let n := (d :: ds).foldl (fun n d => n * 10 + d) 0
    if n < sizeMod then .ok n else .error (.runtimeError (str "the argument is invalid"))
  | _ => .error (.runtimeError (str "the argument is invalid"))

/-- Command lines with a `--queue`, or nothing. -/
def queueOnly : ProgramOptions where
  parseCommandLine _ argv := match argv with
    | [_, flag, text] =>
      if flag = str "--queue" then .ok fun name => if name = str "queue" then some text else none
      else .error (.runtimeError (str "unrecognised option"))
    | _ => .ok fun _ => none
  lexicalCast := readSize
  lexicalCast_lt := by
    intro text n h
    unfold readSize at h
    split at h
    · simp only at h
      split_ifs at h with hlt
      obtain rfl := Except.ok.inj h
      exact hlt
    · cases h
  print _ := []

/-- A queue of size zero is accepted, and its first `count` divides by zero. -/
theorem zero_accepted : ¬ ∀ (po : ProgramOptions) (argv : List Str), ArithmeticSafe po argv := by
  intro h
  have hsafe := h queueOnly [str "coapserver", str "--queue", str "0"] _ [] rfl ⟨0, [], 0, 0⟩ rfl _
    (CoapServer.Lib.Run.Runs.refl _)
  refine hsafe.remainder .count ?_
  rw [thrown, (remainder_by_zero rfl).1]

end CoapServer.Server.CommandLine
