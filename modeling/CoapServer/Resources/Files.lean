import CoapServer.Basic
import Mathlib.Algebra.Group.Int.Defs
import Mathlib.Logic.Function.Basic

/-! # Files

The part of the file system that the server touches: its regular files by path, with the time of
their last write, and which paths can be read and written and which directories created. A call on it
runs in `EStateM`, and ends in a `filesystem_error` where the library throws one. The streams do not
throw, and the server does not look whether they have failed: of a file that cannot be opened nothing
is written and nothing is read. A file that can be opened is read whole, and takes all that is written
to it, but for `writeUpTo`. -/

namespace CoapServer.Resources.Files

open CoapServer.Basic

/-- A regular file. -/
structure File where
  content : Str
  mtime : ℤ
  deriving DecidableEq

/-- **The file system.** `clock` is the time the next write gets, `writable` and `readable` say which
paths can be opened; `opened` and `created` record the paths that were opened for appending and the
directories that were created. -/
structure FileSystem where
  files : Str → Option File
  clock : ℤ
  writable : Str → Bool
  creatable : Str → Bool
  opened : List Str
  created : List Str
  readable : Str → Bool := fun _ => true

/-- If a path can be opened for writing, and for reading. -/
def FileSystem.access (fs : FileSystem) (p : Str) : Bool × Bool := (fs.writable p, fs.readable p)

/-- A call on the file system. -/
abbrev FsM := EStateM Failure FileSystem

/-- `std::filesystem::path::preferred_separator`. -/
def separator : Byte := 0x2f

/-- `path::parent_path`: the path without its last component and the separators before it. -/
def parentPath (p : Str) : Str :=
  let dir := p.reverse.dropWhile (· ≠ separator)
  let rest := (dir.dropWhile (· = separator)).reverse
  if rest = [] ∧ dir ≠ [] then [separator] else rest

/-- `std::filesystem::exists`. -/
def fileExists (p : Str) : FsM Bool := do
  return ((← get).files p).isSome

/-- `std::filesystem::last_write_time`. -/
def lastWriteTime (p : Str) : FsM ℤ := do
  match (← get).files p with
  | some file => return file.mtime
  | none => throw (.filesystemError p)

/-- `std::filesystem::file_size`. -/
def fileSize (p : Str) : FsM ℕ := do
  match (← get).files p with
  | some file => return file.content.length
  | none => throw (.filesystemError p)

/-- What an `ifstream` leaves in a vector of `size` zeros, which stays as it is where the file cannot
be opened. -/
def FileSystem.bytes (fs : FileSystem) (size : ℕ) (p : Str) : Str :=
  let content := if fs.readable p then (fs.files p).elim [] File.content else []
  content.take size ++ List.replicate (size - content.length) 0

/-- An `ifstream` and a `read` into a vector of `size` zeros. -/
def readInto (size : ℕ) (p : Str) : FsM Str := do
  return (← get).bytes size p

/-- `file_size` and the read of the whole file. -/
def readFile (p : Str) : FsM Str := do
  let size ← fileSize p
  readInto size p

/-- **What is read of a file**: its content, or as many zeros where it cannot be opened. -/
def FileSystem.seen (fs : FileSystem) (p : Str) (file : File) : Str :=
  if fs.readable p then file.content else List.replicate file.content.length 0

/-- The file at `p` gets new content and the time of the clock. -/
def FileSystem.put (fs : FileSystem) (p content : Str) : FileSystem :=
  { fs with
    files := Function.update fs.files p (some { content, mtime := fs.clock })
    clock := fs.clock + 1 }

/-- What a file takes of a content, where its device has room for some bytes only. -/
def upTo (room : Option ℕ) (content : Str) : Str := room.elim content content.take

/-- An `ofstream` that truncates, and a write to it; where the file cannot be opened, nothing. -/
def writeUpTo (room : Option ℕ) (p content : Str) : FsM Unit := do
  if (← get).writable p then modify fun fs => fs.put p (upTo room content)

/-- A write that finds room. -/
def writeFile (p content : Str) : FsM Unit := writeUpTo none p content

/-- A write to an `fstream` that was opened for appending. -/
def appendFile (p content : Str) : FsM Unit := do
  match (← get).files p with
  | some file => modify fun fs => fs.put p (file.content ++ content)
  | none => modify fun fs => fs.put p content

/-- `std::filesystem::create_directories`. -/
def createDirectories (p : Str) : FsM Unit := do
  if (← get).creatable p then modify fun fs => { fs with created := fs.created ++ [p] }
  else throw (.filesystemError p)

/-- `open` with `out | app`, which creates the file; `false` for `fail()`. -/
def openAppend (p : Str) : FsM Bool := do
  if (← get).writable p then
    modify fun fs => { fs with opened := fs.opened ++ [p] }
    if ((← get).files p).isNone then modify fun fs => fs.put p []
    return true
  return false

section Run
variable {fs : FileSystem} {p : Str} {file : File}

theorem fileExists_run : (fileExists p).run fs = .ok (fs.files p).isSome fs := rfl

theorem lastWriteTime_run (h : fs.files p = some file) :
    (lastWriteTime p).run fs = .ok file.mtime fs := by
  simp only [lastWriteTime, EStateM.run_bind, EStateM.run_get, h, EStateM.run_pure]

theorem fileSize_run (h : fs.files p = some file) :
    (fileSize p).run fs = .ok file.content.length fs := by
  simp only [fileSize, EStateM.run_bind, EStateM.run_get, h, EStateM.run_pure]

theorem fileSize_absent (h : fs.files p = none) :
    (fileSize p).run fs = .error (.filesystemError p) fs := by
  simp only [fileSize, EStateM.run_bind, EStateM.run_get, h]
  rfl

theorem readInto_run (size : ℕ) (p : Str) (fs : FileSystem) :
    (readInto size p).run fs = .ok (fs.bytes size p) fs := rfl

/-- A vector of the size of the file. -/
theorem bytes_size (h : fs.files p = some file) :
    fs.bytes file.content.length p = fs.seen p file := by
  unfold FileSystem.bytes FileSystem.seen
  split_ifs <;> simp [h]

theorem seen_readable (h : fs.readable p = true) (file : File) : fs.seen p file = file.content :=
  if_pos h

theorem readFile_run (h : fs.files p = some file) : (readFile p).run fs = .ok (fs.seen p file) fs := by
  simp only [readFile, EStateM.run_bind, fileSize_run h, readInto_run, bytes_size h]

theorem writeUpTo_run (h : fs.writable p = true) (room : Option ℕ) (content : Str) :
    (writeUpTo room p content).run fs = .ok ⟨⟩ (fs.put p (upTo room content)) := by
  simp only [writeUpTo, EStateM.run_bind, EStateM.run_get, h, if_true, EStateM.run_modify]

/-- A file that cannot be opened is not written. -/
theorem writeUpTo_denied (h : fs.writable p = false) (room : Option ℕ) (content : Str) :
    (writeUpTo room p content).run fs = .ok ⟨⟩ fs := by
  simp only [writeUpTo, EStateM.run_bind, EStateM.run_get, h, Bool.false_eq_true, if_false,
    EStateM.run_pure]

theorem writeFile_run (h : fs.writable p = true) (content : Str) :
    (writeFile p content).run fs = .ok ⟨⟩ (fs.put p content) := writeUpTo_run h none content

theorem writeFile_denied (h : fs.writable p = false) (content : Str) :
    (writeFile p content).run fs = .ok ⟨⟩ fs := writeUpTo_denied h none content

theorem lastWriteTime_absent (h : fs.files p = none) :
    (lastWriteTime p).run fs = .error (.filesystemError p) fs := by
  simp only [lastWriteTime, EStateM.run_bind, EStateM.run_get, h]
  rfl

theorem put_files_self (fs : FileSystem) (p content : Str) :
    (fs.put p content).files p = some { content, mtime := fs.clock } := Function.update_self _ _ _

end Run

/-- A path without a slash has no parent. -/
example : parentPath (str "res1.log") = [] := by decide

example : parentPath (str "logs/../etc/val.log") = str "logs/../etc" := by decide

example : parentPath (str "/value.log") = str "/" := by decide

end CoapServer.Resources.Files
