import CoapServer.Lib.Outcome
import CoapServer.Lib.Run
import CoapServer.Server.Process
import CoapServer.Server.Requests

/-! # Locks and failures

`setValue` and `valueUpdate` take the locks of a resource by hand. An exception between `lock` and
`unlock` leaves the lock taken, and nothing in the loops of the threads catches it. Here the calls
run with the locks as part of the state. Other processes change the files at any moment: `found k` is
the file system that the `k`-th call to it finds.

`ends_setValue`, `ends_valueUpdate` and `ends_handleItem` say when the calls return, and that they
return with both locks released; on files that nobody else changes they are the calls of `Object`
(`setValue_refines`, `valueUpdate_refines`). `survives_iff_sound` puts them together over the runs of
the two threads. -/

namespace CoapServer.Server.Locks

open CoapServer.Basic CoapServer.Config CoapServer.Lib.Outcome CoapServer.Lib.Run
open CoapServer.Resources.Files CoapServer.Resources.Formatter CoapServer.Resources.Object
open CoapServer.Server.World CoapServer.Server.Requests CoapServer.Server.Process

/-! ### Calls with locks -/

/-- The locks of a resource. -/
inductive Lock where
  | valueLock
  | dataFileLock
  deriving DecidableEq

/-- How a call stops: with an exception, or at a lock that nobody releases. -/
inductive Stop where
  | threw (e : Failure)
  | blocked

/-- **A resource with its locks**, the number of calls to the file system, and the lines written. -/
structure Cell where
  object : Resource
  held : Lock → Bool
  calls : ℕ
  stdout : List Str
  stderr : List Str
  log : List Str

/-- Both locks are released. -/
def Released (c : Cell) : Prop := ∀ l, c.held l = false

/-- A call with locks. -/
abbrev LockM := EStateM Stop Cell

/-- `std::mutex::lock`. -/
def lock (l : Lock) : LockM Unit := do
  if (← get).held l then throw .blocked
  modify fun c => { c with held := Function.update c.held l true }

/-- `std::mutex::unlock`. -/
def unlock (l : Lock) : LockM Unit := modify fun c =>
  { c with held := Function.update c.held l false }

section Calls
variable (found : ℕ → FileSystem)

/-- A call to the file system. What it leaves is part of what the next one finds. -/
def onDisk {β : Type} (m : FsM β) : LockM β := fun c =>
  match m.run (found c.calls) with
  | .ok b _ => .ok b { c with calls := c.calls + 1 }
  | .error e _ => .error (.threw e) { c with calls := c.calls + 1 }

/-- **`Resource::setValue`**, with its locks. -/
def setValue (value : Str) : LockM Unit := do
  lock .valueLock
  modify fun c => { c with object := { c.object with value } }
  unlock .valueLock
  modify fun c => { c with object := c.object.notifyObservers }
  let r := (← get).object
  if r.dataFilePath ≠ [] then
    lock .dataFileLock
    onDisk found (writeFile r.dataFilePath (value.take r.value.length))
    let mtime ← onDisk found (lastWriteTime r.dataFilePath)
    modify fun c => { c with object := { c.object with dataFileWriteTime := mtime } }
    unlock .dataFileLock

/-- **`Resource::valueUpdate`**, with its locks. -/
def valueUpdate : LockM Unit := do
  let r := (← get).object
  if r.dataFilePath = [] then return
  if !(← onDisk found (fileExists r.dataFilePath)) then return
  let mtime ← onDisk found (lastWriteTime r.dataFilePath)
  if mtime ≤ r.dataFileWriteTime then return
  lock .dataFileLock
  let size ← onDisk found (fileSize r.dataFilePath)
  let data ← onDisk found (readInto size r.dataFilePath)
  lock .valueLock
  modify fun c => { c with object := { c.object with value := data } }
  unlock .valueLock
  modify fun c => { c with object := c.object.notifyObservers }
  modify fun c => { c with object := { c.object with dataFileWriteTime := mtime } }
  unlock .dataFileLock

/-- `ResourceMethod::executeCmd`. -/
def executeCmd (m : ResourceMethod) (env : ProcEnv) (call : ℕ) (data : Str) : LockM (ℤ × Str) := do
  let cmd := m.config.cmd
  match env.shell call cmd data (← get).object.getPath (methStringify m.getMethodType)
      (if m.config.cmdStdin then data else []) with
  | .threw => throw (.threw (.processError cmd))
  | .timedOut =>
    modify fun c => { c with stderr := c.stderr ++ [notExited cmd m.config.cmdTimeout] }
    return (-1, data)
  | .exited code out => return (code, firstLines out)

/-- The calls that the work on an item makes. -/
def lockOps (m : ResourceMethod) (env : ProcEnv) : ItemOps LockM :=
  { executeCmd := executeCmd m env
    setValue := setValue found
    writeOut := fun line => modify fun c => { c with stdout := c.stdout ++ [line] }
    writeLog := fun line => modify fun c => { c with log := c.log ++ [line] } }

/-- **`ResourceMethod::handleRequestQueueItem`**, with the locks of its resource. -/
def handleRequestQueueItem (m : ResourceMethod) (env : ProcEnv) (item : RequestQueueItem) :
    LockM ℤ := do
  handleItem (lockOps found m env) m (env.timestamp item.time) (← get).object.getPath item.data

end Calls

/-! ### What the calls compute -/

section Run
variable {c : Cell}

theorem lock_run {l : Lock} (h : c.held l = false) :
    (lock l).run c = .ok ⟨⟩ { c with held := Function.update c.held l true } := by
  simp only [lock, EStateM.run_bind, EStateM.run_get, h, Bool.false_eq_true, if_false,
    EStateM.run_modify]

theorem unlock_run (l : Lock) :
    (unlock l).run c = .ok ⟨⟩ { c with held := Function.update c.held l false } := rfl

/-- A lock that was free, taken and released. -/
theorem held_released {held : Lock → Bool} {l : Lock} (h : held l = false) :
    Function.update (Function.update held l true) l false = held := by
  rw [Function.update_idem, ← h, Function.update_eq_self]

variable {found : ℕ → FileSystem} {β : Type}

theorem onDisk_run (m : FsM β) : (onDisk found m).run c =
    match m.run (found c.calls) with
    | .ok b _ => .ok b { c with calls := c.calls + 1 }
    | .error e _ => .error (.threw e) { c with calls := c.calls + 1 } := rfl

/-- A write never throws. -/
theorem writeFile_returns (p content : Str) (fs : FileSystem) :
    ∃ fs', (writeFile p content).run fs = .ok ⟨⟩ fs' := by
  cases hw : fs.writable p with
  | true => exact ⟨_, writeFile_run hw content⟩
  | false => exact ⟨_, writeFile_denied hw content⟩

end Run

/-! ### The value -/

/-- The cell with another object, after calls to the file system. -/
def Cell.after (c : Cell) (r : Resource) (calls : ℕ) : Cell :=
  { c with object := r, calls := c.calls + calls }

section Value
variable {c : Cell} (hc : Released c) {found : ℕ → FileSystem} (value : Str)
include hc

/-- Without a data file. -/
theorem setValue_plain (hpath : c.object.dataFilePath = []) : (setValue found value).run c =
    .ok ⟨⟩ (c.after { c.object with value }.notifyObservers 0) := by
  have hnone : ({ c.object with value } : Resource).notifyObservers.dataFilePath = [] :=
    (newValue_same c.object value).dataFilePath.trans hpath
  simp only [setValue, EStateM.run_bind, lock_run (hc _), EStateM.run_modify, unlock_run,
    held_released (hc _), EStateM.run_get, hnone, ne_eq, not_true_eq_false, if_false,
    EStateM.run_pure, Cell.after, Nat.add_zero]

section DataFile
variable (hpath : c.object.dataFilePath ≠ [])
include hpath

/-- The part of `setValue` behind the write. -/
theorem setValue_steps : (setValue found value).run c =
    (do
      let mtime ← onDisk found (lastWriteTime c.object.dataFilePath)
      modify fun c => { c with object := { c.object with dataFileWriteTime := mtime } }
      unlock .dataFileLock : LockM Unit).run
      { c with
        object := { c.object with value }.notifyObservers
        held := Function.update c.held .dataFileLock true
        calls := c.calls + 1 } := by
  have hsame := newValue_same c.object value
  have hlock : ∀ object, (lock .dataFileLock).run { c with object := object } =
      .ok ⟨⟩ { c with object := object, held := Function.update c.held .dataFileLock true } :=
    fun object => lock_run (c := { c with object := object }) (hc _)
  obtain ⟨fs', hwrite⟩ := writeFile_returns c.object.dataFilePath value (found c.calls)
  simp only [setValue, EStateM.run_bind, lock_run (hc _), EStateM.run_modify, unlock_run,
    held_released (hc _), EStateM.run_get, ne_eq, hsame.dataFilePath, hpath, not_false_eq_true,
    if_true, hlock, notifyObservers_value, List.take_length, onDisk_run, hwrite]

/-- **The file is there** when its time is asked for. -/
theorem setValue_present {f : File}
    (hfile : (found (c.calls + 1)).files c.object.dataFilePath = some f) :
    (setValue found value).run c = .ok ⟨⟩ (c.after (c.object.synced value f.mtime) 2) := by
  rw [setValue_steps hc value hpath]
  simp only [EStateM.run_bind, onDisk_run, lastWriteTime_run hfile, EStateM.run_modify, unlock_run,
    held_released (hc _), Cell.after, Resource.synced]

/-- **The file is gone**: the lock stays taken. -/
theorem setValue_gone (hfile : (found (c.calls + 1)).files c.object.dataFilePath = none) :
    ∃ c', (setValue found value).run c =
      .error (.threw (.filesystemError c.object.dataFilePath)) c' ∧ c'.held .dataFileLock = true := by
  rw [setValue_steps hc value hpath]
  simp only [EStateM.run_bind, onDisk_run, lastWriteTime_absent hfile]
  exact ⟨_, rfl, Function.update_self Lock.dataFileLock true c.held⟩

end DataFile

/-- The file can be asked for its time. -/
def Saved (found : ℕ → FileSystem) (k : ℕ) (r : Resource) : Prop :=
  r.dataFilePath = [] ∨ (found k).files r.dataFilePath ≠ none

/-- The locks are released, and the object has at most another value. -/
def Rests (r : Resource) (c : Cell) : Prop := Released c ∧ SameObject r c.object

/-- **When `setValue` returns.** -/
theorem ends_setValue : Ends (setValue found value) c (Saved found (c.calls + 1) c.object)
    fun _ c' => Rests c.object c' := by
  by_cases hpath : c.object.dataFilePath = []
  · refine (Ends.of_run (setValue_plain hc value hpath) ⟨hc, newValue_same _ _⟩).congr ?_
    exact ⟨fun _ => Or.inl hpath, fun _ => trivial⟩
  · cases hfile : (found (c.calls + 1)).files c.object.dataFilePath with
    | some f =>
      have hsame : SameObject c.object (c.object.synced value f.mtime) :=
        (newValue_same c.object value).trans ⟨rfl, rfl, rfl, rfl⟩
      refine (Ends.of_run (setValue_present hc value hpath hfile) ⟨hc, hsame⟩).congr ?_
      exact ⟨fun _ => Or.inr (by rw [hfile]; rintro ⟨⟩), fun _ => trivial⟩
    | none =>
      obtain ⟨c', hrun, -⟩ := setValue_gone hc value hpath hfile
      refine (Ends.of_error hrun).congr ⟨False.elim, ?_⟩
      rintro (h | h)
      · exact hpath h
      · exact h hfile

/-- **On files that nobody else changes**, so that the second call finds what the write of the first
one has left, the call is that of the object. -/
theorem setValue_refines {fs fs' : FileSystem}
    (hwrite : (writeFile c.object.dataFilePath value).run fs = .ok ⟨⟩ fs')
    (h₁ : found (c.calls + 1) = fs') :
    match (c.object.setValue value).run fs with
    | .ok r _ => ∃ n, (setValue found value).run c = .ok ⟨⟩ (c.after r n)
    | .error e _ => ∃ c', (setValue found value).run c = .error (.threw e) c' := by
  by_cases hpath : c.object.dataFilePath = []
  · rw [setValue_noFile hpath]
    exact ⟨0, setValue_plain hc value hpath⟩
  · cases hw : fs.writable c.object.dataFilePath with
    | true =>
      rw [writeFile_run hw] at hwrite
      obtain ⟨-, rfl⟩ := EStateM.Result.ok.inj hwrite
      rw [setValue_run hpath hw]
      refine ⟨2, setValue_present hc value hpath (f := ⟨value, fs.clock⟩) ?_⟩
      rw [h₁, put_files_self]
    | false =>
      rw [writeFile_denied hw] at hwrite
      obtain ⟨-, rfl⟩ := EStateM.Result.ok.inj hwrite
      cases hfile : fs.files c.object.dataFilePath with
      | some f =>
        rw [setValue_denied hpath hw hfile]
        exact ⟨2, setValue_present hc value hpath (by rw [h₁, hfile])⟩
      | none =>
        rw [setValue_throws hpath hw hfile]
        have hnone : (found (c.calls + 1)).files c.object.dataFilePath = none := by rw [h₁, hfile]
        obtain ⟨c', hrun, -⟩ := setValue_gone hc value hpath hnone
        exact ⟨c', hrun⟩

end Value

/-! ### A poll -/

/-- **The poll finds the file wherever it needs it**: there is none to begin with, or it is there for
its time, and if that is new, for its size. -/
def Polled (found : ℕ → FileSystem) (k : ℕ) (r : Resource) : Prop :=
  r.dataFilePath = [] ∨ (found k).files r.dataFilePath = none ∨
    ∃ f, (found (k + 1)).files r.dataFilePath = some f ∧
      (f.mtime ≤ r.dataFileWriteTime ∨ (found (k + 2)).files r.dataFilePath ≠ none)

section Poll
variable {c : Cell} (hc : Released c) {found : ℕ → FileSystem}

theorem valueUpdate_plain (hpath : c.object.dataFilePath = []) :
    (valueUpdate found).run c = .ok ⟨⟩ c := by
  simp only [valueUpdate, EStateM.run_bind, EStateM.run_get, if_pos hpath, EStateM.run_pure]

section DataFile
variable (hpath : c.object.dataFilePath ≠ [])
include hpath

/-- There is no file to poll. -/
theorem valueUpdate_none (hfile : (found c.calls).files c.object.dataFilePath = none) :
    (valueUpdate found).run c = .ok ⟨⟩ (c.after c.object 1) := by
  simp only [valueUpdate, EStateM.run_bind, EStateM.run_get, if_neg hpath, onDisk_run,
    fileExists_run, hfile, Option.isSome_none, Bool.not_false, if_true, EStateM.run_pure, Cell.after]

section Present
variable {f₀ : File} (hfile₀ : (found c.calls).files c.object.dataFilePath = some f₀)
include hfile₀

/-- The file is gone before it is asked for its time. -/
theorem valueUpdate_gone (hfile : (found (c.calls + 1)).files c.object.dataFilePath = none) :
    ∃ c', (valueUpdate found).run c =
      .error (.threw (.filesystemError c.object.dataFilePath)) c' := by
  simp only [valueUpdate, EStateM.run_bind, EStateM.run_get, if_neg hpath, onDisk_run,
    fileExists_run, hfile₀, Option.isSome_some, Bool.not_true, Bool.false_eq_true, if_false,
    lastWriteTime_absent hfile]
  exact ⟨_, rfl⟩

variable {f : File} (hfile : (found (c.calls + 1)).files c.object.dataFilePath = some f)
include hfile

/-- The file is not new. -/
theorem valueUpdate_old (hle : f.mtime ≤ c.object.dataFileWriteTime) :
    (valueUpdate found).run c = .ok ⟨⟩ (c.after c.object 2) := by
  simp only [valueUpdate, EStateM.run_bind, EStateM.run_get, if_neg hpath, onDisk_run,
    fileExists_run, hfile₀, Option.isSome_some, Bool.not_true, Bool.false_eq_true, if_false,
    lastWriteTime_run hfile, if_pos hle, EStateM.run_pure, Cell.after]

variable (hlt : c.object.dataFileWriteTime < f.mtime)
include hc hlt

/-- **A new file is gone** before it is asked for its size: the lock stays taken. -/
theorem valueUpdate_sizeless
    (hsize : (found (c.calls + 2)).files c.object.dataFilePath = none) : ∃ c',
      (valueUpdate found).run c =
        .error (.threw (.filesystemError c.object.dataFilePath)) c' ∧
        c'.held .dataFileLock = true := by
  have hlock : (lock .dataFileLock).run (c.after c.object 2) =
      .ok ⟨⟩ { c.after c.object 2 with held := Function.update c.held .dataFileLock true } :=
    lock_run (c := c.after c.object 2) (hc _)
  simp only [Cell.after] at hlock
  simp only [valueUpdate, EStateM.run_bind, EStateM.run_get, if_neg hpath, onDisk_run,
    fileExists_run, hfile₀, Option.isSome_some, Bool.not_true, Bool.false_eq_true, if_false,
    lastWriteTime_run hfile, if_neg (Int.not_le.mpr hlt), Nat.add_assoc, Nat.reduceAdd, hlock,
    fileSize_absent hsize]
  exact ⟨_, rfl, Function.update_self Lock.dataFileLock true c.held⟩

/-- A new file is read. -/
theorem valueUpdate_new {f₂ : File}
    (hsize : (found (c.calls + 2)).files c.object.dataFilePath = some f₂) :
    (valueUpdate found).run c = .ok ⟨⟩ (c.after (c.object.synced
      ((found (c.calls + 3)).bytes f₂.content.length c.object.dataFilePath) f.mtime) 4) := by
  have hlock : (lock .dataFileLock).run (c.after c.object 2) =
      .ok ⟨⟩ { c.after c.object 2 with held := Function.update c.held .dataFileLock true } :=
    lock_run (c := c.after c.object 2) (hc _)
  have hvalue : ∀ calls, (lock .valueLock).run
      { c with held := Function.update c.held .dataFileLock true, calls := calls } =
        .ok ⟨⟩ { c with
          held := Function.update (Function.update c.held .dataFileLock true) .valueLock true
          calls := calls } := by
    intro calls
    refine lock_run
      (c := { c with held := Function.update c.held .dataFileLock true, calls := calls }) ?_
    show Function.update c.held .dataFileLock true .valueLock = false
    rw [Function.update_of_ne (by rintro ⟨⟩)]
    exact hc _
  have hheld : Function.update (Function.update (Function.update (Function.update c.held
      .dataFileLock true) .valueLock true) .valueLock false) .dataFileLock false = c.held := by
    rw [held_released, held_released (hc _)]
    rw [Function.update_of_ne (by rintro ⟨⟩)]
    exact hc _
  simp only [Cell.after] at hlock
  simp only [valueUpdate, EStateM.run_bind, EStateM.run_get, if_neg hpath, onDisk_run,
    fileExists_run, hfile₀, Option.isSome_some, Bool.not_true, Bool.false_eq_true, if_false,
    lastWriteTime_run hfile, if_neg (Int.not_le.mpr hlt), Nat.add_assoc, Nat.reduceAdd, hlock,
    fileSize_run hsize, readInto_run, hvalue, EStateM.run_modify, unlock_run, hheld, Cell.after,
    Resource.synced]

end Present

end DataFile

include hc in
/-- **When `valueUpdate` returns.** -/
theorem ends_valueUpdate : Ends (valueUpdate found) c (Polled found c.calls c.object)
    fun _ c' => Rests c.object c' := by
  have hsame : SameObject c.object c.object := ⟨rfl, rfl, rfl, rfl⟩
  by_cases hpath : c.object.dataFilePath = []
  · refine (Ends.of_run (valueUpdate_plain hpath) ⟨hc, hsame⟩).congr ?_
    exact ⟨fun _ => Or.inl hpath, fun _ => trivial⟩
  cases hfile₀ : (found c.calls).files c.object.dataFilePath with
  | none =>
    refine (Ends.of_run (valueUpdate_none hpath hfile₀) ⟨hc, hsame⟩).congr ?_
    exact ⟨fun _ => Or.inr (Or.inl hfile₀), fun _ => trivial⟩
  | some f₀ =>
    have hpolled : Polled found c.calls c.object ↔
        ∃ f, (found (c.calls + 1)).files c.object.dataFilePath = some f ∧
          (f.mtime ≤ c.object.dataFileWriteTime ∨
            (found (c.calls + 2)).files c.object.dataFilePath ≠ none) := by
      rw [Polled, hfile₀]
      simp [hpath]
    cases hfile : (found (c.calls + 1)).files c.object.dataFilePath with
    | none =>
      obtain ⟨c', hrun⟩ := valueUpdate_gone hpath hfile₀ hfile
      refine (Ends.of_error hrun).congr ?_
      rw [hpolled, hfile]
      simp
    | some f =>
      rw [hfile] at hpolled
      by_cases hle : f.mtime ≤ c.object.dataFileWriteTime
      · refine (Ends.of_run (valueUpdate_old hpath hfile₀ hfile hle) ⟨hc, hsame⟩).congr ?_
        exact ⟨fun _ => hpolled.mpr ⟨f, rfl, Or.inl hle⟩, fun _ => trivial⟩
      have hlt : c.object.dataFileWriteTime < f.mtime := Int.not_le.mp hle
      cases hsize : (found (c.calls + 2)).files c.object.dataFilePath with
      | none =>
        obtain ⟨c', hrun, -⟩ := valueUpdate_sizeless hc hpath hfile₀ hfile hlt hsize
        refine (Ends.of_error hrun).congr ?_
        rw [hpolled, hsize]
        simp [hle]
      | some f₂ =>
        have hnew : SameObject c.object (c.object.synced
            ((found (c.calls + 3)).bytes f₂.content.length c.object.dataFilePath) f.mtime) :=
          (newValue_same _ _).trans ⟨rfl, rfl, rfl, rfl⟩
        refine (Ends.of_run (valueUpdate_new hc hpath hfile₀ hfile hlt hsize) ⟨hc, hnew⟩).congr ?_
        exact ⟨fun _ => hpolled.mpr ⟨f, rfl, Or.inr (by rw [hsize]; rintro ⟨⟩)⟩, fun _ => trivial⟩

include hc in
/-- On files that nobody else changes the poll is that of the object. -/
theorem valueUpdate_refines {fs : FileSystem} (h : ∀ k, found k = fs) :
    ∃ r n, c.object.valueUpdate.run fs = .ok r fs ∧
      (valueUpdate found).run c = .ok ⟨⟩ (c.after r n) := by
  by_cases hpath : c.object.dataFilePath = []
  · refine ⟨c.object, 0, ?_, valueUpdate_plain hpath⟩
    simp only [Resource.valueUpdate, if_pos hpath, EStateM.run_pure]
  cases hfile : fs.files c.object.dataFilePath with
  | none =>
    exact ⟨c.object, 1, valueUpdate_absent hpath hfile, valueUpdate_none hpath (by rw [h, hfile])⟩
  | some f =>
    have hfound : ∀ k, (found k).files c.object.dataFilePath = some f := fun k => by rw [h, hfile]
    by_cases hle : f.mtime ≤ c.object.dataFileWriteTime
    · exact ⟨c.object, 2, Resources.Object.valueUpdate_old hpath hfile hle,
        valueUpdate_old hpath (hfound _) (hfound _) hle⟩
    · have hlt := Int.not_le.mp hle
      refine ⟨c.object.synced (fs.seen c.object.dataFilePath f) f.mtime, 4,
        Resources.Object.valueUpdate_new hpath hfile hlt, ?_⟩
      rw [valueUpdate_new hc hpath (hfound _) (hfound _) hlt (hfound _), h (c.calls + 3),
        bytes_size hfile]

end Poll

/-! ### When the work on an item returns -/

/-- The calls that the work on an item makes return under conditions; `rest b` holds between them,
where `b` says if the value was set. -/
structure Stages {ε σ : Type} (ops : ItemOps (EStateM ε σ)) (rest : Bool → σ → Prop)
    (launches : ℕ → Str → Prop) (saves : Prop) : Prop where
  executeCmd : ∀ b k data s, rest b s →
    Ends (ops.executeCmd k data) s (launches k data) fun _ => rest b
  setValue : ∀ value s, rest false s → Ends (ops.setValue value) s saves fun _ => rest true
  writeOut : ∀ b line s, rest b s → Ends (ops.writeOut line) s True fun _ => rest b
  writeLog : ∀ b line s, rest b s → Ends (ops.writeLog line) s True fun _ => rest b

/-- **Every command is launched**, for the formatters from number `k` on. -/
def Launched (launches : ℕ → Str → Prop) (m : ResourceMethod) (data : Str) (k : ℕ)
    (fmts : List Format) : Prop :=
  m.config.cmd ≠ [] → ∀ p ∈ fmts.zipIdx k, launches p.2 (p.1.decode data)

/-- **An item does not fail**: its commands are launched, and the value it sets is saved. -/
def Sound (launches : ℕ → Str → Prop) (saves : Prop) (m : ResourceMethod) (data : Str) : Prop :=
  Queueable m.getMethodType → Launched launches m data 0 m.fmts ∧ (Sets m → saves)

section Stages
variable {ε σ : Type} {ops : ItemOps (EStateM ε σ)} {rest : Bool → σ → Prop}
  {launches : ℕ → Str → Prop} {saves : Prop} (h : Stages ops rest launches saves)
  (m : ResourceMethod)

theorem launched_cons (data : Str) (k : ℕ) (fmt : Format) (fmts : List Format) :
    Launched launches m data k (fmt :: fmts) ↔
      (m.config.cmd ≠ [] → launches k (fmt.decode data)) ∧ Launched launches m data (k + 1) fmts := by
  unfold Launched
  rw [← imp_and, List.zipIdx_cons, List.forall_mem_cons]

include h

theorem ends_formatItem (data : Str) (fmt : Format) (k : ℕ) {b : Bool} {s : σ} (hs : rest b s) :
    Ends (formatItem ops m data fmt k) s (m.config.cmd ≠ [] → launches k (fmt.decode data))
      fun _ => rest b := by
  refine Ends.ite (fun hcmd => ?_) fun hcmd => ?_
  · refine ((h.executeCmd b k (fmt.decode data) s hs).bind fun ret s' hs' => ?_).congr
      (C := _ ∧ True) ?_
    · exact Ends.pure hs'
    · rw [and_true, forall_prop_of_true hcmd]
  · refine (Ends.pure (Q := fun _ => rest b) hs).congr ?_
    exact ⟨fun _ hne => absurd hne hcmd, fun _ => trivial⟩

/-- The loop over the formatters, where it does not store. -/
theorem ends_formatLoop (data : Str) (fmts : List Format) : ∀ (k : ℕ) (sss : List Str) {b : Bool}
    {s : σ}, rest b s → (m.getMethodType = .get → m.config.store = true → 0 < k) →
    Ends (formatLoop ops m data fmts k sss) s (Launched launches m data k fmts)
      fun _ => rest b := by
  induction fmts with
  | nil =>
    intro k sss b s hs _
    refine (Ends.pure (Q := fun _ => rest b) hs).congr ?_
    simp [Launched]
  | cons fmt fmts ih =>
    intro k sss b s hs hk
    have hstore : ∀ streams, storeFirst ops m k streams = pure ⟨⟩ := by
      intro streams
      refine if_neg ?_
      rintro ⟨hget, hstore, rfl⟩
      exact absurd (hk hget hstore) (Nat.lt_irrefl 0)
    rw [launched_cons]
    refine (ends_formatItem h m data fmt k hs).bind fun streams s' hs' => ?_
    rw [hstore]
    exact Ends.step rfl (ih (k + 1) _ hs' fun _ _ => Nat.succ_pos k)

/-- The first value of a `GET` is stored. -/
theorem ends_storeFirst (hget : m.getMethodType = .get) (streams : List Str) {s : σ}
    (hs : rest false s) : Ends (storeFirst ops m 0 streams) s (m.config.store = true → saves)
      fun _ s' => ∃ b, rest b s' := by
  refine Ends.ite (fun hstore => ?_) fun hstore => ?_
  · refine ((h.setValue _ s hs).mono fun _ _ hs' => ⟨true, hs'⟩).congr ?_
    rw [forall_prop_of_true hstore.2.1]
  · refine (Ends.pure ⟨false, hs⟩).congr ?_
    exact ⟨fun _ hset => absurd ⟨hget, hset, rfl⟩ hstore, fun _ => trivial⟩

/-- The data of a `PUT` or `POST` is stored. -/
theorem ends_storeData (data : Str) {s : σ} (hs : rest false s) :
    Ends (storeData ops m data) s (m.config.store = true → saves) fun _ s' => ∃ b, rest b s' := by
  refine Ends.ite (fun hstore => ?_) fun hstore => ?_
  · refine ((h.setValue _ s hs).mono fun _ _ hs' => ⟨true, hs'⟩).congr ?_
    rw [forall_prop_of_true hstore]
  · refine (Ends.pure ⟨false, hs⟩).congr ?_
    exact ⟨fun _ hset => absurd hset hstore, fun _ => trivial⟩

/-- **When the work on an item returns**, up to its lines. -/
theorem ends_processItem (data : Str) {s : σ} (hs : rest false s) :
    Ends (processItem ops m data) s (Sound launches saves m data) fun _ s' => ∃ b, rest b s' := by
  by_cases hqueue : Queueable m.getMethodType
  · by_cases hget : m.getMethodType = .get
    · rw [processItem_get ops m hget]
      cases hfmts : m.fmts with
      | nil =>
        refine (Ends.pure ⟨false, hs⟩).congr ⟨fun _ _ => ⟨?_, fun hsets => ?_⟩, fun _ => trivial⟩
        · rw [hfmts]
          simp [Launched]
        · exact absurd hfmts (hsets.2 hget)
      | cons fmt fmts =>
        have hloop : Ends (formatLoop ops m data (fmt :: fmts) 0 []) s
            ((m.config.cmd ≠ [] → launches 0 (fmt.decode data)) ∧
              (m.config.store = true → saves) ∧ Launched launches m data 1 fmts)
            fun _ s' => ∃ b, rest b s' := by
          refine (ends_formatItem h m data fmt 0 hs).bind fun streams s₁ hs₁ => ?_
          refine (ends_storeFirst h m hget streams hs₁).bind fun _ s₂ hs₂ => ?_
          obtain ⟨b, hs₂⟩ := hs₂
          exact (ends_formatLoop h m data fmts 1 _ hs₂ fun _ _ => Nat.one_pos).mono
            fun _ _ hs₃ => ⟨b, hs₃⟩
        refine hloop.congr ?_
        have hsets : Sets m ↔ m.config.store = true := by simp [Sets, hfmts]
        rw [Sound, forall_prop_of_true hqueue, hsets, hfmts, launched_cons]
        tauto
    · have hsets : Sets m ↔ m.config.store = true := by simp [Sets, hget]
      rw [processItem_body ops m (hqueue.resolve_left hget), Sound, hsets]
      refine Ends.congr (C := Launched launches m data 0 m.fmts ∧
        (m.config.store = true → saves) ∧ True) ?_ ?_
      · refine (ends_formatLoop h m data m.fmts 0 [] hs fun ht => absurd ht hget).bind
          fun sss s₁ hs₁ => ?_
        exact (ends_storeData h m data hs₁).bind fun _ s₂ hs₂ => Ends.pure hs₂
      · rw [and_true, forall_prop_of_true hqueue]
  · have hprocess : processItem ops m data = pure [] := by
      unfold processItem
      split
      · next ht => exact absurd (Or.inl ht) hqueue
      · next ht => exact absurd (Or.inr (Or.inl ht)) hqueue
      · next ht => exact absurd (Or.inr (Or.inr ht)) hqueue
      all_goals rfl
    rw [hprocess]
    refine (Ends.pure ⟨false, hs⟩).congr ?_
    exact ⟨fun _ ht => absurd ht hqueue, fun _ => trivial⟩

theorem ends_writeValues (pre : Str) (sss : List Str) : ∀ {b : Bool} {s : σ}, rest b s →
    Ends (writeValues ops m pre sss) s True fun _ => rest b := by
  induction sss with
  | nil => exact fun hs => Ends.pure hs
  | cons ss sss ih =>
    intro b s hs
    have hprint : Ends (printLine ops m (pre ++ ss)) s True fun _ => rest b :=
      Ends.ite (fun _ => h.writeOut b _ s hs) fun _ => Ends.pure hs
    refine Ends.congr (C := True ∧ True ∧ True) ?_ (by simp)
    refine hprint.bind fun _ s₁ hs₁ => ?_
    have hlog : Ends (logLine ops m (pre ++ ss)) s₁ True fun _ => rest b :=
      Ends.ite (fun _ => h.writeLog b _ s₁ hs₁) fun _ => Ends.pure hs₁
    exact hlog.bind fun _ s₂ hs₂ => ih hs₂

/-- **When the work on an item returns.** -/
theorem ends_handleItem (timestamp path data : Str) {s : σ} (hs : rest false s) :
    Ends (handleItem ops m timestamp path data) s (Sound launches saves m data)
      fun _ s' => ∃ b, rest b s' := by
  refine Ends.congr (C := Sound launches saves m data ∧ True ∧ True) ?_ (by simp)
  refine (ends_processItem h m data hs).bind fun sss s₁ hs₁ => ?_
  obtain ⟨b, hs₁⟩ := hs₁
  exact (ends_writeValues h m _ sss hs₁).bind fun _ s₂ hs₂ => Ends.pure ⟨b, hs₂⟩

end Stages

/-- The command is launched. -/
def Launches (env : ProcEnv) (r : Resource) (m : ResourceMethod) (call : ℕ) (data : Str) : Prop :=
  env.shell call m.config.cmd data r.getPath (methStringify m.getMethodType)
    (if m.config.cmdStdin then data else []) ≠ .threw

/-- Between the calls of an item; the files are not touched before the value is set. -/
def RestsIn (r : Resource) (b : Bool) (c : Cell) : Prop := Rests r c ∧ (b = false → c.calls = 0)

/-- **The calls that an item makes**, with locks. -/
theorem lockOps_stages (found : ℕ → FileSystem) (m : ResourceMethod) (env : ProcEnv)
    (r : Resource) :
    Stages (lockOps found m env) (RestsIn r) (Launches env r m) (Saved found 1 r) := by
  constructor
  · rintro b k data c hc
    have hpath : c.object.getPath = r.getPath := congrArg ResourceConfig.resourcePath hc.1.2.config
    cases hshell : env.shell k m.config.cmd data r.getPath (methStringify m.getMethodType)
        (if m.config.cmdStdin then data else []) with
    | threw =>
      have hrun : ((lockOps found m env).executeCmd k data).run c =
          .error (.threw (.processError m.config.cmd)) c := by
        simp only [lockOps, executeCmd, EStateM.run_bind, EStateM.run_get, hpath, hshell]
        rfl
      exact (Ends.of_error hrun).congr ⟨False.elim, fun h => h hshell⟩
    | timedOut =>
      have hrun : ((lockOps found m env).executeCmd k data).run c = .ok (-1, data)
          { c with stderr := c.stderr ++ [notExited m.config.cmd m.config.cmdTimeout] } := by
        simp only [lockOps, executeCmd, EStateM.run_bind, EStateM.run_get, hpath, hshell,
          EStateM.run_modify, EStateM.run_pure]
      refine (Ends.of_run (Q := fun _ => RestsIn r b) hrun hc).congr ?_
      exact ⟨fun _ => by rw [Launches, hshell]; rintro ⟨⟩, fun _ => trivial⟩
    | exited code out =>
      have hrun : ((lockOps found m env).executeCmd k data).run c =
          .ok (code, firstLines out) c := by
        simp only [lockOps, executeCmd, EStateM.run_bind, EStateM.run_get, hpath, hshell,
          EStateM.run_pure]
      refine (Ends.of_run (Q := fun _ => RestsIn r b) hrun hc).congr ?_
      exact ⟨fun _ => by rw [Launches, hshell]; rintro ⟨⟩, fun _ => trivial⟩
  · rintro value c ⟨⟨hc, hsame⟩, hcalls⟩
    have hset := @ends_setValue c hc found value
    rw [hcalls rfl, Nat.zero_add] at hset
    refine (hset.mono fun _ c' hc' => ?_).congr ?_
    · exact ⟨⟨hc'.1, hsame.trans hc'.2⟩, by rintro ⟨⟩⟩
    · rw [Saved, Saved, hsame.dataFilePath]
  · exact fun b line c hc => Ends.of_run rfl hc
  · exact fun b line c hc => Ends.of_run rfl hc

/-- **When `handleRequestQueueItem` returns**, and that it leaves both locks released. -/
theorem ends_handleRequestQueueItem {c : Cell} (hc : Released c) (hcalls : c.calls = 0)
    (found : ℕ → FileSystem) (m : ResourceMethod) (env : ProcEnv) (item : RequestQueueItem) :
    Ends (handleRequestQueueItem found m env item) c
      (Sound (Launches env c.object m) (Saved found 1 c.object) m item.data)
      fun _ c' => Rests c.object c' := by
  have hrest : RestsIn c.object false c := ⟨⟨hc, ⟨rfl, rfl, rfl, rfl⟩⟩, fun _ => hcalls⟩
  refine Ends.step rfl ?_
  refine (ends_handleItem (lockOps_stages found m env c.object) m _ _ item.data hrest).mono ?_
  rintro _ c' ⟨b, hrest', -⟩
  exact hrest'

/-! ### The threads -/

/-- A call of one of the threads: an item, or a poll of the resource at `i`. -/
inductive Label where
  | item (item : RequestQueueItem) (env : ProcEnv) (found : ℕ → FileSystem)
  | poll (i : ℕ) (found : ℕ → FileSystem)

/-- What a call leaves; `none` where it does not return, which ends its thread. -/
def returned {β : Type} (m : LockM β) (c : Cell) : Option Cell :=
  match m.run { c with calls := 0 } with
  | .ok _ c' => some c'
  | .error _ _ => none

/-- **The step**: a call on one of the resources. -/
def step (cells : List Cell) : Label → Option (List Cell)
  | .item item env found => do
    let c ← cells[item.src.resource]?
    let m ← c.object.methods[item.src.method]?
    let c' ← returned (handleRequestQueueItem found m env item) c
    return cells.set item.src.resource c'
  | .poll i found => do
    let c ← cells[i]?
    let c' ← returned (valueUpdate found) c
    return cells.set i c'

/-- The resource of the call, and the method, are there. -/
def Addressed (cells : List Cell) : Label → Prop
  | .item item _ _ => ∃ c m, cells[item.src.resource]? = some c ∧
      c.object.methods[item.src.method]? = some m
  | .poll i _ => ∃ c, cells[i]? = some c

/-- **The call does not fail**: the commands of an item are launched, and a data file is there
wherever it is asked for its time or its size. -/
def SoundStep (cells : List Cell) : Label → Prop
  | .item item env found => ∀ c m, cells[item.src.resource]? = some c →
      c.object.methods[item.src.method]? = some m →
      Sound (Launches env c.object m) (Saved found 1 c.object) m item.data
  | .poll i found => ∀ c, cells[i]? = some c → Polled found 0 c.object

/-- All locks are released. -/
def AllReleased (cells : List Cell) : Prop := ∀ c ∈ cells, Released c

section Returned
variable {c : Cell} {β : Type} {x : LockM β} {ok : Prop}
  (hx : Ends x { c with calls := 0 } ok fun _ c' => Rests c.object c')
include hx

theorem returned_ok (hok : ok) : ∃ c', returned x c = some c' ∧ Rests c.object c' := by
  obtain ⟨b, c', hrun, hrest⟩ := hx.returns hok
  exact ⟨c', by rw [returned, hrun], hrest⟩

theorem returned_fails (hok : ¬ ok) : returned x c = none := by
  obtain ⟨e, c', hrun⟩ := hx.throws hok
  rw [returned, hrun]

end Returned

section Step
variable {cells : List Cell} (h : AllReleased cells)
include h

theorem released_set {i : ℕ} {c : Cell} (hc : Released c) : AllReleased (cells.set i c) := by
  intro d hd
  rcases List.mem_or_eq_of_mem_set hd with hd | rfl
  · exact h d hd
  · exact hc

/-- **The step**: a call returns exactly if it does not fail, and all locks are released then. -/
theorem step_ends {l : Label} (hl : Addressed cells l) :
    (SoundStep cells l → ∃ cells', step cells l = some cells' ∧ AllReleased cells') ∧
      (¬ SoundStep cells l → step cells l = none) := by
  cases l with
  | item item env found =>
    obtain ⟨c, m, hc, hm⟩ := hl
    have hfree : Released { c with calls := 0 } := h c (List.mem_of_getElem? hc)
    have hends := ends_handleRequestQueueItem hfree rfl found m env item
    have hsound : SoundStep cells (.item item env found) ↔
        Sound (Launches env c.object m) (Saved found 1 c.object) m item.data := by
      refine ⟨fun hs => hs c m hc hm, fun hs c' m' hc' hm' => ?_⟩
      obtain rfl := Option.some.inj (hc.symm.trans hc')
      obtain rfl := Option.some.inj (hm.symm.trans hm')
      exact hs
    rw [hsound]
    constructor
    · intro hok
      obtain ⟨c', hret, hrest⟩ := returned_ok hends hok
      refine ⟨cells.set item.src.resource c', ?_, released_set h hrest.1⟩
      simp only [step, hc, hm, hret, Option.bind_eq_bind, Option.bind_some, Option.pure_def]
    · intro hok
      simp only [step, hc, hm, returned_fails hends hok, Option.bind_eq_bind, Option.bind_some,
        Option.bind_none]
  | poll i found =>
    obtain ⟨c, hc⟩ := hl
    have hfree : Released { c with calls := 0 } := h c (List.mem_of_getElem? hc)
    have hends := @ends_valueUpdate { c with calls := 0 } hfree found
    have hsound : SoundStep cells (.poll i found) ↔ Polled found 0 c.object := by
      simp only [SoundStep, hc, Option.some.injEq, forall_eq']
    rw [hsound]
    constructor
    · intro hok
      obtain ⟨c', hret, hrest⟩ := returned_ok hends hok
      refine ⟨cells.set i c', ?_, released_set h hrest.1⟩
      simp only [step, hc, hret, Option.bind_eq_bind, Option.bind_some, Option.pure_def]
    · intro hok
      simp only [step, hc, returned_fails hends hok, Option.bind_eq_bind, Option.bind_some,
        Option.bind_none]

omit h in
/-- A call that returns is one of a resource that is there. -/
theorem addressed_of_step {l : Label} {cells' : List Cell} (hs : step cells l = some cells') :
    Addressed cells l := by
  cases l with
  | item item env found =>
    simp only [step, Option.bind_eq_bind, Option.bind_eq_some_iff] at hs
    obtain ⟨c, hc, m, hm, -⟩ := hs
    exact ⟨c, m, hc, hm⟩
  | poll i found =>
    simp only [step, Option.bind_eq_bind, Option.bind_eq_some_iff] at hs
    obtain ⟨c, hc, -⟩ := hs
    exact ⟨c, hc⟩

end Step

/-- **The threads go on exactly while no call fails.** Whatever calls returned before, for every
resource, item and poll, however the commands end that are launched (`CmdResult`) and whatever the
calls find of the files: all locks are released, and the next call returns with all locks released if
and only if the commands that it runs are launched and the data file is there wherever the call asks
for its time or its size. -/
theorem survives_iff_sound {cells₀ cells : List Cell} (h₀ : AllReleased cells₀)
    (hrun : Reach step cells₀ cells) : AllReleased cells ∧ ∀ l, Addressed cells l →
      ((∃ cells', step cells l = some cells' ∧ AllReleased cells') ↔ SoundStep cells l) := by
  have hreleased : AllReleased cells := by
    refine Runs.invariant (P := AllReleased) ?_ hrun h₀
    intro s l s' h _ hs
    obtain ⟨hok, hfails⟩ := step_ends h (addressed_of_step hs)
    by_cases hsound : SoundStep s l
    · obtain ⟨s₁, hs₁, h₁⟩ := hok hsound
      obtain rfl := Option.some.inj (hs.symm.trans hs₁)
      exact h₁
    · rw [hfails hsound] at hs
      cases hs
  refine ⟨hreleased, fun l hl => ⟨?_, (step_ends hreleased hl).1⟩⟩
  rintro ⟨cells', hs, -⟩
  by_contra hsound
  rw [(step_ends hreleased hl).2 hsound] at hs
  cases hs

/-! ### A data file that is gone -/

/-- A resource with a data file and a storing `PUT`. -/
def savedResource : Resource :=
  { config := { resourcePath := str "val", dataFile := str "data/val" }
    methods := [⟨{ type := .put, store := true }, []⟩]
    value := []
    logFile := none
    dataFilePath := str "data/val"
    dataFileWriteTime := 0 }

/-- Its cell, before the first call. -/
def savedCell : Cell :=
  { object := savedResource, held := fun _ => false, calls := 0, stdout := [], stderr := []
    log := [] }

theorem savedCell_released : AllReleased [savedCell] := by
  intro c hc
  obtain rfl := List.mem_singleton.mp hc
  exact fun _ => rfl

/-- Every call finds the same files. -/
def steady (file : Option File) (_ : ℕ) : FileSystem :=
  { files := fun _ => file, clock := 0, writable := fun _ => false, creatable := fun _ => false
    opened := [], created := [] }

/-- A method without a command. -/
def noCommand : ProcEnv :=
  { localtime := fun _ => Timestamps.epoch, shell := fun _ _ _ _ _ _ => .exited 0 [] }

/-- A write of one byte. -/
def savedItem : RequestQueueItem := ⟨⟨0, 0⟩, [7], ⟨0, 0⟩⟩

theorem survives_iff_sound_val : ∃ cells',
    step [savedCell] (.item savedItem noCommand (steady (some ⟨[], 0⟩))) = some cells' ∧
      AllReleased cells' := by
  refine ((survives_iff_sound savedCell_released (Runs.refl _)).2
    (.item savedItem noCommand (steady (some ⟨[], 0⟩))) ⟨savedCell, _, rfl, rfl⟩).mpr ?_
  rintro c m ⟨⟩ ⟨⟩ -
  refine ⟨fun hcmd => absurd rfl hcmd, fun _ => Or.inr ?_⟩
  rintro ⟨⟩

/-- **A data file that cannot be created** ends the queue thread. -/
theorem saved_ends_thread : ¬ ∀ (cells₀ cells : List Cell) (l : Label), AllReleased cells₀ →
    Reach step cells₀ cells → Addressed cells l →
    ∃ cells', step cells l = some cells' ∧ AllReleased cells' := by
  intro h
  obtain ⟨cells', hs, -⟩ := h [savedCell] [savedCell] (.item savedItem noCommand (steady none))
    savedCell_released (Runs.refl _) ⟨savedCell, _, rfl, rfl⟩
  have hnone : step [savedCell] (.item savedItem noCommand (steady none)) = none := rfl
  rw [hnone] at hs
  cases hs

end CoapServer.Server.Locks
