import CoapServer.Lib.Erasure
import CoapServer.Server.Timestamps

/-! # Processing a queued request

`handleRequestQueueItem` formats the data of an item, runs the command of its method on the result,
stores the value, and prints and logs. Which commands there are is up to the environment (`ProcEnv`).
On a resource without a data file, and a `GET` method that does not store, only the value of a
storing `PUT` or `POST` changes the data of the server (`handleRequestQueueItem_run`): everything
else goes to the files and the standard streams (`OutputsOnly`). -/

namespace CoapServer.Server.Process

open CoapServer.Basic CoapServer.Config CoapServer.Lib.Frame CoapServer.Lib.Erasure
open CoapServer.Resources.Files CoapServer.Resources.Formatter
open CoapServer.Resources.Object CoapServer.Queue.Sequential CoapServer.Server.World
open CoapServer.Server.Timestamps (Tm)

/-- How a command ends: it cannot be launched, runs longer than allowed, or exits. One that is launched
is taken to read its standard input, to close its standard output, and to end or to be killed when its
time is over, so that `executeCmd` waits for none for ever. -/
inductive CmdResult where
  | threw
  | timedOut
  | exited (code : ℤ) (stdout : Str)

/-- What the processing of an item finds around it: `localtime`, and the commands, by the number of the
call, the command line, the variables `COAPSERVER_PAYLOAD`, `COAPSERVER_RESOURCE` and
`COAPSERVER_METHOD`, and the standard input. -/
structure ProcEnv where
  localtime : ℕ → Tm
  shell : ℕ → Str → Str → Str → Str → Str → CmdResult

/-- What is in `timebuf` for the time of an item. -/
def ProcEnv.timestamp (env : ProcEnv) (t : Time) : Str := Timestamps.timestamp env.localtime t

/-- Launching a command does not throw. -/
def ProcEnv.Launches (env : ProcEnv) : Prop :=
  ∀ call cmd payload resource method stdin,
    env.shell call cmd payload resource method stdin ≠ .threw

/-- The lines of an output up to the first empty one, without their ends. -/
def firstLines (out : Str) : Str := ((out.splitOn 0x0a).takeWhile (· ≠ [])).flatten

def notExited (cmd : Str) (cmdTimeout : ℕ) : Str :=
  str "Command [" ++ cmd ++ str "] did not exit after " ++ str (toString cmdTimeout) ++ str " ms!"

variable {κ : Type}

/-- **`ResourceMethod::executeCmd`**: the exit code, and what is in the stream afterwards. -/
def executeCmd (r : Resource) (m : ResourceMethod) (env : ProcEnv) (call : ℕ) (data : Str) :
    ServerM κ (ℤ × Str) := do
  let cmd := m.config.cmd
  match env.shell call cmd data r.getPath (methStringify m.getMethodType)
      (if m.config.cmdStdin then data else []) with
  | .threw => throw (.processError cmd)
  | .timedOut =>
    writeErr [notExited cmd m.config.cmdTimeout]
    return (-1, data)
  | .exited code out => return (code, firstLines out)

/-- `setValue` on the resource at a place, whose data file may have room for some bytes only. -/
def setValueUpToAt (room : Option ℕ) (i : ℕ) (value : Str) : ServerM κ Unit := do
  let r ← getResource i
  let r ← onFiles (r.setValueUpTo room value)
  modify fun w => { w with resources := w.resources.set i r }

/-- The same where the data file has room. -/
def setValueAt (i : ℕ) (value : Str) : ServerM κ Unit := setValueUpToAt none i value

/-! ### An item

The work on an item calls commands, sets the value and writes lines; how these calls go is left open
here. -/

/-- **The calls** that the work on an item makes. `executeCmd` gets the number of the formatter. -/
structure ItemOps (M : Type → Type) where
  executeCmd : ℕ → Str → M (ℤ × Str)
  setValue : Str → M Unit
  writeOut : Str → M Unit
  writeLog : Str → M Unit

section Item
variable {M : Type → Type} [Monad M] (ops : ItemOps M) (m : ResourceMethod)

/-- A formatter: the streams it adds. -/
def formatItem (data : Str) (fmt : Format) (k : ℕ) : M (List Str) := do
  let decoded := fmt.decode data
  if m.config.cmd ≠ [] then
    let (_, out) ← ops.executeCmd k decoded
    -- to log the input, its stream is duplicated
    return (if m.config.cmdLogInput then [decoded] else []) ++ [out]
  else return [decoded]

/-- The last stream of the first formatter of a `GET` is stored. -/
def storeFirst (k : ℕ) (streams : List Str) : M Unit :=
  if m.getMethodType = .get ∧ m.config.store = true ∧ k = 0 then
    ops.setValue (streams.getLast?.getD [])
  else pure ⟨⟩

/-- The loop over the formatters, from number `k` on, with the streams so far. -/
def formatLoop (data : Str) : List Format → ℕ → List Str → M (List Str)
  | [], _, sss => return sss
  | fmt :: fmts, k, sss => do
    let streams ← formatItem ops m data fmt k
    storeFirst ops m k streams
    formatLoop data fmts (k + 1) (sss ++ streams)

/-- A line is printed, where the method is to print. -/
def printLine (line : Str) : M Unit := if m.config.printValue then ops.writeOut line else pure ⟨⟩

/-- A line is logged, where the method is to log. -/
def logLine (line : Str) : M Unit := if m.config.logValue then ops.writeLog line else pure ⟨⟩

/-- The loop that prints and logs the streams. -/
def writeValues (logValue : Str) : List Str → M Unit
  | [] => return
  | ss :: sss => do
    printLine ops m (logValue ++ ss)
    logLine ops m (logValue ++ ss)
    writeValues logValue sss

/-- The data of a `PUT` or `POST` is stored. -/
def storeData (data : Str) : M Unit := if m.config.store then ops.setValue data else pure ⟨⟩

/-- The work on an item by the type of its method, which leaves the streams. -/
def processItem (data : Str) : M (List Str) := do
  match m.getMethodType with
  | .get => formatLoop ops m data m.fmts 0 []
  | .put | .post =>
    let sss ← formatLoop ops m data m.fmts 0 []
    storeData ops m data
    return sss
  | .delete | .fetch | .patch | .ipatch | .none => return []

theorem processItem_get (hget : m.getMethodType = .get) (data : Str) :
    processItem ops m data = formatLoop ops m data m.fmts 0 [] := by
  simp only [processItem, hget]

theorem processItem_body (hbody : m.getMethodType = .put ∨ m.getMethodType = .post) (data : Str) :
    processItem ops m data = (do
      let sss ← formatLoop ops m data m.fmts 0 []
      storeData ops m data
      return sss) := by
  obtain ht | ht := hbody
  all_goals simp only [processItem, ht]

/-- What stands before every value. -/
def linePrefix (timestamp path : Str) : Str :=
  timestamp ++ str " | " ++ path ++ str ":" ++ methStringify m.getMethodType ++ str ": "

/-- The work on an item, and the lines. -/
def handleItem (timestamp path data : Str) : M ℤ := do
  let sss ← processItem ops m data
  writeValues ops m (linePrefix m timestamp path) sss
  return 0

end Item

/-- The calls for the method `m` of the resource `r` at `i`. -/
def serverOps (i : ℕ) (r : Resource) (m : ResourceMethod) (env : ProcEnv) : ItemOps (ServerM κ) :=
  { executeCmd := executeCmd r m env
    setValue := setValueAt i
    writeOut := writeOut
    writeLog := fun line => onFiles (r.writeLog line) }

/-- The same where the data file may have room for some bytes only. -/
def serverOpsUpTo (room : Option ℕ) (i : ℕ) (r : Resource) (m : ResourceMethod) (env : ProcEnv) :
    ItemOps (ServerM κ) :=
  { serverOps i r m env with setValue := setValueUpToAt room i }

/-- **`ResourceMethod::handleRequestQueueItem`.** -/
def handleRequestQueueItem (item : RequestQueueItem) (env : ProcEnv) : ServerM κ ℤ := do
  let r ← getResource item.src.resource
  match r.methods[item.src.method]? with
  | none => throw (.outOfBounds item.src.method)
  | some m =>
    handleItem (serverOps item.src.resource r m env) m (env.timestamp item.time) r.getPath item.data

/-- A round of the inner loop of `_requestQueueThread`. -/
def consume (env : ProcEnv) : ServerM κ Unit := do
  if (← onQueue count) ≠ 0 then
    let item ← onQueue dequeue
    let _ ← handleRequestQueueItem item env

/-! ### What the work on an item keeps -/

section Keeps
variable {ε σ γ : Type} {f : σ → γ} {ops : ItemOps (EStateM ε σ)}

/-- The calls all keep a view of the state. -/
structure KeepsAll (f : σ → γ) (ops : ItemOps (EStateM ε σ)) : Prop where
  executeCmd : ∀ k data, Keeps f (ops.executeCmd k data)
  setValue : ∀ value, Keeps f (ops.setValue value)
  writeOut : ∀ line, Keeps f (ops.writeOut line)
  writeLog : ∀ line, Keeps f (ops.writeLog line)

variable (h : KeepsAll f ops) (m : ResourceMethod)
include h

theorem keeps_formatLoop (data : Str) (fmts : List Format) : ∀ (k : ℕ) (sss : List Str),
    Keeps f (formatLoop ops m data fmts k sss) := by
  induction fmts with
  | nil => exact fun k sss => Keeps.pure _
  | cons fmt fmts ih =>
    intro k sss
    have hfmt : Keeps f (formatItem ops m data fmt k) :=
      Keeps.ite (Keeps.bind (h.executeCmd _ _) fun _ => Keeps.pure _) (Keeps.pure _)
    have hstore : ∀ streams, Keeps f (storeFirst ops m k streams) :=
      fun streams => Keeps.ite (h.setValue _) (Keeps.pure _)
    exact Keeps.bind hfmt fun _ => Keeps.bind (hstore _) fun _ => ih _ _

theorem keeps_writeValues (logValue : Str) (sss : List Str) :
    Keeps f (writeValues ops m logValue sss) := by
  induction sss with
  | nil => exact Keeps.pure _
  | cons ss sss ih =>
    have hprint : Keeps f (printLine ops m (logValue ++ ss)) :=
      Keeps.ite (h.writeOut _) (Keeps.pure _)
    have hlog : Keeps f (logLine ops m (logValue ++ ss)) := Keeps.ite (h.writeLog _) (Keeps.pure _)
    exact Keeps.bind hprint fun _ => Keeps.bind hlog fun _ => ih

theorem keeps_processItem (data : Str) : Keeps f (processItem ops m data) := by
  have hloop := keeps_formatLoop h m data m.fmts 0 []
  have hstore : Keeps f (do
      let sss ← formatLoop ops m data m.fmts 0 []
      storeData ops m data
      return sss) :=
    Keeps.bind hloop fun _ =>
      Keeps.bind (Keeps.ite (h.setValue _) (Keeps.pure _)) fun _ => Keeps.pure _
  unfold processItem
  cases m.getMethodType with
  | get => exact hloop
  | put => exact hstore
  | post => exact hstore
  | _ => exact Keeps.pure _

/-- **The work on an item keeps what its calls keep.** -/
theorem keeps_handleItem (timestamp path data : Str) :
    Keeps f (handleItem ops m timestamp path data) :=
  Keeps.bind (keeps_processItem h m data) fun _ =>
    Keeps.bind (keeps_writeValues h m _ _) fun _ => Keeps.pure _

end Keeps

/-! ### Calls with ghost state -/

section Erases
variable {ε σ τ : Type} {f : σ → τ} {ops : ItemOps (EStateM ε σ)} {ops' : ItemOps (EStateM ε τ)}

/-- The calls do to a part of the state what others do. -/
structure ErasesAll (f : σ → τ) (ops : ItemOps (EStateM ε σ)) (ops' : ItemOps (EStateM ε τ)) :
    Prop where
  executeCmd : ∀ k data, Erases f (ops.executeCmd k data) (ops'.executeCmd k data)
  setValue : ∀ value, Erases f (ops.setValue value) (ops'.setValue value)
  writeOut : ∀ line, Erases f (ops.writeOut line) (ops'.writeOut line)
  writeLog : ∀ line, Erases f (ops.writeLog line) (ops'.writeLog line)

variable (h : ErasesAll f ops ops') (m : ResourceMethod)
include h

theorem erases_formatLoop (data : Str) (fmts : List Format) : ∀ (k : ℕ) (sss : List Str),
    Erases f (formatLoop ops m data fmts k sss) (formatLoop ops' m data fmts k sss) := by
  induction fmts with
  | nil => exact fun k sss => Erases.pure _
  | cons fmt fmts ih =>
    intro k sss
    have hfmt : Erases f (formatItem ops m data fmt k) (formatItem ops' m data fmt k) :=
      Erases.ite (Erases.bind (h.executeCmd _ _) fun _ => Erases.pure _) (Erases.pure _)
    have hstore : ∀ streams, Erases f (storeFirst ops m k streams) (storeFirst ops' m k streams) :=
      fun streams => Erases.ite (h.setValue _) (Erases.pure _)
    exact Erases.bind hfmt fun _ => Erases.bind (hstore _) fun _ => ih _ _

theorem erases_writeValues (logValue : Str) (sss : List Str) :
    Erases f (writeValues ops m logValue sss) (writeValues ops' m logValue sss) := by
  induction sss with
  | nil => exact Erases.pure _
  | cons ss sss ih =>
    refine Erases.bind (Erases.ite (h.writeOut _) (Erases.pure _)) fun _ => ?_
    exact Erases.bind (Erases.ite (h.writeLog _) (Erases.pure _)) fun _ => ih

theorem erases_processItem (data : Str) :
    Erases f (processItem ops m data) (processItem ops' m data) := by
  have hloop := erases_formatLoop h m data m.fmts 0 []
  have hstore : Erases f
      (do
        let sss ← formatLoop ops m data m.fmts 0 []
        storeData ops m data
        return sss)
      (do
        let sss ← formatLoop ops' m data m.fmts 0 []
        storeData ops' m data
        return sss) :=
    Erases.bind hloop fun _ =>
      Erases.bind (Erases.ite (h.setValue _) (Erases.pure _)) fun _ => Erases.pure _
  unfold processItem
  cases m.getMethodType with
  | get => exact hloop
  | put => exact hstore
  | post => exact hstore
  | _ => exact Erases.pure _

/-- **The work on an item erases where its calls do.** -/
theorem erases_handleItem (timestamp path data : Str) :
    Erases f (handleItem ops m timestamp path data) (handleItem ops' m timestamp path data) :=
  Erases.bind (erases_processItem h m data) fun _ =>
    Erases.bind (erases_writeValues h m _ _) fun _ => Erases.pure _

end Erases

/-! ### What does not touch the data of the server -/

/-- Only the files and the standard streams differ. -/
def OutputsOnly (w w' : CoAPServer κ) : Prop :=
  ∃ fs out err, w' = { w with fs := fs, stdout := out, stderr := err }

theorem OutputsOnly.refl (w : CoAPServer κ) : OutputsOnly w w := ⟨_, _, _, rfl⟩

theorem OutputsOnly.trans {w w' w'' : CoAPServer κ} (h : OutputsOnly w w')
    (h' : OutputsOnly w' w'') : OutputsOnly w w'' := by
  obtain ⟨fs, out, err, rfl⟩ := h
  obtain ⟨fs', out', err', rfl⟩ := h'
  exact ⟨_, _, _, rfl⟩

theorem OutputsOnly.resources {w w' : CoAPServer κ} (h : OutputsOnly w w') :
    w'.resources = w.resources := by
  obtain ⟨fs, out, err, rfl⟩ := h
  rfl

/-- A log line can always be written. -/
theorem writeLog_run (r : Resource) (line : Str) (fs : FileSystem) :
    ∃ fs', (r.writeLog line).run fs = .ok ⟨⟩ fs' := by
  unfold Resource.writeLog
  cases r.logFile with
  | none => exact ⟨fs, rfl⟩
  | some path =>
    unfold appendFile
    cases hfile : fs.files path with
    | none => simp [hfile]
    | some file => simp [hfile]

/-- Calls that touch nothing but files and streams, except for `setValue`. -/
theorem writeOut_outputs (line : Str) (w : CoAPServer κ) :
    ∃ w', (writeOut line).run w = .ok ⟨⟩ w' ∧ OutputsOnly w w' :=
  ⟨_, writeOut_run line, _, _, _, rfl⟩

theorem writeLog_outputs (r : Resource) (line : Str) (w : CoAPServer κ) :
    ∃ w', (onFiles (r.writeLog line)).run w = .ok ⟨⟩ w' ∧ OutputsOnly w w' := by
  obtain ⟨fs', hfs⟩ := writeLog_run r line w.fs
  exact ⟨_, onFiles_ok hfs, _, _, _, rfl⟩

theorem writeValues_run (i : ℕ) (r : Resource) (m : ResourceMethod) (env : ProcEnv) (logValue : Str)
    (sss : List Str) : ∀ w : CoAPServer κ, ∃ w',
      (writeValues (serverOps i r m env) m logValue sss).run w = .ok ⟨⟩ w' ∧ OutputsOnly w w' := by
  induction sss with
  | nil => exact fun w => ⟨w, rfl, OutputsOnly.refl w⟩
  | cons ss sss ih =>
    intro w
    have hprint : ∃ w₁, (printLine (serverOps i r m env) m (logValue ++ ss)).run w = .ok ⟨⟩ w₁ ∧
        OutputsOnly w w₁ := by
      unfold printLine
      split_ifs
      · exact writeOut_outputs _ w
      · exact ⟨w, rfl, OutputsOnly.refl w⟩
    obtain ⟨w₁, hrun₁, h₁⟩ := hprint
    have hlog : ∃ w₂, (logLine (serverOps i r m env) m (logValue ++ ss)).run w₁ = .ok ⟨⟩ w₂ ∧
        OutputsOnly w₁ w₂ := by
      unfold logLine
      split_ifs
      · exact writeLog_outputs r _ w₁
      · exact ⟨w₁, rfl, OutputsOnly.refl w₁⟩
    obtain ⟨w₂, hrun₂, h₂⟩ := hlog
    obtain ⟨w₃, hrun₃, h₃⟩ := ih w₂
    refine ⟨w₃, ?_, (h₁.trans h₂).trans h₃⟩
    simp only [writeValues, EStateM.run_bind, hrun₁, hrun₂, hrun₃]

/-- A command that is launched leaves something in the stream. -/
theorem executeCmd_run {env : ProcEnv} (henv : env.Launches) (r : Resource) (m : ResourceMethod)
    (call : ℕ) (data : Str) (w : CoAPServer κ) : ∃ ret w',
      (executeCmd r m env call data).run w = .ok ret w' ∧ OutputsOnly w w' := by
  cases hshell : env.shell call m.config.cmd data r.getPath (methStringify m.getMethodType)
      (if m.config.cmdStdin then data else []) with
  | threw => exact absurd hshell (henv _ _ _ _ _ _)
  | timedOut =>
    refine ⟨(-1, data), { w with stderr := w.stderr ++ [notExited m.config.cmd m.config.cmdTimeout] },
      ?_, _, _, _, rfl⟩
    simp only [executeCmd, hshell, EStateM.run_bind, writeErr_run, EStateM.run_pure]
  | exited code out =>
    refine ⟨(code, firstLines out), w, ?_, OutputsOnly.refl w⟩
    simp only [executeCmd, hshell, EStateM.run_pure]

/-- A formatter leaves the data of the server. -/
theorem formatItem_run {env : ProcEnv} (henv : env.Launches) (i : ℕ) (r : Resource)
    (m : ResourceMethod) (data : Str) (fmt : Format) (k : ℕ) (w : CoAPServer κ) : ∃ streams w',
      (formatItem (serverOps i r m env) m data fmt k).run w = .ok streams w' ∧
      OutputsOnly w w' := by
  by_cases hcmd : m.config.cmd = []
  · refine ⟨[fmt.decode data], w, ?_, OutputsOnly.refl w⟩
    simp only [formatItem, hcmd, ne_eq, not_true_eq_false, if_false, EStateM.run_pure]
  · obtain ⟨ret, w₁, hrun, h⟩ := executeCmd_run henv r m k (fmt.decode data) w
    refine ⟨(if m.config.cmdLogInput then [fmt.decode data] else []) ++ [ret.2], w₁, ?_, h⟩
    simp only [formatItem, serverOps, hcmd, ne_eq, not_false_eq_true, if_true, EStateM.run_bind,
      hrun, EStateM.run_pure]

/-- The formatters leave the data of the server, where the method is not a storing `GET`. -/
theorem formatLoop_run {env : ProcEnv} (henv : env.Launches) (i : ℕ) (r : Resource)
    {m : ResourceMethod} (hget : m.getMethodType = .get → m.config.store = false) (data : Str)
    (fmts : List Format) : ∀ (k : ℕ) (sss : List Str) (w : CoAPServer κ), ∃ sss' w',
      (formatLoop (serverOps i r m env) m data fmts k sss).run w = .ok sss' w' ∧
      OutputsOnly w w' := by
  induction fmts with
  | nil => exact fun k sss w => ⟨sss, w, rfl, OutputsOnly.refl w⟩
  | cons fmt fmts ih =>
    intro k sss w
    have hnot : ¬ (m.getMethodType = .get ∧ m.config.store = true ∧ k = 0) := by
      rintro ⟨ht, hstore, -⟩
      rw [hget ht] at hstore
      cases hstore
    obtain ⟨streams, w₁, hrun₁, h₁⟩ := formatItem_run henv i r m data fmt k w
    obtain ⟨sss', w', hrun, h⟩ := ih (k + 1) (sss ++ streams) w₁
    refine ⟨sss', w', ?_, h₁.trans h⟩
    simp only [formatLoop, storeFirst, if_neg hnot, EStateM.run_bind, EStateM.run_pure, hrun₁, hrun]

/-! ### What an item does to the values -/

/-- An item of the method sets the value. -/
def Sets (m : ResourceMethod) : Prop :=
  m.config.store = true ∧ (m.getMethodType = .get → m.fmts ≠ [])

/-- The source of an item stores what it is sent. -/
def Stores (m : ResourceMethod) : Prop :=
  (m.getMethodType = .put ∨ m.getMethodType = .post) ∧ m.config.store = true

instance (m : ResourceMethod) : Decidable (Stores m) := by
  unfold Stores
  infer_instance

/-- Without a data file only the value changes. -/
theorem setValueAt_run {w : CoAPServer κ} {i : ℕ} {r : Resource} (hr : w.resources[i]? = some r)
    (hfile : r.dataFilePath = []) (value : Str) : (setValueAt i value).run w =
      .ok ⟨⟩ { w with resources := w.resources.set i { r with value }.notifyObservers } := by
  simp only [setValueAt, setValueUpToAt, EStateM.run_bind, getResource_run hr,
    onFiles_ok (setValueUpTo_noFile hfile none value), EStateM.run_modify]

/-- The resources after an item of the method `m` of `r` was processed. -/
def storeItem (w : CoAPServer κ) (r : Resource) (m : ResourceMethod) (item : RequestQueueItem) :
    List Resource :=
  if Stores m then
    w.resources.set item.src.resource { r with value := item.data }.notifyObservers
  else w.resources

section Item
variable {w : CoAPServer κ} {item : RequestQueueItem} {r : Resource} {m : ResourceMethod}
  {env : ProcEnv} (henv : env.Launches) (hr : w.resources[item.src.resource]? = some r)
  (hfile : r.dataFilePath = []) (hget : m.getMethodType = .get → m.config.store = false)
include henv hr hfile hget

/-- The formatters, and then the data is stored. -/
theorem storeData_run (hm : m.getMethodType = .put ∨ m.getMethodType = .post) : ∃ sss w', (do
      let sss ← formatLoop (serverOps item.src.resource r m env) m item.data m.fmts 0 []
      storeData (serverOps item.src.resource r m env) m item.data
      return sss : ServerM κ (List Str)).run w = .ok sss w' ∧
    OutputsOnly { w with resources := storeItem w r m item } w' := by
  obtain ⟨sss, w₁, hrun, h₁⟩ := formatLoop_run henv item.src.resource r hget item.data m.fmts 0 [] w
  by_cases hstore : m.config.store = true
  · have hr₁ : w₁.resources[item.src.resource]? = some r := by rw [h₁.resources, hr]
    refine ⟨sss, { w₁ with resources := storeItem w r m item }, ?_, ?_⟩
    · rw [storeItem, if_pos ⟨hm, hstore⟩, ← h₁.resources]
      simp only [storeData, serverOps, EStateM.run_bind, hstore, if_true, EStateM.run_pure]
      simp only [serverOps] at hrun
      rw [hrun]
      simp only [setValueAt_run hr₁ hfile]
    · obtain ⟨fs, out, err, rfl⟩ := h₁
      exact ⟨fs, out, err, rfl⟩
  · refine ⟨sss, w₁, by simp [storeData, hrun, hstore], ?_⟩
    rw [storeItem, if_neg fun h => hstore h.2]
    exact h₁

theorem processItem_run : ∃ sss w',
    (processItem (serverOps item.src.resource r m env) m item.data).run w = .ok sss w' ∧
    OutputsOnly { w with resources := storeItem w r m item } w' := by
  have hkeep : ∀ (_ : ¬ Stores m), ({ w with resources := storeItem w r m item } : CoAPServer κ) = w :=
    fun hstores => by rw [storeItem, if_neg hstores]
  unfold processItem
  cases ht : m.getMethodType with
  | get =>
    obtain ⟨sss, w₁, hrun, h₁⟩ :=
      formatLoop_run henv item.src.resource r hget item.data m.fmts 0 [] w
    refine ⟨sss, w₁, hrun, ?_⟩
    rw [hkeep (by simp [Stores, ht])]
    exact h₁
  | put => exact storeData_run henv hr hfile hget (Or.inl ht)
  | post => exact storeData_run henv hr hfile hget (Or.inr ht)
  | _ =>
    refine ⟨[], w, rfl, ?_⟩
    rw [hkeep (by simp [Stores, ht])]
    exact OutputsOnly.refl w

/-- **What processing an item does** to the server: a storing `PUT` or `POST` sets the value of its
resource to the data of the item, anything else changes only files and streams. -/
theorem handleRequestQueueItem_run (hm : r.methods[item.src.method]? = some m) :
    ∃ w', (handleRequestQueueItem item env).run w = .ok 0 w' ∧
      OutputsOnly { w with resources := storeItem w r m item } w' := by
  obtain ⟨sss, w₁, hrun₁, h₁⟩ := processItem_run henv hr hfile hget
  obtain ⟨w₂, hrun₂, h₂⟩ := writeValues_run item.src.resource r m env
    (linePrefix m (env.timestamp item.time) r.getPath) sss w₁
  refine ⟨w₂, ?_, h₁.trans h₂⟩
  simp only [handleRequestQueueItem, handleItem, EStateM.run_bind, getResource_run hr, hm, hrun₁,
    hrun₂, EStateM.run_pure]

end Item

end CoapServer.Server.Process
