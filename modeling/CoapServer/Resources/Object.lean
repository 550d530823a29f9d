import CoapServer.Config
import CoapServer.Lib.Frame
import CoapServer.Resources.Files
import CoapServer.Resources.Formatter

/-! # Resource objects

A `Resource` has its configuration, a method object for each configured method, the current value,
and what it needs for its log file and its data file. A call on it runs over the file system and
returns the object it leaves. -/

namespace CoapServer.Resources.Object

open CoapServer.Basic CoapServer.Config CoapServer.Lib.Frame CoapServer.Resources.Files
open CoapServer.Resources.Formatter

/-- `ResourceMethod`, with its formatters. -/
structure ResourceMethod where
  config : ResourceMethodConfig
  fmts : List Format
  deriving DecidableEq

/-- `ResourceMethod::getMethodType`. -/
def ResourceMethod.getMethodType (m : ResourceMethod) : ResourceMethodType := m.config.type

/-- **`Resource`.** `logFile` is the path of the log file where it is open, `notified` how often the
observers were notified. -/
structure Resource where
  config : ResourceConfig
  methods : List ResourceMethod
  value : Str
  logFile : Option Str
  dataFilePath : Str
  dataFileWriteTime : ℤ
  notified : ℕ := 0
  deriving DecidableEq

/-- `Resource::getPath`. -/
def Resource.getPath (r : Resource) : Str := r.config.resourcePath

/-- `Resource::getMaxAge`. -/
def Resource.getMaxAge (r : Resource) : ℕ := r.config.maxAge

/-! ### Construction -/

/-- `ResourceMethod::ResourceMethod`. -/
def newMethod (config : ResourceMethodConfig) : Except Failure ResourceMethod := do
  let fmts ← config.format.mapM createResourceFormatter
  return { config, fmts }

/-- The path of the log file: the configured directory is prepended, if present. -/
def logPath (logDir logFile : Str) : Str :=
  if logDir ≠ [] then logDir ++ [separator] ++ logFile else logFile

/-- The log file of a resource is opened. -/
def openLog (config : ResourceConfig) (logDir : Str) : FsM Str := do
  if config.logFile = [] then
    throw (.runtimeError (str "Resource method requests logging, but resource " ++
      config.resourcePath ++ str " has no defined log file"))
  let path := logPath logDir config.logFile
  if separator ∈ path then
    -- the file is nested in a directory
    createDirectories (parentPath path)
  if ← openAppend path then
    return path
  throw (.runtimeError (str "Failed to open log file `" ++ path ++ str "` for resource " ++
    config.resourcePath))

/-- The loop of the constructor over the method configurations. -/
def addMethods (config : ResourceConfig) (logDir : Str) :
    List ResourceMethodConfig → Resource → FsM Resource
  | [], r => return r
  | c :: cs, r => do
    let m ← MonadExcept.ofExcept (newMethod c)
    let r := { r with methods := r.methods ++ [m] }
    if c.logValue = true ∧ r.logFile = none then
      let path ← openLog config logDir
      addMethods config logDir cs { r with logFile := some path }
    else addMethods config logDir cs r

/-- `Resource::Resource`. -/
def create (config : ResourceConfig) (logDir : Str) : FsM Resource := do
  let r ← addMethods config logDir config.methods
    { config, methods := [], value := [], logFile := none, dataFilePath := []
      dataFileWriteTime := 0 }
  return if config.dataFile ≠ [] then { r with dataFilePath := config.dataFile } else r

/-! ### The value and the data file -/

/-- `coap_resource_notify_observers`, where the resource is observable. -/
def Resource.notifyObservers (r : Resource) : Resource :=
  if r.config.observable then { r with notified := r.notified + 1 } else r

/-- `Resource::setValue`, where the data file has room for some bytes only. What is written to it has
the length of the shared value. -/
def Resource.setValueUpTo (room : Option ℕ) (r : Resource) (value : Str) : FsM Resource := do
  let r := { r with value }.notifyObservers
  if r.dataFilePath ≠ [] then
    writeUpTo room r.dataFilePath (value.take r.value.length)
    let mtime ← lastWriteTime r.dataFilePath
    return { r with dataFileWriteTime := mtime }
  return r

/-- `Resource::setValue`, where the data file has room. -/
def Resource.setValue (r : Resource) (value : Str) : FsM Resource := r.setValueUpTo none value

/-- `Resource::valueUpdate`. -/
def Resource.valueUpdate (r : Resource) : FsM Resource := do
  if r.dataFilePath = [] then return r
  if !(← fileExists r.dataFilePath) then return r
  let mtime ← lastWriteTime r.dataFilePath
  if mtime ≤ r.dataFileWriteTime then return r
  let data ← readFile r.dataFilePath
  return { { r with value := data }.notifyObservers with dataFileWriteTime := mtime }

/-- `std::chrono::hours(1)`, in nanoseconds. -/
def hour : ℤ := 3600 * 10 ^ 9

/-- The end of `Resource::attach`: the value comes from the data file, where there is one. A new one may
have room for some bytes only. -/
def Resource.initValueUpTo (room : Option ℕ) (r : Resource) : FsM Resource := do
  if r.dataFilePath ≠ [] then
    if ← fileExists r.dataFilePath then
      -- a write time of an hour ago forces a read
      let mtime ← lastWriteTime r.dataFilePath
      return ← { r with dataFileWriteTime := mtime - hour }.valueUpdate
  r.setValueUpTo room r.config.initialValue

/-- The end of `Resource::attach`, where the data file has room. -/
def Resource.initValue (r : Resource) : FsM Resource := r.initValueUpTo none

/-- `Resource::writeLog`, which needs the log file to be open. The stream is taken to be good, and its
file to be where it was opened and to take the line; `LogStream.writeLog` is without these. -/
def Resource.writeLog (r : Resource) (line : Str) : FsM Unit :=
  match r.logFile with
  | some path => appendFile path (line ++ str "\n")
  | none => pure ()

/-! ### What a call does to the object -/

/-- A method object keeps its configuration. -/
theorem newMethod_config {c : ResourceMethodConfig} {m : ResourceMethod} (h : newMethod c = .ok m) :
    m.config = c := by
  unfold newMethod at h
  cases hfmts : c.format.mapM createResourceFormatter with
  | error e =>
    rw [hfmts] at h
    cases h
  | ok fmts =>
    rw [hfmts] at h
    obtain rfl := Except.ok.inj h
    rfl

/-- The method configurations `cs` are added to `r`. -/
structure Extends (r : Resource) (cs : List ResourceMethodConfig) (r' : Resource) : Prop where
  config : r'.config = r.config
  methods : r'.methods.map (·.config) = r.methods.map (·.config) ++ cs

/-- The rest of the method configurations, after one. -/
theorem Extends.cons {r r₁ r' : Resource} {m : ResourceMethod} {c : ResourceMethodConfig}
    {cs : List ResourceMethodConfig} (h : Extends r₁ cs r') (hmc : m.config = c)
    (hconfig : r₁.config = r.config) (hmethods : r₁.methods = r.methods ++ [m]) :
    Extends r (c :: cs) r' := by
  refine ⟨h.config.trans hconfig, ?_⟩
  rw [h.methods, hmethods, List.map_append, List.map_singleton, hmc, List.append_assoc,
    List.singleton_append]

theorem addMethods_extends (config : ResourceConfig) (logDir : Str) (cs : List ResourceMethodConfig) :
    ∀ r, Yields (Extends r cs) (addMethods config logDir cs r) := by
  induction cs with
  | nil => exact fun r => Yields.pure ⟨rfl, (List.append_nil _).symm⟩
  | cons c cs ih =>
    intro r
    refine Yields.bind (P := fun m : ResourceMethod => m.config = c) ?_ fun m hmc => ?_
    · cases hm : newMethod c with
      | ok m => exact Yields.pure (newMethod_config hm)
      | error e => exact Yields.throw e
    · refine Yields.ite (Yields.bind_any fun path => ?_) ?_
      · exact fun _ _ _ h => (ih _ _ _ _ h).cons hmc rfl rfl
      · exact fun _ _ _ h => (ih _ _ _ _ h).cons hmc rfl rfl

/-- **A new object** has its configuration, and a method object for each method of it. -/
theorem create_spec (config : ResourceConfig) (logDir : Str) :
    Yields (fun r => r.config = config ∧ r.methods.map (·.config) = config.methods)
      (create config logDir) := by
  refine Yields.bind (addMethods_extends _ _ _ _) fun r hr => Yields.pure ?_
  split_ifs
  · exact ⟨hr.config, hr.methods⟩
  · exact ⟨hr.config, hr.methods⟩

/-- The log file is open, if a method logs. -/
def LogOpen (r : Resource) : Prop :=
  ∀ m ∈ r.methods, m.config.logValue = true → r.logFile ≠ none

theorem addMethods_logOpen (config : ResourceConfig) (logDir : Str) (cs : List ResourceMethodConfig) :
    ∀ r, LogOpen r → Yields LogOpen (addMethods config logDir cs r) := by
  induction cs with
  | nil => exact fun r hr => Yields.pure hr
  | cons c cs ih =>
    intro r hr
    refine Yields.bind (P := fun m : ResourceMethod => m.config = c) ?_ fun m hmc => ?_
    · cases hm : newMethod c with
      | ok m => exact Yields.pure (newMethod_config hm)
      | error e => exact Yields.throw e
    · by_cases hlog : c.logValue = true ∧ r.logFile = none
      · simp only [if_pos hlog]
        refine Yields.bind_any fun path => ih _ fun _ _ _ => ?_
        exact Option.some_ne_none path
      · simp only [if_neg hlog]
        refine ih _ fun m' hm' hvalue => ?_
        rcases List.mem_append.mp hm' with hm' | hm'
        · exact hr m' hm' hvalue
        · obtain rfl := List.mem_singleton.mp hm'
          exact fun hnone => hlog ⟨hmc ▸ hvalue, hnone⟩

/-- **The constructor opens the log file** that a method needs. -/
theorem create_logOpen (config : ResourceConfig) (logDir : Str) :
    Yields LogOpen (create config logDir) := by
  refine Yields.bind (addMethods_logOpen _ _ _ _ (by rintro m ⟨⟩)) fun r hr => Yields.pure ?_
  split_ifs
  · exact hr
  · exact hr

/-- Only the value and the time of the last write differ. -/
structure SameObject (r r' : Resource) : Prop where
  config : r'.config = r.config
  methods : r'.methods = r.methods
  logFile : r'.logFile = r.logFile
  dataFilePath : r'.dataFilePath = r.dataFilePath

/-- A notification leaves everything else. -/
theorem notifyObservers_same (r : Resource) : SameObject r r.notifyObservers := by
  unfold Resource.notifyObservers
  split_ifs <;> exact ⟨rfl, rfl, rfl, rfl⟩

theorem SameObject.trans {r r' r'' : Resource} (h : SameObject r r') (h' : SameObject r' r'') :
    SameObject r r'' :=
  ⟨h'.config.trans h.config, h'.methods.trans h.methods, h'.logFile.trans h.logFile,
    h'.dataFilePath.trans h.dataFilePath⟩

/-- The object with a new value, its observers notified. -/
theorem newValue_same (r : Resource) (value : Str) : SameObject r { r with value }.notifyObservers := by
  have hvalue : SameObject r { r with value } := ⟨rfl, rfl, rfl, rfl⟩
  exact hvalue.trans (notifyObservers_same _)

@[simp] theorem notifyObservers_value (r : Resource) : r.notifyObservers.value = r.value := by
  unfold Resource.notifyObservers
  split_ifs <;> rfl

theorem setValueUpTo_same (room : Option ℕ) (r : Resource) (value : Str) :
    Yields (SameObject r) (r.setValueUpTo room value) := by
  have hset := newValue_same r value
  have htime : ∀ mtime, SameObject r
      { { r with value }.notifyObservers with dataFileWriteTime := mtime } :=
    fun mtime => hset.trans ⟨rfl, rfl, rfl, rfl⟩
  exact Yields.ite (Yields.bind_any fun _ => Yields.bind_any fun _ => Yields.pure (htime _))
    (Yields.pure hset)

theorem setValue_same (r : Resource) (value : Str) : Yields (SameObject r) (r.setValue value) :=
  setValueUpTo_same none r value

theorem valueUpdate_same (r : Resource) : Yields (SameObject r) r.valueUpdate := by
  have hsame : SameObject r r := ⟨rfl, rfl, rfl, rfl⟩
  refine Yields.ite (Yields.pure hsame) (Yields.bind_any fun _ => Yields.ite (Yields.pure hsame) ?_)
  refine Yields.bind_any fun mtime => Yields.ite (Yields.pure hsame) (Yields.bind_any fun data => ?_)
  exact Yields.pure ((newValue_same r data).trans ⟨rfl, rfl, rfl, rfl⟩)

theorem initValue_same (r : Resource) : Yields (SameObject r) r.initValue := by
  have hfile : ∀ mtime, Yields (SameObject r)
      ({ r with dataFileWriteTime := mtime } : Resource).valueUpdate := by
    intro mtime s r' s' h
    obtain ⟨hc, hm, hl, hd⟩ := valueUpdate_same _ _ _ _ h
    exact ⟨hc, hm, hl, hd⟩
  have hinit := setValue_same r r.config.initialValue
  refine Yields.ite (Yields.bind_any fun _ => Yields.ite (Yields.bind_any fun mtime => ?_) hinit) hinit
  exact hfile _

/-! ### Calls on a resource with a data file -/

/-- The object with the value that the file has at time `t`, its observers notified. -/
def Resource.synced (r : Resource) (value : Str) (t : ℤ) : Resource :=
  { { r with value }.notifyObservers with dataFileWriteTime := t }

@[simp] theorem synced_value (r : Resource) (value : Str) (t : ℤ) :
    (r.synced value t).value = value := notifyObservers_value _

@[simp] theorem synced_dataFilePath (r : Resource) (value : Str) (t : ℤ) :
    (r.synced value t).dataFilePath = r.dataFilePath :=
  (newValue_same r value).dataFilePath

/-- The time of the last write is overwritten. -/
theorem synced_of_writeTime (r : Resource) (t₀ : ℤ) (value : Str) (t : ℤ) :
    ({ r with dataFileWriteTime := t₀ } : Resource).synced value t = r.synced value t := by
  unfold Resource.synced Resource.notifyObservers
  split_ifs <;> rfl

/-- A value is set where there is no data file. -/
theorem setValueUpTo_noFile {r : Resource} {fs : FileSystem} (hpath : r.dataFilePath = [])
    (room : Option ℕ) (value : Str) :
    (r.setValueUpTo room value).run fs = .ok { r with value }.notifyObservers fs := by
  have hnone : ({ r with value } : Resource).notifyObservers.dataFilePath = [] :=
    (newValue_same r value).dataFilePath.trans hpath
  simp only [Resource.setValueUpTo, hnone, ne_eq, not_true_eq_false, if_false, EStateM.run_pure]

theorem setValue_noFile {r : Resource} {fs : FileSystem} (hpath : r.dataFilePath = [])
    (value : Str) : (r.setValue value).run fs = .ok { r with value }.notifyObservers fs :=
  setValueUpTo_noFile hpath none value
/-- Nor is a first value taken from one. -/
theorem initValue_noFile {r : Resource} (hpath : r.dataFilePath = []) :
    r.initValue = r.setValue r.config.initialValue := by
  rw [Resource.initValue, Resource.initValueUpTo, if_neg (not_not.mpr hpath), Resource.setValue]

section DataFile
variable {r : Resource} {fs : FileSystem} (hpath : r.dataFilePath ≠ [])
include hpath

/-- A value is set where the file can be written. -/
theorem setValueUpTo_run (hw : fs.writable r.dataFilePath = true) (room : Option ℕ) (value : Str) :
    (r.setValueUpTo room value).run fs =
      .ok (r.synced value fs.clock) (fs.put r.dataFilePath (upTo room value)) := by
  have hsame := newValue_same r value
  simp only [Resource.setValueUpTo, hsame.dataFilePath, notifyObservers_value, List.take_length,
    if_pos hpath, EStateM.run_bind, writeUpTo_run hw, lastWriteTime_run (put_files_self _ _ _)]
  simp only [EStateM.run_pure, Resource.synced, hsame.dataFilePath, notifyObservers_value]

theorem setValue_run (hw : fs.writable r.dataFilePath = true) (value : Str) :
    (r.setValue value).run fs = .ok (r.synced value fs.clock) (fs.put r.dataFilePath value) :=
  setValueUpTo_run hpath hw none value

/-- A value that cannot be written, where there is a file. -/
theorem setValueUpTo_denied {f : File} (hw : fs.writable r.dataFilePath = false)
    (hfile : fs.files r.dataFilePath = some f) (room : Option ℕ) (value : Str) :
    (r.setValueUpTo room value).run fs = .ok (r.synced value f.mtime) fs := by
  have hsame := newValue_same r value
  simp only [Resource.setValueUpTo, hsame.dataFilePath, notifyObservers_value, List.take_length,
    if_pos hpath, EStateM.run_bind, writeUpTo_denied hw, lastWriteTime_run hfile]
  simp only [EStateM.run_pure, Resource.synced, hsame.dataFilePath, notifyObservers_value]

theorem setValue_denied {f : File} (hw : fs.writable r.dataFilePath = false)
    (hfile : fs.files r.dataFilePath = some f) (value : Str) :
    (r.setValue value).run fs = .ok (r.synced value f.mtime) fs :=
  setValueUpTo_denied hpath hw hfile none value

/-- A value that cannot be written, where there is no file to ask for its time. -/
theorem setValueUpTo_throws (hw : fs.writable r.dataFilePath = false)
    (hfile : fs.files r.dataFilePath = none) (room : Option ℕ) (value : Str) :
    (r.setValueUpTo room value).run fs = .error (.filesystemError r.dataFilePath) fs := by
  have hsame := newValue_same r value
  simp only [Resource.setValueUpTo, hsame.dataFilePath, notifyObservers_value, List.take_length,
    if_pos hpath, EStateM.run_bind, writeUpTo_denied hw, lastWriteTime_absent hfile]

theorem setValue_throws (hw : fs.writable r.dataFilePath = false)
    (hfile : fs.files r.dataFilePath = none) (value : Str) :
    (r.setValue value).run fs = .error (.filesystemError r.dataFilePath) fs :=
  setValueUpTo_throws hpath hw hfile none value

/-- A poll without a file. -/
theorem valueUpdate_absent (hfile : fs.files r.dataFilePath = none) :
    r.valueUpdate.run fs = .ok r fs := by
  simp only [Resource.valueUpdate, if_neg hpath, EStateM.run_bind, fileExists_run, hfile,
    Option.isSome_none, Bool.not_false, if_true, EStateM.run_pure]

section Present
variable {f : File} (hfile : fs.files r.dataFilePath = some f)
include hfile

/-- A poll of a file that is not new. -/
theorem valueUpdate_old (hle : f.mtime ≤ r.dataFileWriteTime) : r.valueUpdate.run fs = .ok r fs := by
  simp only [Resource.valueUpdate, if_neg hpath, EStateM.run_bind, fileExists_run, hfile,
    Option.isSome_some, Bool.not_true, Bool.false_eq_true, if_false, lastWriteTime_run hfile,
    if_pos hle, EStateM.run_pure]

/-- A poll of a new file. -/
theorem valueUpdate_new (hlt : r.dataFileWriteTime < f.mtime) :
    r.valueUpdate.run fs = .ok (r.synced (fs.seen r.dataFilePath f) f.mtime) fs := by
  simp only [Resource.valueUpdate, if_neg hpath, EStateM.run_bind, fileExists_run, hfile,
    Option.isSome_some, Bool.not_true, Bool.false_eq_true, if_false, lastWriteTime_run hfile,
    if_neg (Int.not_le.mpr hlt), readFile_run hfile, EStateM.run_pure]
  rw [Resource.synced]

/-- **The first value** is that of a file that exists. -/
theorem initValueUpTo_present (room : Option ℕ) :
    (r.initValueUpTo room).run fs = .ok (r.synced (fs.seen r.dataFilePath f) f.mtime) fs := by
  have hlt : f.mtime - hour < f.mtime := by
    unfold hour
    omega
  have hupdate : ({ r with dataFileWriteTime := f.mtime - hour } : Resource).valueUpdate.run fs =
      .ok (r.synced (fs.seen r.dataFilePath f) f.mtime) fs := by
    rw [← synced_of_writeTime r (f.mtime - hour)]
    exact valueUpdate_new (r := { r with dataFileWriteTime := f.mtime - hour }) hpath hfile hlt
  simp only [Resource.initValueUpTo, if_pos hpath, EStateM.run_bind, fileExists_run, hfile,
    Option.isSome_some, if_true, lastWriteTime_run hfile, hupdate]

theorem initValue_present :
    r.initValue.run fs = .ok (r.synced (fs.seen r.dataFilePath f) f.mtime) fs :=
  initValueUpTo_present hpath hfile none

end Present

/-- Without a file the first value is the configured one. -/
theorem initValueUpTo_absent (hfile : fs.files r.dataFilePath = none) (room : Option ℕ) :
    (r.initValueUpTo room).run fs = (r.setValueUpTo room r.config.initialValue).run fs := by
  simp only [Resource.initValueUpTo, if_pos hpath, EStateM.run_bind, fileExists_run, hfile,
    Option.isSome_none, Bool.false_eq_true, if_false]

theorem initValue_absent (hfile : fs.files r.dataFilePath = none) :
    r.initValue.run fs = (r.setValue r.config.initialValue).run fs :=
  initValueUpTo_absent hpath hfile none

end DataFile

end CoapServer.Resources.Object
