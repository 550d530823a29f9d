import CoapServer.Server.LogLines

/-! # What the work on an item does

An item is processed for its resource: of the server only that object, its data file, its log file and
the standard streams change (`Confined`). Where the work returns, the texts are those of the
formatters and commands, whatever else has happened (`yields_processItem`), so what the item leaves on
the standard output and in the log can be read off it (`item_effect`).

What an item or a request does follows from what its calls do (`does_processItem`, `does_serve`). -/

namespace CoapServer.Server.Effects

open CoapServer.Basic CoapServer.Config CoapServer.Lib.Frame CoapServer.Resources.Files
open CoapServer.Resources.Formatter CoapServer.Resources.Object CoapServer.Blocks.SessionData
open CoapServer.Queue.Sequential CoapServer.Server.World CoapServer.Server.Requests
open CoapServer.Server.Process CoapServer.Server.Dynamic CoapServer.Server.LogLines
open CoapServer.Server.Machine (getResource_eq_ok onFiles_eq_ok)

variable {κ : Type}

/-! ### The texts -/

section Texts
variable (i : ℕ) (r : Resource) (m : ResourceMethod) (env : ProcEnv)

theorem yields_executeCmd (k : ℕ) (data : Str) :
    Yields (fun ret => ret.2 = cmdOutput env r m k data)
      (executeCmd r m env k data : ServerM κ (ℤ × Str)) := by
  simp only [executeCmd, cmdOutput]
  cases env.shell k m.config.cmd data r.getPath (methStringify m.getMethodType)
      (if m.config.cmdStdin then data else []) with
  | threw => exact Yields.throw _
  | timedOut => exact Yields.bind_any fun _ => Yields.pure rfl
  | exited code out => exact Yields.pure rfl

theorem yields_formatItem (data : Str) (fmt : Format) (k : ℕ) :
    Yields (· = textsOf env r m data k fmt)
      (formatItem (serverOps i r m env : ItemOps (ServerM κ)) m data fmt k) := by
  unfold formatItem textsOf
  by_cases hcmd : m.config.cmd = []
  · rw [if_neg (not_not.mpr hcmd), if_pos hcmd]
    exact Yields.pure rfl
  · rw [if_pos hcmd, if_neg hcmd]
    exact Yields.bind (yields_executeCmd r m env k _) fun ret hret => Yields.pure (by rw [hret])

theorem yields_formatLoop (data : Str) (fmts : List Format) : ∀ (k : ℕ) (sss : List Str),
    Yields (· = sss ++ textsFrom env r m data k fmts)
      (formatLoop (serverOps i r m env : ItemOps (ServerM κ)) m data fmts k sss) := by
  induction fmts with
  | nil => exact fun k sss => Yields.pure (List.append_nil _).symm
  | cons fmt fmts ih =>
    intro k sss
    refine Yields.bind (yields_formatItem i r m env data fmt k) fun streams hstreams => ?_
    refine Yields.bind_any fun _ => ?_
    have hrest := ih (k + 1) (sss ++ streams)
    rw [hstreams, List.append_assoc] at hrest
    rw [hstreams]
    exact hrest

/-- **The texts of an item**, where the work returns. -/
theorem yields_processItem (htype : Queueable m.getMethodType) (data : Str) :
    Yields (· = textsFrom env r m data 0 m.fmts)
      (processItem (serverOps i r m env : ItemOps (ServerM κ)) m data) := by
  have hloop := yields_formatLoop (κ := κ) i r m env data m.fmts 0 []
  rw [List.nil_append] at hloop
  by_cases hget : m.getMethodType = .get
  · rw [processItem_get _ m hget]
    exact hloop
  · rw [processItem_body _ m (htype.resolve_left hget)]
    exact Yields.bind hloop fun _ hsss => Yields.bind_any fun _ => Yields.pure hsss

end Texts

/-! ### What the calls do -/

section Does
variable {ε σ : Type} {R : σ → σ → Prop} (hrefl : ∀ s, R s s)
  (htrans : ∀ {a b c}, R a b → R b c → R a c) {ops : ItemOps (EStateM ε σ)}
  (hcmd : ∀ k data, Does R (ops.executeCmd k data)) (hset : ∀ value, Does R (ops.setValue value))
include hrefl htrans hcmd hset

theorem does_formatLoop (m : ResourceMethod) (data : Str) (fmts : List Format) :
    ∀ (k : ℕ) (sss : List Str), Does R (formatLoop ops m data fmts k sss) := by
  induction fmts with
  | nil => exact fun k sss => Does.pure hrefl _
  | cons fmt fmts ih =>
    intro k sss
    have hfmt : Does R (formatItem ops m data fmt k) :=
      Does.ite (Does.bind htrans (hcmd _ _) fun _ => Does.pure hrefl _) (Does.pure hrefl _)
    have hstore : ∀ streams, Does R (storeFirst ops m k streams) :=
      fun streams => Does.ite (hset _) (Does.pure hrefl _)
    exact Does.bind htrans hfmt fun _ => Does.bind htrans (hstore _) fun _ => ih _ _

/-- **The work on an item does what its calls do**, but for the lines it writes. -/
theorem does_processItem (m : ResourceMethod) (data : Str) : Does R (processItem ops m data) := by
  have hloop := does_formatLoop hrefl htrans hcmd hset m data m.fmts 0 []
  have hstore : Does R (do
      let sss ← formatLoop ops m data m.fmts 0 []
      storeData ops m data
      return sss) :=
    Does.bind htrans hloop fun _ =>
      Does.bind htrans (Does.ite (hset _) (Does.pure hrefl _)) fun _ => Does.pure hrefl _
  unfold processItem
  cases m.getMethodType with
  | get => exact hloop
  | put => exact hstore
  | post => exact hstore
  | _ => exact Does.pure hrefl _

end Does

/-- **The constructor of a resource does what its calls do.** -/
theorem does_create {R : FileSystem → FileSystem → Prop} (hrefl : ∀ fs, R fs fs)
    (htrans : ∀ {a b c}, R a b → R b c → R a c) (hopen : ∀ p, Does R (openAppend p))
    (hdirs : ∀ p, Does R (createDirectories p)) (config : ResourceConfig) (logDir : Str) :
    Does R (create config logDir) := by
  have hlog : Does R (openLog config logDir) := by
    have hlast : Does R (do
        if ← openAppend (logPath logDir config.logFile) then
          return logPath logDir config.logFile
        throw (Failure.runtimeError (str "Failed to open log file `" ++
          logPath logDir config.logFile ++ str "` for resource " ++ config.resourcePath))) :=
      Does.bind htrans (hopen _) fun _ => Does.ite (Does.pure hrefl _) (Does.throw _)
    unfold openLog
    refine Does.ite (Does.throw _) ?_
    exact Does.ite (Does.bind htrans (hdirs _) fun _ => hlast) hlast
  have hadd : ∀ (cs : List ResourceMethodConfig) (r : Resource),
      Does R (addMethods config logDir cs r) := by
    intro cs
    induction cs with
    | nil => exact fun r => Does.pure hrefl _
    | cons c cs ih =>
      intro r
      refine Does.bind htrans ?_ fun m => Does.ite (Does.bind htrans hlog fun _ => ih _) (ih _)
      cases newMethod c with
      | ok m => exact Does.pure hrefl _
      | error e => exact Does.throw _
  exact Does.bind htrans (hadd _ _) fun _ => Does.pure hrefl _

/-! ### What requests do -/

/-- **A relation that the calls of a request keep to**: those on the queue, the cache and the error
stream, and the creation of a resource. -/
structure RequestCalls (R : CoAPServer κ → CoAPServer κ → Prop) : Prop where
  refl : ∀ w, R w w
  trans : ∀ {w w' w''}, R w w' → R w' w'' → R w w''
  inward : ∀ w q c err, R w { w with queue := q, cache := c, stderr := err }
  create : ∀ config, Does R (createResource config)

section Request
variable {R : CoAPServer κ → CoAPServer κ → Prop} (hR : RequestCalls R)
include hR

theorem does_writeErr (lines : List Str) : Does R (writeErr lines : ServerM κ Unit) :=
  Does.modify fun w => hR.inward w _ _ _

theorem does_onQueue {β : Type} (m : QueueM RequestQueueItem β) :
    Does R (onQueue m : ServerM κ β) := by
  intro w b w' h
  simp only [onQueue, EStateM.run] at h
  cases hm : m w.queue with
  | ok b' q =>
    rw [hm] at h
    obtain ⟨-, rfl⟩ := EStateM.Result.ok.inj h
    exact hR.inward w _ _ _
  | error e q =>
    rw [hm] at h
    cases h

theorem does_getResource (i : ℕ) : Does R (getResource i : ServerM κ Resource) := by
  intro w r w' h
  rw [(getResource_eq_ok h).2]
  exact hR.refl w

variable [DecidableEq κ] (req : Request κ) (type : ResourceMethodType) (env : Env) (resp : Response)

theorem does_handle (i : ℕ) :
    Does R (handleCoAPRequest i req type env resp : ServerM κ Response) := by
  have hforward : ∀ r data, Does R (forward i r type data env resp : ServerM κ Response) := by
    intro r data
    unfold forward
    cases findMethod type r.methods 0 with
    | none => exact Does.pure hR.refl _
    | some jm => exact does_onQueue hR _
  refine Does.bind hR.trans (does_getResource hR i) fun r => Does.ite ?_ (hforward _ _)
  refine Does.bind hR.trans (Does.get hR.refl) fun w => ?_
  refine Does.bind hR.trans (Does.modify fun w => hR.inward w _ _ _) fun _ => ?_
  refine Does.bind hR.trans (does_writeErr hR _) fun _ => Does.ite (Does.pure hR.refl _) ?_
  exact Does.ite (Does.pure hR.refl _) (hforward _ _)

/-- **A request does what its calls do.** -/
theorem does_serve (re : Matcher) (uri : Uri) :
    Does R (serve re req type env resp uri : ServerM κ Response) := by
  have hmatch : ∀ cfg uri sm,
      Does R (handleMatch req type env resp cfg uri sm : ServerM κ Response) := by
    intro cfg uri sm
    refine Does.ite (Does.bind hR.trans (does_writeErr hR _) fun _ => Does.pure hR.refl _) ?_
    refine Does.bind hR.trans (Does.get hR.refl) fun w => ?_
    refine Does.bind hR.trans (does_writeErr hR _) fun _ => ?_
    refine Does.bind hR.trans (hR.create _) fun created => ?_
    refine Does.ite (does_handle hR req type env resp _) ?_
    exact Does.bind hR.trans (does_writeErr hR _) fun _ => Does.pure hR.refl _
  have hconfigs : ∀ uri cfgs,
      Does R (handleConfigs re req type env resp uri cfgs : ServerM κ Response) := by
    intro uri cfgs
    induction cfgs with
    | nil => exact Does.bind hR.trans (does_writeErr hR _) fun _ => Does.pure hR.refl _
    | cons cfg cfgs ih =>
      unfold handleConfigs
      cases re cfg.resourcePath uri with
      | error e => exact Does.throw _
      | ok res =>
        cases res with
        | none => exact ih
        | some sm => exact hmatch _ _ _
  refine Does.bind hR.trans (Does.get hR.refl) fun w => ?_
  cases w.registry uri.path with
  | some reg => exact Does.ite (does_handle hR req type env resp _) (Does.pure hR.refl _)
  | none =>
    refine Does.bind hR.trans (Does.get hR.refl) fun w' => ?_
    refine Does.ite (Does.pure hR.refl _) ?_
    exact Does.bind hR.trans (Does.get hR.refl) fun _ => hconfigs _ _

end Request

/-! ### What is there stays -/

/-- **The resources stay**, but for their values, and others may follow. -/
def Grows (w w' : CoAPServer κ) : Prop :=
  ∀ (i : ℕ) (r : Resource), w.resources[i]? = some r →
    ∃ r', w'.resources[i]? = some r' ∧ SameObject r r'

theorem Grows.of_eq {w w' : CoAPServer κ} (h : w'.resources = w.resources) : Grows w w' := by
  intro i r hr
  exact ⟨r, h ▸ hr, rfl, rfl, rfl, rfl⟩

theorem Grows.trans {w w' w'' : CoAPServer κ} (h : Grows w w') (h' : Grows w' w'') :
    Grows w w'' := by
  intro i r hr
  obtain ⟨r₁, hr₁, hsame₁⟩ := h i r hr
  obtain ⟨r₂, hr₂, hsame₂⟩ := h' i r₁ hr₁
  exact ⟨r₂, hr₂, hsame₁.trans hsame₂⟩

/-- The data files stay. -/
theorem Grows.dataFiles {w w' : CoAPServer κ} (h : Grows w w') {p : Str}
    (hp : ∀ r ∈ w'.resources, r.dataFilePath ≠ p) : ∀ r ∈ w.resources, r.dataFilePath ≠ p := by
  intro r hr
  obtain ⟨i, hi⟩ := List.mem_iff_getElem?.mp hr
  obtain ⟨r', hr', hsame⟩ := h i r hi
  rw [← hsame.dataFilePath]
  exact hp r' (List.mem_of_getElem? hr')

/-! ### What is left alone -/

/-- **Only the object at `i` changes**, its value and the time of its last write, with its data file
and the error stream. -/
structure Confined (i : ℕ) (w w' : CoAPServer κ) : Prop where
  logDir : w'.logDir = w.logDir
  dynamicResources : w'.dynamicResources = w.dynamicResources
  registry : w'.registry = w.registry
  queue : w'.queue = w.queue
  cache : w'.cache = w.cache
  stdout : w'.stdout = w.stdout
  others : ∀ j, j ≠ i → w'.resources[j]? = w.resources[j]?
  object : ∀ r, w.resources[i]? = some r → ∃ r', w'.resources[i]? = some r' ∧ SameObject r r'
  files : ∀ r, w.resources[i]? = some r → ∀ p, p ≠ r.dataFilePath →
    w'.fs.files p = w.fs.files p
  access : w'.fs.access = w.fs.access

theorem Confined.refl (i : ℕ) (w : CoAPServer κ) : Confined i w w :=
  ⟨rfl, rfl, rfl, rfl, rfl, rfl, fun _ _ => rfl, fun r hr => ⟨r, hr, rfl, rfl, rfl, rfl⟩,
    fun _ _ _ _ => rfl, rfl⟩

theorem Confined.trans {i : ℕ} {w w' w'' : CoAPServer κ} (h : Confined i w w')
    (h' : Confined i w' w'') : Confined i w w'' := by
  refine ⟨h'.logDir.trans h.logDir, h'.dynamicResources.trans h.dynamicResources,
    h'.registry.trans h.registry, h'.queue.trans h.queue, h'.cache.trans h.cache,
    h'.stdout.trans h.stdout, fun j hj => (h'.others j hj).trans (h.others j hj), ?_, ?_,
    h'.access.trans h.access⟩
  · intro r hr
    obtain ⟨r₁, hr₁, hsame₁⟩ := h.object r hr
    obtain ⟨r₂, hr₂, hsame₂⟩ := h'.object r₁ hr₁
    exact ⟨r₂, hr₂, hsame₁.trans hsame₂⟩
  · intro r hr p hp
    obtain ⟨r₁, hr₁, hsame₁⟩ := h.object r hr
    exact (h'.files r₁ hr₁ p (by rw [hsame₁.dataFilePath]; exact hp)).trans (h.files r hr p hp)

/-- A value that is set changes no file but the data file. -/
theorem setValue_files {r r' : Resource} {value : Str} {fs fs' : FileSystem}
    (h : (r.setValue value).run fs = .ok r' fs') {p : Str} (hp : p ≠ r.dataFilePath) :
    fs'.files p = fs.files p := by
  by_cases hpath : r.dataFilePath = []
  · rw [setValue_noFile hpath] at h
    obtain ⟨-, rfl⟩ := EStateM.Result.ok.inj h
    rfl
  cases hw : fs.writable r.dataFilePath with
  | true =>
    rw [setValue_run hpath hw] at h
    obtain ⟨-, rfl⟩ := EStateM.Result.ok.inj h
    exact Function.update_of_ne hp _ _
  | false =>
    cases hfile : fs.files r.dataFilePath with
    | some f =>
      rw [setValue_denied hpath hw hfile] at h
      obtain ⟨-, rfl⟩ := EStateM.Result.ok.inj h
      rfl
    | none =>
      rw [setValue_throws hpath hw hfile] at h
      cases h

theorem writeUpTo_access (room : Option ℕ) (p content : Str) :
    Keeps FileSystem.access (writeUpTo room p content) :=
  Keeps.bind Keeps.get fun _ => Keeps.ite (Keeps.modify fun _ => rfl) (Keeps.pure _)

theorem lastWriteTime_access (p : Str) : Keeps FileSystem.access (lastWriteTime p) := by
  refine Keeps.bind Keeps.get fun fs => ?_
  cases fs.files p with
  | some file => exact Keeps.pure _
  | none => exact Keeps.throw _

theorem setValue_access (r : Resource) (value : Str) :
    Keeps FileSystem.access (r.setValue value) :=
  Keeps.ite (Keeps.bind (writeUpTo_access _ _ _) fun _ =>
    Keeps.bind (lastWriteTime_access _) fun _ => Keeps.pure _) (Keeps.pure _)

/-- The first value is written to the data file, if anywhere. -/
theorem initValue_files {r r' : Resource} {fs fs' : FileSystem}
    (h : r.initValue.run fs = .ok r' fs') {p : Str} (hp : r.dataFilePath ≠ p) :
    fs'.files p = fs.files p := by
  by_cases hpath : r.dataFilePath = []
  · rw [initValue_noFile hpath] at h
    exact setValue_files h hp.symm
  · cases hfile : fs.files r.dataFilePath with
    | some f =>
      rw [initValue_present hpath hfile] at h
      obtain ⟨-, rfl⟩ := EStateM.Result.ok.inj h
      rfl
    | none =>
      rw [initValue_absent hpath hfile] at h
      exact setValue_files h hp.symm

/-- A poll changes no file. -/
theorem valueUpdate_files {r r' : Resource} {fs fs' : FileSystem}
    (h : r.valueUpdate.run fs = .ok r' fs') : fs' = fs := by
  by_cases hpath : r.dataFilePath = []
  · rw [Resource.valueUpdate, if_pos hpath] at h
    exact (EStateM.Result.ok.inj h).2.symm
  · cases hfile : fs.files r.dataFilePath with
    | none =>
      rw [valueUpdate_absent hpath hfile] at h
      exact (EStateM.Result.ok.inj h).2.symm
    | some f =>
      rcases le_or_gt f.mtime r.dataFileWriteTime with hle | hlt
      · rw [valueUpdate_old hpath hfile hle] at h
        exact (EStateM.Result.ok.inj h).2.symm
      · rw [valueUpdate_new hpath hfile hlt] at h
        exact (EStateM.Result.ok.inj h).2.symm

/-- **A call on the object at `i`** that touches no file but its data file. -/
theorem confined_update (i : ℕ) {call : Resource → FsM Resource}
    (hcall : ∀ r, Yields (SameObject r) (call r))
    (hfiles : ∀ r fs r' fs', (call r).run fs = .ok r' fs' → ∀ p, p ≠ r.dataFilePath →
      fs'.files p = fs.files p) (hwrite : ∀ r, Keeps FileSystem.access (call r)) :
    Does (Confined i) (do
      let r ← getResource i
      let r ← onFiles (call r)
      modify fun w => { w with resources := w.resources.set i r } : ServerM κ Unit) := by
  intro w u w' h
  obtain ⟨r, w₁, hget, h₁⟩ := run_bind_ok h
  obtain ⟨hr, hw⟩ := getResource_eq_ok hget
  obtain ⟨r', w₂, hfile, h₂⟩ := run_bind_ok h₁
  obtain ⟨fs, hrun, rfl⟩ := onFiles_eq_ok hfile
  obtain ⟨-, rfl⟩ := EStateM.Result.ok.inj h₂
  subst hw
  have hlt := (List.getElem?_eq_some_iff.mp hr).1
  refine ⟨rfl, rfl, rfl, rfl, rfl, rfl, fun j hj => ?_, fun r₀ hr₀ => ?_, fun r₀ hr₀ p hp => ?_,
    hwrite r _ _ _ hrun⟩
  · exact List.getElem?_set_ne (Ne.symm hj)
  · rw [hr] at hr₀
    obtain rfl := Option.some.inj hr₀
    exact ⟨r', List.getElem?_set_self hlt, hcall r _ _ _ hrun⟩
  · rw [hr] at hr₀
    obtain rfl := Option.some.inj hr₀
    exact hfiles r _ _ _ hrun p hp

theorem confined_setValueAt (i : ℕ) (value : Str) :
    Does (Confined i) (setValueAt i value : ServerM κ Unit) :=
  confined_update i (fun r => setValue_same r value) (fun _ _ _ _ h _ hp => setValue_files h hp)
    fun r => setValue_access r value

theorem confined_writeErr (i : ℕ) (lines : List Str) :
    Does (Confined i) (writeErr lines : ServerM κ Unit) :=
  Does.modify fun _ => ⟨rfl, rfl, rfl, rfl, rfl, rfl, fun _ _ => rfl,
    fun r hr => ⟨r, hr, rfl, rfl, rfl, rfl⟩, fun _ _ _ _ => rfl, rfl⟩

theorem confined_executeCmd (i : ℕ) (r : Resource) (m : ResourceMethod) (env : ProcEnv) (k : ℕ)
    (data : Str) : Does (Confined i) (executeCmd r m env k data : ServerM κ (ℤ × Str)) := by
  simp only [executeCmd]
  cases env.shell k m.config.cmd data r.getPath (methStringify m.getMethodType)
      (if m.config.cmdStdin then data else []) with
  | threw => exact Does.throw _
  | timedOut =>
    exact Does.bind Confined.trans (confined_writeErr i _) fun _ => Does.pure (Confined.refl i) _
  | exited code out => exact Does.pure (Confined.refl i) _

/-- **The work on an item of the resource at `i`** is confined to it, but for the lines. -/
theorem confined_processItem (i : ℕ) (r : Resource) (m : ResourceMethod) (env : ProcEnv)
    (data : Str) :
    Does (Confined i) (processItem (serverOps i r m env : ItemOps (ServerM κ)) m data) :=
  does_processItem (Confined.refl i) Confined.trans (confined_executeCmd i r m env)
    (confined_setValueAt i) m data

/-! ### The lines -/

theorem contentAt_put (fs : FileSystem) (p content : Str) (q : Str) :
    contentAt (fs.put p content) q = if q = p then content else contentAt fs q := by
  by_cases hq : q = p
  · subst hq
    rw [if_pos rfl, contentAt, put_files_self]
  · have hother : (fs.put p content).files q = fs.files q := Function.update_of_ne hq _ _
    rw [if_neg hq, contentAt, hother, contentAt]

theorem contentAt_congr {fs fs' : FileSystem} {p : Str} (h : fs'.files p = fs.files p) :
    contentAt fs' p = contentAt fs p := by
  rw [contentAt, h, contentAt]

/-- **A line goes to the end of the log file**, and to no other. -/
theorem writeLog_effect (r : Resource) (line : Str) (fs : FileSystem) : ∃ fs',
    (r.writeLog line).run fs = .ok ⟨⟩ fs' ∧
    (∀ p, contentAt fs' p = contentAt fs p ++ if r.logFile = some p then line ++ [newline] else []) ∧
    (∀ p, r.logFile ≠ some p → fs'.files p = fs.files p) ∧ fs'.access = fs.access := by
  cases hlog : r.logFile with
  | none =>
    refine ⟨fs, ?_, fun p => ?_, fun _ _ => rfl, rfl⟩
    · simp only [Resource.writeLog, hlog, EStateM.run_pure]
    · rw [if_neg (Option.some_ne_none p).symm, List.append_nil]
  | some path =>
    have hrun : (r.writeLog line).run fs =
        .ok ⟨⟩ (fs.put path (contentAt fs path ++ (line ++ [newline]))) := by
      cases hfile : fs.files path with
      | some f =>
        simp only [Resource.writeLog, hlog, appendFile, EStateM.run_bind, EStateM.run_get, hfile,
          contentAt]
        rfl
      | none =>
        simp only [Resource.writeLog, hlog, appendFile, EStateM.run_bind, EStateM.run_get, hfile,
          contentAt]
        rfl
    refine ⟨_, hrun, fun p => ?_, fun p hp => ?_, rfl⟩
    · rw [contentAt_put]
      by_cases hp : p = path
      · subst hp
        rw [if_pos rfl, if_pos rfl]
      · rw [if_neg hp, if_neg fun h => hp (Option.some.inj h).symm, List.append_nil]
    · exact Function.update_of_ne (fun h => hp (congrArg some h.symm)) _ _

/-- What goes to the log at `p` of the lines of an item. -/
def logged (r : Resource) (m : ResourceMethod) (lines : List Str) (p : Str) : Str :=
  if m.config.logValue = true ∧ r.logFile = some p then lines.flatMap (· ++ [newline]) else []

/-- What goes to the standard output of the lines of an item. -/
def printed (m : ResourceMethod) (lines : List Str) : List Str :=
  if m.config.printValue then lines else []

theorem logged_cons (r : Resource) (m : ResourceMethod) (line : Str) (lines : List Str) (p : Str) :
    logged r m (line :: lines) p = logged r m [line] p ++ logged r m lines p := by
  unfold logged
  split_ifs
  · rw [List.flatMap_singleton, List.flatMap_cons]
  · rfl

theorem printed_cons (m : ResourceMethod) (line : Str) (lines : List Str) :
    printed m (line :: lines) = printed m [line] ++ printed m lines := by
  unfold printed
  split_ifs <;> rfl

section Write
variable (i : ℕ) (r : Resource) (m : ResourceMethod) (env : ProcEnv)

theorem printLine_effect (line : Str) (w : CoAPServer κ) :
    (printLine (serverOps i r m env) m line).run w =
      .ok ⟨⟩ { w with stdout := w.stdout ++ printed m [line] } := by
  unfold printLine printed
  split_ifs
  · exact writeOut_run line
  · rw [List.append_nil]
    rfl

theorem logLine_effect (line : Str) (w : CoAPServer κ) : ∃ fs,
    (logLine (serverOps i r m env) m line).run w = .ok ⟨⟩ { w with fs := fs } ∧
    (∀ p, contentAt fs p = contentAt w.fs p ++ logged r m [line] p) ∧
    (∀ p, r.logFile ≠ some p → fs.files p = w.fs.files p) ∧ fs.access = w.fs.access := by
  by_cases hvalue : m.config.logValue = true
  · obtain ⟨fs, hrun, hcontent, hfiles⟩ := writeLog_effect r line w.fs
    refine ⟨fs, ?_, fun p => ?_, hfiles⟩
    · rw [logLine, if_pos hvalue]
      exact onFiles_ok hrun
    · rw [hcontent, logged, List.flatMap_singleton]
      simp only [hvalue, true_and]
  · refine ⟨w.fs, ?_, fun p => ?_, fun _ _ => rfl, rfl⟩
    · rw [logLine, if_neg hvalue]
      rfl
    · rw [logged, if_neg fun h => hvalue h.1, List.append_nil]

/-- **The lines are written**, and nothing else. -/
theorem writeValues_effect (pre : Str) (sss : List Str) : ∀ w : CoAPServer κ, ∃ fs,
    (writeValues (serverOps i r m env) m pre sss).run w =
      .ok ⟨⟩ { w with fs := fs, stdout := w.stdout ++ printed m (sss.map (pre ++ ·)) } ∧
    (∀ p, contentAt fs p = contentAt w.fs p ++ logged r m (sss.map (pre ++ ·)) p) ∧
    (∀ p, r.logFile ≠ some p → fs.files p = w.fs.files p) ∧ fs.access = w.fs.access := by
  induction sss with
  | nil =>
    intro w
    refine ⟨w.fs, ?_, fun p => ?_, fun _ _ => rfl, rfl⟩
    · simp only [writeValues, EStateM.run_pure, List.map_nil, printed, ite_self, List.append_nil]
    · simp only [List.map_nil, logged, List.flatMap_nil, ite_self, List.append_nil]
  | cons ss sss ih =>
    intro w
    obtain ⟨fs₁, hlog, hcontent₁, hfiles₁, hwrite₁⟩ := logLine_effect i r m env (pre ++ ss)
      { w with stdout := w.stdout ++ printed m [pre ++ ss] }
    obtain ⟨fs, hrun, hcontent, hfiles, hwrite⟩ := ih
      { w with stdout := w.stdout ++ printed m [pre ++ ss], fs := fs₁ }
    refine ⟨fs, ?_, fun p => ?_, fun p hp => (hfiles p hp).trans (hfiles₁ p hp),
      hwrite.trans hwrite₁⟩
    · simp only [writeValues, EStateM.run_bind, printLine_effect, hlog, hrun]
      rw [List.map_cons, printed_cons m (pre ++ ss) (sss.map (pre ++ ·)), List.append_assoc]
    · rw [hcontent, hcontent₁, List.append_assoc, List.map_cons,
        logged_cons r m (pre ++ ss) (sss.map (pre ++ ·))]

end Write

/-! ### The item -/

/-- **What an item leaves**: the object of its resource and its data file, and its lines. -/
structure ItemEffect (env : ProcEnv) (item : RequestQueueItem) (r : Resource) (m : ResourceMethod)
    (w w' : CoAPServer κ) : Prop where
  logDir : w'.logDir = w.logDir
  dynamicResources : w'.dynamicResources = w.dynamicResources
  registry : w'.registry = w.registry
  queue : w'.queue = w.queue
  cache : w'.cache = w.cache
  others : ∀ j, j ≠ item.src.resource → w'.resources[j]? = w.resources[j]?
  object : ∃ r', w'.resources[item.src.resource]? = some r' ∧ SameObject r r'
  stdout : w'.stdout = w.stdout ++ printed m (itemLines env r m item)
  content : ∀ p, p ≠ r.dataFilePath →
    contentAt w'.fs p = contentAt w.fs p ++ logged r m (itemLines env r m item) p
  files : ∀ p, p ≠ r.dataFilePath → r.logFile ≠ some p → w'.fs.files p = w.fs.files p

/-- What is processed keeps the resources. -/
theorem ItemEffect.grows {w w' : CoAPServer κ} {env : ProcEnv} {item : RequestQueueItem}
    {r : Resource} {m : ResourceMethod} (h : ItemEffect env item r m w w')
    (hr : w.resources[item.src.resource]? = some r) : Grows w w' := by
  intro i s hs
  by_cases hi : i = item.src.resource
  · subst hi
    rw [hr] at hs
    obtain rfl := Option.some.inj hs
    exact h.object
  · exact ⟨s, (h.others i hi).trans hs, rfl, rfl, rfl, rfl⟩

/-- An item that is processed has a resource and a method. -/
theorem item_method {item : RequestQueueItem} {env : ProcEnv} {w w' : CoAPServer κ} {ret : ℤ}
    (h : (handleRequestQueueItem item env).run w = .ok ret w') : ∃ r m,
      w.resources[item.src.resource]? = some r ∧ r.methods[item.src.method]? = some m ∧
      (handleItem (serverOps item.src.resource r m env) m (env.timestamp item.time) r.getPath
        item.data).run w = .ok ret w' := by
  obtain ⟨r, w₁, hget, h₁⟩ := run_bind_ok h
  obtain ⟨hr, hw⟩ := getResource_eq_ok hget
  subst hw
  cases hm : r.methods[item.src.method]? with
  | none =>
    simp only [hm] at h₁
    cases h₁
  | some m =>
    simp only [hm] at h₁
    exact ⟨r, m, hr, hm, h₁⟩

/-- **The effect of an item** that is processed, whatever its data and whatever commands do. -/
theorem item_effect {item : RequestQueueItem} {env : ProcEnv} {w w' : CoAPServer κ} {ret : ℤ}
    (h : (handleRequestQueueItem item env).run w = .ok ret w') {r : Resource} {m : ResourceMethod}
    (hr : w.resources[item.src.resource]? = some r) (hm : r.methods[item.src.method]? = some m)
    (htype : Queueable m.getMethodType) : ItemEffect env item r m w w' := by
  obtain ⟨r₀, m₀, hr₀, hm₀, h₀⟩ := item_method h
  rw [hr] at hr₀
  obtain rfl := Option.some.inj hr₀
  rw [hm] at hm₀
  obtain rfl := Option.some.inj hm₀
  obtain ⟨sss, w₁, hprocess, h₁⟩ := run_bind_ok h₀
  obtain rfl := yields_processItem _ r m env htype item.data _ _ _ hprocess
  have hconf := confined_processItem _ r m env item.data _ _ _ hprocess
  obtain ⟨fs, hwrite, hcontent, hfiles, -⟩ := writeValues_effect item.src.resource r m env
    (linePrefix m (env.timestamp item.time) r.getPath) (textsFrom env r m item.data 0 m.fmts) w₁
  simp only [EStateM.run_bind, hwrite] at h₁
  obtain ⟨-, rfl⟩ := EStateM.Result.ok.inj h₁
  refine ⟨hconf.logDir, hconf.dynamicResources, hconf.registry, hconf.queue, hconf.cache,
    hconf.others, hconf.object r hr, ?_, fun p hp => ?_, fun p hp hlog => ?_⟩
  · rw [← hconf.stdout]
    rfl
  · have hsame : contentAt w₁.fs p = contentAt w.fs p := by
      rw [contentAt, hconf.files r hr p hp, contentAt]
    rw [← hsame]
    exact hcontent p
  · exact (hfiles p hlog).trans (hconf.files r hr p hp)

end CoapServer.Server.Effects
