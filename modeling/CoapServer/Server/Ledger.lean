import CoapServer.Lib.Trace
import CoapServer.Server.Acknowledgement
import CoapServer.Server.Dispatch
import CoapServer.Server.Effects
import CoapServer.Server.Failures
import CoapServer.Server.Writes

/-! # Every acknowledged request is processed once, in order

The events of a run are the requests that are acknowledged, each with the item it asks for, and the
items the queue thread processes. In every run the items processed, followed by those in the queue,
are those of the acknowledged requests, in the order of the acknowledgements (`ledger_balances`), and
the standard output and every log file are the lines of the processed items (`logs_are_journals`).

The invariant needs that a handler registered with the library has its method (`Routed`), and that a
step keeps the resources there are with what an item finds in them. -/

namespace CoapServer.Server.Ledger

open CoapServer.Basic CoapServer.Config CoapServer.Lib.Frame CoapServer.Lib.Run
open CoapServer.Lib.Trace CoapServer.Resources.Files CoapServer.Resources.Object
open CoapServer.Blocks.SessionData CoapServer.Queue.Sequential CoapServer.Server.World
open CoapServer.Server.Requests CoapServer.Server.Process CoapServer.Server.Dynamic
open CoapServer.Server.Creation CoapServer.Server.Machine CoapServer.Server.Dispatch
open CoapServer.Server.LogLines CoapServer.Server.Effects CoapServer.Server.Acknowledgement

variable {κ : Type} [DecidableEq κ]

/-! ### Events -/

/-- **What is recorded of a run.** An acknowledged request that no item could be told of would be
recorded without one. -/
inductive Event where
  | acknowledged (item : Option RequestQueueItem)
  | processed (env : ProcEnv) (item : RequestQueueItem)

/-- The place of the resource that a request is for: the one that is registered, or the one that is
created for it. -/
def target (w : CoAPServer κ) (uri : Uri) : ℕ :=
  match w.registry uri.path with
  | some reg => reg.resource
  | none => w.resources.length

/-- **The item a request asks for**, where it leaves the server as `w'`: the first method of its type
of the resource it is for, with the value for a `GET` and with the body otherwise. -/
def itemOf (w w' : CoAPServer κ) (uri : Uri) (req : Request κ) (type : ResourceMethodType)
    (env : Env) : Option RequestQueueItem := do
  let r ← w'.resources[target w uri]?
  let (j, _) ← findMethod type r.methods 0
  let body := (sessionGetData r.getPath w.cache req []).dataOut
  return { src := ⟨target w uri, j⟩, data := if type = .get then r.value else body, time := env.now }

/-- The codes a request is acknowledged with. -/
def Positive (code : Code) : Prop := code = .ok ∨ code = .content

instance (code : Code) : Decidable (Positive code) := by
  unfold Positive
  infer_instance

/-- The events of a step. -/
def events (re : Matcher) (w : CoAPServer κ) : Label κ → List Event
  | .request uri req type env resp =>
    match (serve re req type env resp uri).run w with
    | .ok resp' w' =>
      if Positive resp'.code then [.acknowledged (itemOf w w' uri req type env)] else []
    | .error _ _ => []
  | .consume env => (contents w.queue).head?.toList.map (.processed env)
  | .poll => []
  | .files _ => []

/-- The items of the acknowledged requests. -/
def acknowledgedIn (es : List Event) : List (Option RequestQueueItem) :=
  es.filterMap fun e =>
    match e with
    | .acknowledged item => some item
    | .processed _ _ => none

/-- The items that were processed, with what their processing found around it. -/
def processedIn (es : List Event) : List (ProcEnv × RequestQueueItem) :=
  es.filterMap fun e =>
    match e with
    | .acknowledged _ => none
    | .processed env item => some (env, item)

/-- The resource and the method of an item. -/
def sourceAt (w : CoAPServer κ) (src : MethodRef) : Option (Resource × ResourceMethod) := do
  let r ← w.resources[src.resource]?
  let m ← r.methods[src.method]?
  return (r, m)

/-- The lines on the standard output of a processed item. -/
def printedOf (w : CoAPServer κ) (job : ProcEnv × RequestQueueItem) : List Str :=
  match sourceAt w job.2.src with
  | some (r, m) => printed m (itemLines job.1 r m job.2)
  | none => []

/-- What a processed item leaves in the log at `p`. -/
def loggedOf (w : CoAPServer κ) (p : Str) (job : ProcEnv × RequestQueueItem) : Str :=
  match sourceAt w job.2.src with
  | some (r, m) => logged r m (itemLines job.1 r m job.2) p
  | none => []

section Events
variable (es es' : List Event)

theorem acknowledgedIn_append :
    acknowledgedIn (es ++ es') = acknowledgedIn es ++ acknowledgedIn es' :=
  List.filterMap_append

theorem processedIn_append : processedIn (es ++ es') = processedIn es ++ processedIn es' :=
  List.filterMap_append

end Events

/-! ### Handlers have methods -/

/-- **What is registered is an object with the methods that have a handler.** -/
def Routed (l : Layout) : Prop :=
  ∀ p reg, l.registry p = some reg →
    ∃ c ms, l.objects[reg.resource]? = some (c, ms) ∧ reg.handles = hasType ms

theorem routed_created {re : Matcher} {l l' : Layout} (h : Created re l l') (hl : Routed l) :
    Routed l' := by
  obtain ⟨uri, cfg, sm, ms, -, -, -, -, rfl⟩ := h
  intro p reg hreg
  by_cases hp : p = uri
  · subst hp
    simp only [addObject, dynamicConfig, Function.update_self] at hreg
    obtain rfl := Option.some.inj hreg
    exact ⟨_, ms, List.getElem?_concat_length, rfl⟩
  · simp only [addObject, dynamicConfig, Function.update_of_ne hp] at hreg
    obtain ⟨c, ms', hobj, hhandles⟩ := hl p reg hreg
    refine ⟨c, ms', ?_, hhandles⟩
    rw [addObject, List.getElem?_append_left (List.getElem?_eq_some_iff.mp hobj).1, hobj]

theorem step_routed {re : Matcher} {w w' : CoAPServer κ} {l : Label κ} (h : Routed (layout w))
    (hs : step re w l = some w') : Routed (layout w') := by
  rcases step_layout hs with hsame | hcreated
  · rw [hsame]
    exact h
  · exact routed_created hcreated h

omit [DecidableEq κ] in
theorem attachAll_routed (is : List ℕ) : ∀ {w w' : CoAPServer κ}, (attachAll is).run w = .ok 0 w' →
    Routed (layout w) → Routed (layout w') := by
  induction is with
  | nil =>
    rintro w _ ⟨⟩ h
    exact h
  | cons i is ih =>
    intro w w' h hroute
    obtain ⟨r, w₁, hget, h₁⟩ := run_bind_ok h
    obtain ⟨hr, hw⟩ := getResource_eq_ok hget
    subst hw
    obtain ⟨⟨ret, r'⟩, w₂, hattach, h₂⟩ := run_bind_ok h₁
    simp only [EStateM.run_bind, EStateM.run_modify] at h₂
    by_cases hret : ret ≠ 0
    · rw [if_pos hret] at h₂
      cases h₂
    rw [if_neg hret] at h₂
    obtain rfl := not_not.mp hret
    obtain ⟨hsame, hres, hlayout⟩ := attach_ok hattach
    refine ih h₂ ?_
    rw [layout_set (by rw [hres]; exact hr) hsame, hlayout]
    intro p reg hreg
    by_cases hp : p = cStr r.config.resourcePath
    · subst hp
      simp only [registered, Function.update_self] at hreg
      obtain rfl := Option.some.inj hreg
      have hobj : (layout w₁).objects[i]? = some (r.config, r.methods) := by
        rw [layout, List.getElem?_map, hr, Option.map_some]
      exact ⟨_, _, hobj, rfl⟩
    · simp only [registered, Function.update_of_ne hp] at hreg
      exact hroute p reg hreg

omit [DecidableEq κ] in
/-- **A server that was started is routed.** -/
theorem init_routed {w w' : CoAPServer κ} (hempty : w.registry = fun _ => none)
    (h : init.run w = .ok 0 w') : Routed (layout w') := by
  simp only [init, EStateM.run_bind, EStateM.run_get] at h
  refine attachAll_routed _ h fun p reg hreg => ?_
  simp only [layout, hempty] at hreg
  cases hreg

/-! ### Sources -/

/-- **An item has a source** that requests are queued for. -/
def Sourced (w : CoAPServer κ) (item : RequestQueueItem) : Prop :=
  ∃ r m, sourceAt w item.src = some (r, m) ∧ Queueable m.getMethodType

omit [DecidableEq κ] in
theorem sourceAt_eq_some {w : CoAPServer κ} {src : MethodRef} {r : Resource} {m : ResourceMethod} :
    sourceAt w src = some (r, m) ↔
      w.resources[src.resource]? = some r ∧ r.methods[src.method]? = some m := by
  simp only [sourceAt, Option.bind_eq_bind, Option.bind_eq_some_iff, Option.pure_def,
    Option.some.injEq, Prod.mk.injEq]
  constructor
  · rintro ⟨r', hr', m', hm', rfl, rfl⟩
    exact ⟨hr', hm'⟩
  · rintro ⟨hr, hm⟩
    exact ⟨r, hr, m, hm, rfl, rfl⟩

section Grows
variable {w w' : CoAPServer κ} {item : RequestQueueItem}

omit [DecidableEq κ]

/-- A source stays where it is. -/
theorem source_grows (h : Grows w w') {r : Resource} {m : ResourceMethod}
    (hsrc : sourceAt w item.src = some (r, m)) :
    ∃ r', sourceAt w' item.src = some (r', m) ∧ SameObject r r' := by
  obtain ⟨hr, hm⟩ := sourceAt_eq_some.mp hsrc
  obtain ⟨r', hr', hsame⟩ := h _ r hr
  exact ⟨r', sourceAt_eq_some.mpr ⟨hr', hsame.methods ▸ hm⟩, hsame⟩

theorem Sourced.grows (hitem : Sourced w item) (h : Grows w w') : Sourced w' item := by
  obtain ⟨r, m, hsrc, htype⟩ := hitem
  obtain ⟨r', hsrc', -⟩ := source_grows h hsrc
  exact ⟨r', m, hsrc', htype⟩

/-- The lines of an item depend on what stays. -/
theorem itemLines_same {r r' : Resource} (h : SameObject r r') (env : ProcEnv) (m : ResourceMethod)
    (item : RequestQueueItem) : itemLines env r' m item = itemLines env r m item := by
  have hpath : r'.getPath = r.getPath := congrArg ResourceConfig.resourcePath h.config
  have hout : ∀ k data, cmdOutput env r' m k data = cmdOutput env r m k data := by
    intro k data
    rw [cmdOutput, cmdOutput, hpath]
  have htexts : ∀ fmts k, textsFrom env r' m item.data k fmts = textsFrom env r m item.data k fmts := by
    intro fmts
    induction fmts with
    | nil => exact fun _ => rfl
    | cons fmt fmts ih =>
      intro k
      rw [textsFrom, textsFrom, ih, textsOf, textsOf, hout]
  rw [itemLines, itemLines, htexts, hpath]

theorem printedOf_grows (h : Grows w w') (hitem : Sourced w item) (env : ProcEnv) :
    printedOf w' (env, item) = printedOf w (env, item) := by
  obtain ⟨r, m, hsrc, -⟩ := hitem
  obtain ⟨r', hsrc', hsame⟩ := source_grows h hsrc
  simp only [printedOf, hsrc, hsrc', itemLines_same hsame]

theorem loggedOf_grows (h : Grows w w') (hitem : Sourced w item) (p : Str) (env : ProcEnv) :
    loggedOf w' p (env, item) = loggedOf w p (env, item) := by
  obtain ⟨r, m, hsrc, -⟩ := hitem
  obtain ⟨r', hsrc', hsame⟩ := source_grows h hsrc
  simp only [loggedOf, hsrc, hsrc', itemLines_same hsame, logged, hsame.logFile]

end Grows

/-! ### Steps that write no lines -/

/-- **No lines are written**: the standard output stays, and so does the content of every file that
is not the data file of a resource. -/
structure Quiet (w w' : CoAPServer κ) : Prop where
  grows : Grows w w'
  stdout : w'.stdout = w.stdout
  content : ∀ p, (∀ r ∈ w'.resources, r.dataFilePath ≠ p) → contentAt w'.fs p = contentAt w.fs p

section Quiet
variable {w w' w'' : CoAPServer κ}

omit [DecidableEq κ]

theorem Quiet.of_eq (hr : w'.resources = w.resources) (hout : w'.stdout = w.stdout)
    (hfs : w'.fs = w.fs) : Quiet w w' :=
  ⟨Grows.of_eq hr, hout, fun p _ => by rw [hfs]⟩

theorem Quiet.refl (w : CoAPServer κ) : Quiet w w := Quiet.of_eq rfl rfl rfl

theorem Quiet.trans (h : Quiet w w') (h' : Quiet w' w'') : Quiet w w'' := by
  refine ⟨h.grows.trans h'.grows, h'.stdout.trans h.stdout, fun p hp => ?_⟩
  exact (h'.content p hp).trans (h.content p (h'.grows.dataFiles hp))

/-- A file that is opened for appending is left as it is. -/
theorem openAppend_content (p : Str) :
    Does (fun fs fs' => ∀ q, contentAt fs' q = contentAt fs q) (openAppend p) := by
  intro fs b fs' h
  simp only [openAppend, EStateM.run_bind, EStateM.run_get] at h
  split_ifs at h
  · simp only [EStateM.run_bind, EStateM.run_modify, EStateM.run_get] at h
    cases hfile : fs.files p with
    | some f =>
      simp only [hfile, Option.isNone_some, Bool.false_eq_true, if_false, EStateM.run_pure] at h
      obtain ⟨-, rfl⟩ := EStateM.Result.ok.inj h
      exact fun _ => rfl
    | none =>
      simp only [hfile, Option.isNone_none, if_true, EStateM.run_bind, EStateM.run_modify,
        EStateM.run_pure] at h
      obtain ⟨-, rfl⟩ := EStateM.Result.ok.inj h
      intro q
      rw [contentAt_put]
      split_ifs with hq
      · rw [hq, contentAt, hfile]
      · rfl
  · obtain ⟨-, rfl⟩ := EStateM.Result.ok.inj h
    exact fun _ => rfl

theorem createDirectories_content (p : Str) :
    Does (fun fs fs' => ∀ q, contentAt fs' q = contentAt fs q) (createDirectories p) := by
  intro fs u fs' h
  simp only [createDirectories, EStateM.run_bind, EStateM.run_get] at h
  split_ifs at h
  · obtain ⟨-, rfl⟩ := EStateM.Result.ok.inj h
    exact fun _ => rfl
  · cases h

/-- The constructor changes the content of no file. -/
theorem create_content (config : ResourceConfig) (logDir : Str) :
    Does (fun fs fs' => ∀ q, contentAt fs' q = contentAt fs q) (create config logDir) :=
  does_create (fun _ _ => rfl) (fun h h' q => (h' q).trans (h q)) openAppend_content
    createDirectories_content config logDir

/-- **Creating a resource writes no lines.** -/
theorem quiet_createResource (config : ResourceConfig) :
    Does Quiet (createResource config : ServerM κ Bool) := by
  intro w b w' h
  obtain ⟨err, hrun⟩ := createResource_run config w
  rw [hrun] at h
  cases hcreate : (create config w.logDir).run w.fs with
  | error e fs =>
    rw [hcreate] at h
    cases h
  | ok r fs =>
    have hcontent := create_content config w.logDir _ _ _ hcreate
    simp only [hcreate] at h
    split_ifs at h
    · cases hinit : r.initValue.run fs with
      | error e fs' =>
        rw [hinit] at h
        cases h
      | ok r' fs' =>
        simp only [hinit] at h
        obtain ⟨-, rfl⟩ := EStateM.Result.ok.inj h
        refine ⟨fun i s hs => ⟨s, ?_, rfl, rfl, rfl, rfl⟩, rfl, fun p hp => ?_⟩
        · rw [List.getElem?_append_left (List.getElem?_eq_some_iff.mp hs).1, hs]
        · have hpath : r.dataFilePath ≠ p := by
            rw [← (initValue_same r _ _ _ hinit).dataFilePath]
            exact hp r' (List.mem_append_right _ (List.mem_singleton_self r'))
          exact (contentAt_congr (initValue_files hinit hpath)).trans (hcontent p)
    · obtain ⟨-, rfl⟩ := EStateM.Result.ok.inj h
      exact ⟨Grows.of_eq rfl, rfl, fun p _ => hcontent p⟩

/-- **A poll writes no lines.** -/
theorem quiet_updateAt (i : ℕ) : Does Quiet (updateAt i : ServerM κ Unit) := by
  intro w u w' h
  obtain ⟨r, w₁, hget, h₁⟩ := run_bind_ok h
  obtain ⟨hr, hw⟩ := getResource_eq_ok hget
  obtain ⟨r', w₂, hfile, h₂⟩ := run_bind_ok h₁
  obtain ⟨fs, hrun, rfl⟩ := onFiles_eq_ok hfile
  obtain ⟨-, rfl⟩ := EStateM.Result.ok.inj h₂
  subst hw
  obtain rfl := valueUpdate_files hrun
  refine ⟨fun j s hs => ?_, rfl, fun _ _ => rfl⟩
  by_cases hj : i = j
  · subst hj
    rw [hr] at hs
    obtain rfl := Option.some.inj hs
    refine ⟨r', ?_, valueUpdate_same r _ _ _ hrun⟩
    exact List.getElem?_set_self (List.getElem?_eq_some_iff.mp hr).1
  · exact ⟨s, (List.getElem?_set_ne hj).trans hs, rfl, rfl, rfl, rfl⟩

theorem quiet_valueUpdate : Does Quiet (valueUpdate : ServerM κ Unit) := by
  have hall : ∀ is : List ℕ, Does Quiet (updateAll is : ServerM κ Unit) := by
    intro is
    induction is with
    | nil => exact Does.pure Quiet.refl _
    | cons i is ih => exact Does.bind Quiet.trans (quiet_updateAt i) fun _ => ih
  exact Does.bind Quiet.trans (Does.get Quiet.refl) fun _ => hall _

end Quiet

omit [DecidableEq κ] in
/-- **A request writes no lines.** -/
theorem quiet_calls : RequestCalls (Quiet : CoAPServer κ → CoAPServer κ → Prop) :=
  { refl := Quiet.refl
    trans := Quiet.trans
    inward := fun _ _ _ _ => Quiet.of_eq rfl rfl rfl
    create := quiet_createResource }

/-! ### What is acknowledged is queued -/

/-- **The queue after a request**: an item more if it is acknowledged, as before if not. -/
def Recorded (w w' : CoAPServer κ) (uri : Uri) (req : Request κ) (type : ResourceMethodType)
    (env : Env) (code : Code) (L : List RequestQueueItem) : Prop :=
  if Positive code then
    ∃ item, itemOf w w' uri req type env = some item ∧ Sourced w' item ∧
      Represents w'.queue (L ++ [item])
  else Represents w'.queue L

section Queue
variable {uri : Uri} {req : Request κ} {type : ResourceMethodType} {env : Env}
  {resp resp' : Response} {w w₁ w' : CoAPServer κ} {L : List RequestQueueItem}

/-- A request that the resource `r` at the target handles. -/
theorem handle_recorded {r : Resource} (htype : Queueable type)
    (hr : w₁.resources[target w uri]? = some r) (hmeth : ∃ m ∈ r.methods, m.getMethodType = type)
    (hcache : w₁.cache = w.cache) (hq : Represents w₁.queue L)
    (h : (handleCoAPRequest (target w uri) req type env resp).run w₁ = .ok resp' w') :
    Recorded w w' uri req type env resp'.code L := by
  have hack : Acknowledged (fun data => data = (sessionGetData r.getPath w₁.cache req []).dataOut)
      w₁ (target w uri) r req type env resp := handle_handled hr hq htype hmeth fun _ _ _ => rfl
  obtain ⟨resp'', w'', hrun, hhandled, hres⟩ := hack
  obtain ⟨rfl, rfl⟩ := EStateM.Result.ok.inj (h.symm.trans hrun)
  unfold Recorded
  cases hhandled with
  | waiting hcode hqueue =>
    rw [hcode, if_neg (by decide), hqueue]
    exact hq
  | refused hcode hqueue _ =>
    rw [hcode, if_neg (by decide), hqueue]
    exact hq
  | queued hcode j m data hfirst hmethod hof hqueue hvalue hbody =>
    have hpos : Positive resp'.code := by
      rw [hcode]
      split_ifs
      · exact Or.inr rfl
      · exact Or.inl rfl
    have hr' : w'.resources[target w uri]? = some r := by rw [hres, hr]
    have hdata : data = if type = .get then r.value
        else (sessionGetData r.getPath w.cache req []).dataOut := by
      split_ifs with hget
      · exact hvalue hget
      · rw [hbody hget, hcache]
    rw [if_pos hpos]
    refine ⟨⟨⟨target w uri, j⟩, data, env.now⟩, ?_, ⟨r, m, ?_, hof ▸ htype⟩, ?_⟩
    · simp only [itemOf, hr', hfirst, hdata, Option.bind_eq_bind, Option.bind_some, Option.pure_def]
    · exact sourceAt_eq_some.mpr ⟨hr', hmethod⟩
    · rw [hq.contents_eq] at hqueue
      exact hqueue

omit [DecidableEq κ] in
/-- A handler that is registered has its method. -/
theorem routed_method {w : CoAPServer κ} (h : Routed (layout w)) {p : Str} {reg : Registered}
    (hreg : w.registry p = some reg) (hhandles : reg.handles type = true) :
    ∃ r, w.resources[reg.resource]? = some r ∧ ∃ m ∈ r.methods, m.getMethodType = type := by
  obtain ⟨c, ms, hobj, hms⟩ := h p reg hreg
  rw [layout, List.getElem?_map, Option.map_eq_some_iff] at hobj
  obtain ⟨r, hr, heq⟩ := hobj
  obtain ⟨-, rfl⟩ := Prod.mk.inj heq
  rw [hms, hasType, List.any_eq_true] at hhandles
  obtain ⟨m, hm, ht⟩ := hhandles
  exact ⟨r, hr, m, hm, of_decide_eq_true ht⟩

/-- A negative answer that leaves the queue. -/
theorem recorded_negative (code : Code) (hcode : ¬ Positive code) (hq : Represents w.queue L)
    (hqueue : w'.queue = w.queue) : Recorded w w' uri req type env code L := by
  rw [Recorded, if_neg hcode, hqueue]
  exact hq

/-- **A request is recorded as it is answered.** -/
theorem serve_recorded {re : Matcher} (hroute : Routed (layout w)) (hq : Represents w.queue L)
    (htype : Queueable type) (h : (serve re req type env resp uri).run w = .ok resp' w') :
    Recorded w w' uri req type env resp'.code L := by
  simp only [serve, EStateM.run_bind, EStateM.run_get] at h
  cases hreg : w.registry uri.path with
  | some reg =>
    have htarget : target w uri = reg.resource := by rw [target, hreg]
    simp only [hreg] at h
    split_ifs at h with hhandles
    · obtain ⟨r, hr, hmeth⟩ := routed_method hroute hreg hhandles
      rw [← htarget] at hr h
      exact handle_recorded htype hr hmeth rfl hq h
    · obtain ⟨rfl, rfl⟩ := EStateM.Result.ok.inj h
      exact recorded_negative .notAllowed (by decide) hq rfl
  | none =>
    have htarget : target w uri = w.resources.length := by rw [target, hreg]
    simp only [hreg, EStateM.run_bind, EStateM.run_get] at h
    split_ifs at h
    · obtain ⟨rfl, rfl⟩ := EStateM.Result.ok.inj h
      exact recorded_negative .notFound (by decide) hq rfl
    simp only [handleDynamicRequest, EStateM.run_bind, EStateM.run_get, cStr_eq_self uri.noZero] at h
    rcases match_of_handleConfigs h with hnone | ⟨cfg, sm, hfirst⟩
    · rw [handleConfigs_none hnone] at h
      obtain ⟨rfl, rfl⟩ := EStateM.Result.ok.inj h
      exact recorded_negative .notFound (by decide) hq rfl
    rw [handleConfigs_first hfirst] at h
    by_cases hhas : Has cfg type
    · rw [handleMatch_has hhas] at h
      cases hcreate : (createResource (dynamicConfig cfg uri.path sm)).run (substituted w cfg sm) with
      | error e w₁ =>
        rw [hcreate] at h
        cases h
      | ok b w₁ =>
        cases b with
        | false =>
          have hkeep : w₁.queue = (substituted w cfg sm).queue :=
            Failures.queue_createResource _ _ _ _ hcreate
          simp only [hcreate] at h
          obtain ⟨rfl, rfl⟩ := EStateM.Result.ok.inj h
          exact recorded_negative .internalError (by decide) hq hkeep
        | true =>
          obtain ⟨r, hres, hconfig, hmethods, hqueue, hcache, -⟩ := createResource_ok uri.noZero hcreate
          have hr : w₁.resources[target w uri]? = some r := by
            rw [htarget, hres]
            exact List.getElem?_concat_length
          have hmeth : ∃ m ∈ r.methods, m.getMethodType = type := by
            have htypes := (hasType_iff hmethods type).mpr hhas
            rw [hasType, List.any_eq_true] at htypes
            obtain ⟨m, hm, ht⟩ := htypes
            exact ⟨m, hm, of_decide_eq_true ht⟩
          simp only [hcreate, ← htarget] at h
          exact handle_recorded htype hr hmeth hcache (hqueue ▸ hq) h
    · rw [handleMatch_lacks hhas] at h
      obtain ⟨rfl, rfl⟩ := EStateM.Result.ok.inj h
      exact recorded_negative .notAllowed (by decide) hq rfl

omit [DecidableEq κ] in
/-- A round of the queue thread finds the queue empty, or takes the first item and processes it. -/
theorem consume_ok {env : ProcEnv} {u : Unit} (hq : Represents w.queue L)
    (h : (consume env).run w = .ok u w') : (L = [] ∧ w' = w) ∨
      ∃ item rest q ret, L = item :: rest ∧ Represents q rest ∧
        (handleRequestQueueItem item env).run { w with queue := q } = .ok ret w' := by
  cases L with
  | nil =>
    rw [Writes.consume_nil hq env] at h
    exact Or.inl ⟨rfl, (EStateM.Result.ok.inj h).2.symm⟩
  | cons item rest =>
    obtain ⟨q, hrun, hrep, -⟩ := dequeue_cons hq
    have htaken : (consume env).run w = (do
        let _ ← handleRequestQueueItem item env).run { w with queue := q } := by
      simp only [consume, EStateM.run_bind, onQueue_ok (count_run hq), List.length_cons, ne_eq,
        Nat.succ_ne_zero, not_false_eq_true, if_true, onQueue_ok hrun]
    rw [htaken] at h
    obtain ⟨ret, w₁, hitem, h₁⟩ := run_bind_ok h
    obtain ⟨-, rfl⟩ := EStateM.Result.ok.inj h₁
    exact Or.inr ⟨item, rest, q, ret, rfl, hrep, hitem⟩

end Queue

/-! ### The books -/

/-- **The books of a run** that began in `w₀`, with the items `L` in the queue: what was acknowledged
is what was processed and what is still to be, and the standard output is the lines of the former. -/
structure Books (w₀ : CoAPServer κ) (es : List Event) (w : CoAPServer κ)
    (L : List RequestQueueItem) : Prop where
  routed : Routed (layout w)
  queue : Represents w.queue L
  balance : acknowledgedIn es = ((processedIn es).map Prod.snd ++ L).map some
  sourced : ∀ item ∈ (processedIn es).map Prod.snd ++ L, Sourced w item
  stdout : w.stdout = w₀.stdout ++ (processedIn es).flatMap (printedOf w)

/-- **The journal of a run** that began in `w₀`: the file at `p` has the lines of the processed items
behind what it had. -/
def Journal (p : Str) (w₀ : CoAPServer κ) (es : List Event) (w : CoAPServer κ) : Prop :=
  (∀ r ∈ w.resources, r.dataFilePath ≠ p) →
    contentAt w.fs p = contentAt w₀.fs p ++ (processedIn es).flatMap (loggedOf w p)

section Books
variable {w₀ w w' : CoAPServer κ} {es : List Event} {L : List RequestQueueItem}

omit [DecidableEq κ]

/-- The lines of what was processed stay. -/
theorem lines_grow (h : Grows w w')
    (hsrc : ∀ item ∈ (processedIn es).map Prod.snd, Sourced w item) :
    (processedIn es).flatMap (printedOf w') = (processedIn es).flatMap (printedOf w) ∧
      ∀ p, (processedIn es).flatMap (loggedOf w' p) = (processedIn es).flatMap (loggedOf w p) := by
  have hjob : ∀ job ∈ processedIn es, Sourced w job.2 :=
    fun job hmem => hsrc _ (List.mem_map_of_mem hmem)
  refine ⟨?_, fun p => ?_⟩
  · exact List.flatMap_congr fun job hmem => printedOf_grows h (hjob job hmem) job.1
  · exact List.flatMap_congr fun job hmem => loggedOf_grows h (hjob job hmem) p job.1

theorem Books.processed (h : Books w₀ es w L) :
    ∀ item ∈ (processedIn es).map Prod.snd, Sourced w item :=
  fun item hitem => h.sourced item (List.mem_append_left _ hitem)

/-- A journal through a step that writes no lines. -/
theorem Journal.quiet {p : Str} (h : Journal p w₀ es w) (hb : Books w₀ es w L) (hq : Quiet w w')
    {es' : List Event} (hes : processedIn es' = []) : Journal p w₀ (es ++ es') w' := by
  intro hp
  rw [processedIn_append, hes, List.append_nil, hq.content p hp, h (hq.grows.dataFiles hp),
    (lines_grow hq.grows hb.processed).2 p]

/-- A step that neither acknowledges nor processes. -/
theorem Books.quiet (h : Books w₀ es w L) (hq : Quiet w w') (hroute : Routed (layout w'))
    (hqueue : Represents w'.queue L) : Books w₀ (es ++ []) w' L := by
  rw [List.append_nil]
  refine ⟨hroute, hqueue, h.balance, fun item hitem => (h.sourced item hitem).grows hq.grows, ?_⟩
  rw [hq.stdout, h.stdout, (lines_grow hq.grows h.processed).1]

/-- A step that acknowledges a request. -/
theorem Books.acknowledge (h : Books w₀ es w L) (hq : Quiet w w') (hroute : Routed (layout w'))
    {item : RequestQueueItem} (hsrc : Sourced w' item) (hqueue : Represents w'.queue (L ++ [item])) :
    Books w₀ (es ++ [.acknowledged (some item)]) w' (L ++ [item]) := by
  have hproc : processedIn (es ++ [.acknowledged (some item)]) = processedIn es := by
    rw [processedIn_append]
    exact List.append_nil _
  refine ⟨hroute, hqueue, ?_, ?_, ?_⟩
  · have hlast : ((processedIn es).map Prod.snd ++ L ++ [item]).map some =
        ((processedIn es).map Prod.snd ++ L).map some ++ [some item] := List.map_append
    rw [acknowledgedIn_append, hproc, h.balance, ← List.append_assoc, hlast]
    rfl
  · rw [hproc, ← List.append_assoc]
    intro item' hitem
    rcases List.mem_append.mp hitem with hitem | hitem
    · exact (h.sourced item' hitem).grows hq.grows
    · obtain rfl := List.mem_singleton.mp hitem
      exact hsrc
  · rw [hproc, hq.stdout, h.stdout, (lines_grow hq.grows h.processed).1]

/-- **A step that processes the first item.** -/
theorem process_step {env : ProcEnv} {item : RequestQueueItem} {rest : List RequestQueueItem}
    {q : RequestQueue RequestQueueItem} {ret : ℤ} (h : Books w₀ es w (item :: rest))
    (hroute : Routed (layout w')) (hrep : Represents q rest)
    (hrun : (handleRequestQueueItem item env).run { w with queue := q } = .ok ret w') :
    Books w₀ (es ++ [.processed env item]) w' rest ∧
      ∀ p, Journal p w₀ es w → Journal p w₀ (es ++ [.processed env item]) w' := by
  have hitem : Sourced w item := h.sourced item (List.mem_append_right _ List.mem_cons_self)
  obtain ⟨r, m, hsrc, htype⟩ := hitem
  obtain ⟨hr, hm⟩ := sourceAt_eq_some.mp hsrc
  have heffect := item_effect hrun hr hm htype
  have hgrows : Grows w w' := by
    have hsame : Grows w { w with queue := q } := Grows.of_eq rfl
    exact hsame.trans (heffect.grows hr)
  obtain ⟨r', hsrc', hsame⟩ := source_grows hgrows hsrc
  have hproc : processedIn (es ++ [.processed env item]) = processedIn es ++ [(env, item)] :=
    processedIn_append _ _
  have hack : acknowledgedIn (es ++ [.processed env item]) = acknowledgedIn es := by
    rw [acknowledgedIn_append]
    exact List.append_nil _
  have hitems : (processedIn es ++ [(env, item)]).map Prod.snd ++ rest =
      (processedIn es).map Prod.snd ++ item :: rest := by
    rw [List.map_append, List.append_assoc]
    rfl
  obtain ⟨hprinted, hlogged⟩ := lines_grow hgrows h.processed
  refine ⟨⟨hroute, heffect.queue ▸ hrep, ?_, ?_, ?_⟩, fun p hj hp => ?_⟩
  · rw [hack, hproc, hitems, h.balance]
  · rw [hproc, hitems]
    exact fun item' hitem' => (h.sourced item' hitem').grows hgrows
  · have hline : printedOf w' (env, item) = printed m (itemLines env r m item) := by
      simp only [printedOf, hsrc', itemLines_same hsame]
    rw [hproc, List.flatMap_append, List.flatMap_singleton, hprinted, hline, ← List.append_assoc,
      ← h.stdout]
    exact heffect.stdout
  · have hline : loggedOf w' p (env, item) = logged r m (itemLines env r m item) p := by
      simp only [loggedOf, hsrc', itemLines_same hsame, logged, hsame.logFile]
    have hold := hgrows.dataFiles hp
    rw [hproc, List.flatMap_append, List.flatMap_singleton, hlogged, hline, ← List.append_assoc,
      ← hj hold]
    exact heffect.content p (hold r (List.mem_of_getElem? hr)).symm

end Books

/-- The files at `p` are not changed from outside. -/
def Untouched (p : Str) (w : CoAPServer κ) : Label κ → Prop
  | .files fs => fs.files p = w.fs.files p
  | .request .. | .consume .. | .poll => True

/-- **A step keeps the books.** -/
theorem step_books {re : Matcher} {w₀ w w' : CoAPServer κ} {es : List Event}
    {L : List RequestQueueItem} {l : Label κ} (h : Books w₀ es w L) (hs : step re w l = some w') :
    (∃ L', Books w₀ (es ++ events re w l) w' L') ∧
      ∀ p, Untouched p w l → Journal p w₀ es w → Journal p w₀ (es ++ events re w l) w' := by
  have hroute := step_routed h.routed hs
  cases l with
  | request uri req type env resp =>
    simp only [step] at hs
    split_ifs at hs with htype
    obtain ⟨resp', hrun⟩ := after_eq_some hs
    have hquiet := does_serve quiet_calls req type env resp re uri _ _ _ hrun
    have hrec := serve_recorded h.routed h.queue htype hrun
    have hnone : ∀ item, processedIn [.acknowledged item] = [] := fun _ => rfl
    simp only [events, hrun]
    by_cases hpos : Positive resp'.code
    · rw [Recorded, if_pos hpos] at hrec
      obtain ⟨item, hitem, hsrc, hqueue⟩ := hrec
      rw [if_pos hpos, hitem]
      exact ⟨⟨_, h.acknowledge hquiet hroute hsrc hqueue⟩,
        fun p _ hj => hj.quiet h hquiet (hnone _)⟩
    · rw [Recorded, if_neg hpos] at hrec
      rw [if_neg hpos]
      exact ⟨⟨_, h.quiet hquiet hroute hrec⟩, fun p _ hj => hj.quiet h hquiet rfl⟩
  | consume env =>
    obtain ⟨u, hrun⟩ := after_eq_some hs
    rcases consume_ok h.queue hrun with ⟨rfl, rfl⟩ | ⟨item, rest, q, ret, rfl, hrep, hitem⟩
    · have hnil : events re w' (.consume env) = [] := by rw [events, h.queue.contents_eq]; rfl
      rw [hnil]
      exact ⟨⟨_, h.quiet (Quiet.refl _) hroute h.queue⟩,
        fun p _ hj => hj.quiet h (Quiet.refl _) rfl⟩
    · have hone : events re w (.consume env) = [.processed env item] := by
        rw [events, h.queue.contents_eq]
        rfl
      rw [hone]
      obtain ⟨hbooks, hjournal⟩ := process_step h hroute hrep hitem
      exact ⟨⟨_, hbooks⟩, fun p _ => hjournal p⟩
  | poll =>
    obtain ⟨u, hrun⟩ := after_eq_some hs
    have hquiet := quiet_valueUpdate _ _ _ hrun
    have hqueue : w'.queue = w.queue := keeps_valueUpdate Failures.steady_queue _ _ _ hrun
    exact ⟨⟨_, h.quiet hquiet hroute (hqueue ▸ h.queue)⟩, fun p _ hj => hj.quiet h hquiet rfl⟩
  | files fs =>
    obtain rfl := Option.some.inj hs
    have hgrows : Grows w { w with fs } := Grows.of_eq rfl
    refine ⟨⟨L, ?_⟩, fun p hp hj hdata => ?_⟩
    · rw [events, List.append_nil]
      refine ⟨hroute, h.queue, h.balance, fun item hitem => (h.sourced item hitem).grows hgrows, ?_⟩
      rw [(lines_grow hgrows h.processed).1]
      exact h.stdout
    · rw [events, List.append_nil, (lines_grow hgrows h.processed).2 p, ← hj hdata]
      exact contentAt_congr hp

/-- **The books balance after every run.** -/
theorem run_books {re : Matcher} {p : Str} {wp w₀ w : CoAPServer κ} {es : List Event}
    (hempty : wp.registry = fun _ => none) (hqueue : Represents wp.queue [])
    (hinit : init.run wp = .ok 0 w₀)
    {G : CoAPServer κ → Label κ → Prop} (h : Traces (step re) G (events re) w₀ es w) :
    (∃ L, Books w₀ es w L) ∧ ((∀ w l, G w l → Untouched p w l) → Journal p w₀ es w) := by
  have hstart : Books w₀ [] w₀ [] :=
    ⟨init_routed hempty hinit, Failures.queue_init _ _ _ hinit ▸ hqueue, rfl,
      fun item hitem => absurd hitem List.not_mem_nil, (List.append_nil _).symm⟩
  refine Traces.invariant (P := fun es w => (∃ L, Books w₀ es w L) ∧
    ((∀ w l, G w l → Untouched p w l) → Journal p w₀ es w)) ?_ h
    ⟨⟨[], hstart⟩, fun _ _ => (List.append_nil _).symm⟩
  rintro es w l w' ⟨⟨L, hbooks⟩, hjournal⟩ hg hs
  obtain ⟨hbooks', hjournal'⟩ := step_books hbooks hs
  exact ⟨hbooks', fun hall => hjournal' p (hall w l hg) (hjournal hall)⟩

/-- **Every acknowledged request is processed at most once, in order, and none is lost**: in every run
after `init`, whatever requests, rounds of the queue thread, polls and changes of the files it is made
of, the items processed and then those in the queue are those of the acknowledged requests; and the
standard output is the lines of the items processed, in that order. -/
theorem ledger_balances {re : Matcher} {wp w₀ w : CoAPServer κ} {es : List Event}
    (hempty : wp.registry = fun _ => none) (hqueue : Represents wp.queue [])
    (hinit : init.run wp = .ok 0 w₀)
    (h : Traces (step re) (fun _ _ => True) (events re) w₀ es w) :
    acknowledgedIn es = ((processedIn es).map Prod.snd ++ contents w.queue).map some ∧
    (∀ item ∈ (processedIn es).map Prod.snd ++ contents w.queue, Sourced w item) ∧
    w.stdout = w₀.stdout ++ (processedIn es).flatMap (printedOf w) := by
  obtain ⟨⟨L, hbooks⟩, -⟩ := run_books (p := []) hempty hqueue hinit h
  rw [hbooks.queue.contents_eq]
  exact ⟨hbooks.balance, hbooks.sourced, hbooks.stdout⟩

/-- A `PUT` to a dynamic resource, and a round of the queue thread. -/
def putVal : List (Label ℕ) :=
  [.request valUri Writes.putByte .put ⟨⟨0, 0⟩, []⟩ ⟨.empty, .con, [], none⟩, .consume Writes.quiet]

/-- One request is processed, of a resource without a data file. -/
theorem putVal_trace {G : CoAPServer ℕ → Label ℕ → Prop} (hG : ∀ l ∈ putVal, ∀ w, G w l) :
    ∃ es w, Traces (step valMatcher) G (events valMatcher) dynamicServer es w ∧
      (processedIn es).length = 1 ∧ ∀ r ∈ w.resources, r.dataFilePath = [] := by
  have hplay : (play (step valMatcher) (events valMatcher) putVal dynamicServer).map (fun x =>
      decide ((processedIn x.1).length = 1 ∧ ∀ r ∈ x.2.resources, r.dataFilePath = [])) =
      some true := by decide +kernel
  obtain ⟨⟨es, w⟩, hrun, hcheck⟩ := Option.map_eq_some_iff.mp hplay
  exact ⟨es, w, traces_of_play putVal hG hrun, of_decide_eq_true hcheck⟩

theorem ledger_balances_val : ∃ es w,
    Traces (step valMatcher) (fun _ _ => True) (events valMatcher) dynamicServer es w ∧
    (processedIn es).length = 1 ∧
    acknowledgedIn es = ((processedIn es).map Prod.snd ++ contents w.queue).map some ∧
    w.stdout = (processedIn es).flatMap (printedOf w) := by
  obtain ⟨es, w, htrace, hone, -⟩ := putVal_trace fun _ _ _ => trivial
  have hempty : dynamicServer.registry = fun _ => none := rfl
  obtain ⟨hbalance, -, hout⟩ :=
    ledger_balances hempty (putServer_queue Cache.empty) rfl htrace
  exact ⟨es, w, htrace, hone, hbalance, hout⟩

/-- **A log file is a journal of what was processed**: where it is not a data file and is not changed
from outside, it has the lines of the items processed behind what it had at the start, whatever
happens to the other files. -/
theorem logs_are_journals {re : Matcher} {p : Str} {wp w₀ w : CoAPServer κ} {es : List Event}
    (hempty : wp.registry = fun _ => none) (hqueue : Represents wp.queue [])
    (hinit : init.run wp = .ok 0 w₀)
    (h : Traces (step re) (Untouched p) (events re) w₀ es w)
    (hp : ∀ r ∈ w.resources, r.dataFilePath ≠ p) :
    contentAt w.fs p = contentAt w₀.fs p ++ (processedIn es).flatMap (loggedOf w p) :=
  (run_books hempty hqueue hinit h).2 (fun _ _ hg => hg) hp

/-- The log file of the dynamic resource. -/
def valLog : Str := str "logs/dynamic/a/value-7.log"

theorem untouched_putVal : ∀ l ∈ putVal, ∀ w, Untouched valLog w l := by
  intro l hl w
  simp only [putVal, List.mem_cons, List.not_mem_nil, or_false] at hl
  rcases hl with rfl | rfl
  · trivial
  · trivial

theorem logs_are_journals_val : ∃ es w,
    Traces (step valMatcher) (Untouched valLog) (events valMatcher) dynamicServer es w ∧
    (processedIn es).length = 1 ∧
    contentAt w.fs valLog = (processedIn es).flatMap (loggedOf w valLog) := by
  obtain ⟨es, w, htrace, hone, hdata⟩ := putVal_trace untouched_putVal
  have hlog : ∀ r ∈ w.resources, r.dataFilePath ≠ valLog := by
    intro r hr
    rw [hdata r hr]
    decide
  have hempty : dynamicServer.registry = fun _ => none := rfl
  exact ⟨es, w, htrace, hone, logs_are_journals hempty
    (putServer_queue Cache.empty) rfl htrace hlog⟩

end CoapServer.Server.Ledger
