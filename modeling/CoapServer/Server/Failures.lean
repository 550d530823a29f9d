import CoapServer.Queue.Shutdown
import CoapServer.Resources.Construction
import CoapServer.Server.Commands
import CoapServer.Server.Registration

/-! # Requests that fail

The constructor of the server makes the static resources and with them checks their formats and log
files. A dynamic configuration is stored unchecked: its pattern is compiled when a request gets to
it, its formats and its log file are looked at when a resource is created for a URI that matches.

`ends_handleDynamicRequest` says when `handleDynamicRequest` returns, on files that can all be
written and a queue that holds a list. Every run from the start keeps the queue so (`run_intact`),
and a configuration that is accepted has methods with a handler only; `answers_iff_sound` puts this
together. -/

namespace CoapServer.Server.Failures

open CoapServer.Basic CoapServer.Config CoapServer.Lib.Frame CoapServer.Lib.Outcome
open CoapServer.Lib.Run CoapServer.Parse.Constructors CoapServer.Resources.Files
open CoapServer.Resources.Object CoapServer.Resources.Construction CoapServer.Blocks.SessionData
open CoapServer.Queue.Sequential CoapServer.Server.World
open CoapServer.Queue.Shutdown (Holds holds_new)
open CoapServer.Server.Registration (fullLibrary openFs twoSlots)
open CoapServer.Server.Requests CoapServer.Server.Process CoapServer.Server.Dynamic
open CoapServer.Server.Creation CoapServer.Server.Machine CoapServer.Server.Dispatch
open CoapServer.Server.Commands CoapServer.Server.Startup

variable {κ : Type}

/-! ### The queue along a run -/

/-- **The request queue holds a list.** -/
def Intact (w : CoAPServer κ) : Prop := ∃ L, Holds w.queue L

section Queue
variable {β : Type}

theorem preserves_enqueue (item : RequestQueueItem) :
    Preserves (fun q => ∃ L, Holds q L) (enqueue item) := by
  rintro q ret q' h ⟨L, hL⟩
  rcases hL.enqueue h with ⟨-, hnext, -⟩ | ⟨-, rfl, -⟩
  · exact ⟨_, hnext⟩
  · exact ⟨L, hL⟩

theorem preserves_dequeue :
    Preserves (fun q : RequestQueue RequestQueueItem => ∃ L, Holds q L) dequeue := by
  rintro q item q' h ⟨L, hL⟩
  obtain ⟨L', -, hrest⟩ := hL.dequeue h
  exact ⟨L', hrest⟩

theorem preserves_count :
    Preserves (fun q : RequestQueue RequestQueueItem => ∃ L, Holds q L) count := by
  rintro q n q' h ⟨L, hL⟩
  obtain ⟨rfl, -⟩ := hL.count h
  exact ⟨L, hL⟩

theorem preserves_methodHandler (src : MethodRef) (r : Resource) (m : ResourceMethod) (data : Str)
    (env : Env) (resp : Response) :
    Preserves (fun q => ∃ L, Holds q L) (methodHandler src r m data env resp) := by
  unfold methodHandler
  cases m.getMethodType with
  | get | put | post =>
    exact Preserves.bind (preserves_enqueue _) fun _ =>
      Preserves.ite (Preserves.pure _) (Preserves.pure _)
  | _ => exact Preserves.pure _

theorem intact_onQueue {m : QueueM RequestQueueItem β} (hm : Preserves (fun q => ∃ L, Holds q L) m) :
    Preserves Intact (onQueue m : ServerM κ β) := by
  intro w b w' h hI
  simp only [onQueue, EStateM.run] at h
  cases hrun : m w.queue with
  | ok b' q =>
    rw [hrun] at h
    obtain ⟨rfl, rfl⟩ := EStateM.Result.ok.inj h
    exact hm _ _ _ hrun hI
  | error e q =>
    rw [hrun] at h
    cases h

/-- A call that keeps the queue. -/
theorem intact_of_keeps {m : ServerM κ β} (hm : Keeps CoAPServer.queue m) : Preserves Intact m :=
  hm.preserves fun q => ∃ L, Holds q L

theorem steady_queue : Steady (CoAPServer.queue : CoAPServer κ → RequestQueue RequestQueueItem) :=
  ⟨fun _ _ _ _ => rfl, fun _ _ _ _ _ _ => rfl⟩

/-- A round of the queue thread takes an item out and leaves the rest. -/
theorem intact_consume (env : ProcEnv) : Preserves Intact (consume env : ServerM κ Unit) := by
  refine Preserves.bind (intact_onQueue preserves_count) fun n => ?_
  refine Preserves.ite (Preserves.bind (intact_onQueue preserves_dequeue) fun item => ?_)
    (Preserves.pure _)
  exact Preserves.bind (intact_of_keeps (keeps_handleRequestQueueItem steady_queue item env))
    fun _ => Preserves.pure _

theorem queue_attachMethods (ms : List ResourceMethod) : ∀ handles,
    Keeps CoAPServer.queue (attachMethods ms handles : ServerM κ _) := by
  induction ms with
  | nil => exact fun handles => Keeps.pure _
  | cons m ms ih =>
    intro handles
    unfold attachMethods
    cases m.getMethodType with
    | get | put | post => exact Keeps.bind (keeps_writeErr steady_queue.outputs _) fun _ => ih _
    | _ => exact Keeps.bind (keeps_writeErr steady_queue.outputs _) fun _ => Keeps.pure _

theorem queue_attach (i : ℕ) (r : Resource) :
    Keeps CoAPServer.queue (attach i r : ServerM κ (ℤ × Resource)) := by
  refine Keeps.bind (keeps_writeErr steady_queue.outputs _) fun _ =>
    Keeps.bind (queue_attachMethods _ _) fun found => ?_
  cases found with
  | none => exact Keeps.pure _
  | some handles =>
    refine Keeps.bind (Keeps.modify fun _ => rfl) fun _ =>
      Keeps.bind (keeps_onFiles steady_queue.outputs _) fun _ => ?_
    exact Keeps.pure _

theorem queue_init : Keeps CoAPServer.queue (init : ServerM κ ℤ) := by
  have hall : ∀ is : List ℕ, Keeps CoAPServer.queue (attachAll is : ServerM κ ℤ) := by
    intro is
    induction is with
    | nil => exact Keeps.pure _
    | cons i is ih =>
      refine Keeps.bind (keeps_getResource i) fun r => Keeps.bind (queue_attach i r) ?_
      rintro ⟨ret, r'⟩
      exact Keeps.bind (Keeps.modify fun _ => rfl) fun _ => Keeps.ite (Keeps.pure _) ih
  exact Keeps.bind Keeps.get fun _ => hall _

theorem queue_createResource (config : ResourceConfig) :
    Keeps CoAPServer.queue (createResource config : ServerM κ Bool) := by
  refine Keeps.bind Keeps.get fun w => Keeps.bind (keeps_onFiles steady_queue.outputs _) fun r =>
    Keeps.bind (queue_attach _ r) ?_
  rintro ⟨ret, r'⟩
  exact Keeps.ite (Keeps.pure _) (Keeps.bind (Keeps.modify fun _ => rfl) fun _ => Keeps.pure _)

theorem intact_forward (i : ℕ) (r : Resource) (type : ResourceMethodType) (data : Str) (env : Env)
    (resp : Response) : Preserves Intact (forward i r type data env resp : ServerM κ Response) := by
  unfold forward
  cases findMethod type r.methods 0 with
  | none => exact Preserves.pure _
  | some jm => exact intact_onQueue (preserves_methodHandler _ _ _ _ _ _)

end Queue

section Request
variable [DecidableEq κ] (re : Matcher) (req : Request κ) (type : ResourceMethodType) (env : Env)
  (resp : Response)

theorem intact_handle (i : ℕ) : Preserves Intact (handleCoAPRequest i req type env resp) := by
  refine Preserves.bind (intact_of_keeps (keeps_getResource i)) fun r =>
    Preserves.ite ?_ (intact_forward _ _ _ _ _ _)
  refine Preserves.bind Preserves.get fun w =>
    Preserves.bind (intact_of_keeps (Keeps.modify fun _ => rfl)) fun _ =>
    Preserves.bind (intact_of_keeps (keeps_writeErr steady_queue.outputs _)) fun _ => ?_
  exact Preserves.ite (Preserves.pure _)
    (Preserves.ite (Preserves.pure _) (intact_forward _ _ _ _ _ _))

theorem intact_handleMatch (cfg : ResourceConfig) (uri : Str) (sm : List Str) :
    Preserves Intact (handleMatch req type env resp cfg uri sm) := by
  have herr : ∀ lines, Preserves Intact (writeErr lines : ServerM κ Unit) :=
    fun lines => intact_of_keeps (keeps_writeErr steady_queue.outputs lines)
  refine Preserves.ite (Preserves.bind (herr _) fun _ => Preserves.pure _) ?_
  refine Preserves.bind Preserves.get fun w => Preserves.bind (herr _) fun _ =>
    Preserves.bind (intact_of_keeps (queue_createResource _)) fun b => ?_
  exact Preserves.ite (intact_handle _ _ _ _ _) (Preserves.bind (herr _) fun _ => Preserves.pure _)

theorem intact_handleConfigs (uri : Str) (cfgs : List ResourceConfig) :
    Preserves Intact (handleConfigs re req type env resp uri cfgs) := by
  induction cfgs with
  | nil =>
    exact Preserves.bind (intact_of_keeps (keeps_writeErr steady_queue.outputs _)) fun _ => Preserves.pure _
  | cons cfg cfgs ih =>
    unfold handleConfigs
    cases re cfg.resourcePath uri with
    | error e => exact Preserves.throw e
    | ok res =>
      cases res with
      | none => exact ih
      | some sm => exact intact_handleMatch _ _ _ _ _ _ _

theorem intact_serve (uri : Uri) : Preserves Intact (serve re req type env resp uri) := by
  refine Preserves.bind Preserves.get fun w => ?_
  cases w.registry uri.path with
  | some reg => exact Preserves.ite (intact_handle _ _ _ _ _) (Preserves.pure _)
  | none =>
    refine Preserves.bind Preserves.get fun w => Preserves.ite (Preserves.pure _) ?_
    exact Preserves.bind Preserves.get fun w => intact_handleConfigs _ _ _ _ _ _ _

end Request

section Run
variable [DecidableEq κ] {re : Matcher}

/-- **A step** keeps the queue intact. -/
theorem step_intact {w w' : CoAPServer κ} {l : Label κ} (h : step re w l = some w')
    (hw : Intact w) : Intact w' := by
  cases l with
  | request uri req type env resp =>
    simp only [step] at h
    split_ifs at h
    obtain ⟨resp', hrun⟩ := after_eq_some h
    exact intact_serve _ _ _ _ _ _ _ _ _ hrun hw
  | consume env =>
    obtain ⟨u, hrun⟩ := after_eq_some h
    exact intact_consume env _ _ _ hrun hw
  | poll =>
    obtain ⟨u, hrun⟩ := after_eq_some h
    exact intact_of_keeps (keeps_valueUpdate steady_queue) _ _ _ hrun hw
  | files fs =>
    obtain rfl := Option.some.inj h
    exact hw

theorem run_intact {w₀ w : CoAPServer κ} (hrun : Reach (step re) w₀ w) (h₀ : Intact w₀) :
    Intact w :=
  Runs.invariant (P := Intact) (fun _ _ _ hw _ hs => step_intact hs hw) hrun h₀

end Run

/-- The start leaves the queue as it was made. -/
theorem started_intact {parse : Str → Except Failure Json} {file : Option Str} {path logDir : Str}
    {lib : Library} {maxSize : ℕ} {queue : RequestQueue RequestQueueItem} {fs : FileSystem}
    {config : Config} {w : CoAPServer κ} (hnew : new maxSize = some queue)
    (h : Started parse file path logDir lib queue fs config w) : Intact w := by
  obtain ⟨-, wp, fs', hserver, hinit⟩ := h
  obtain ⟨-, -, -, hqueue, -⟩ := newServer_spec lib _ queue _ _ _ hserver
  obtain ⟨err, hinit⟩ := initServer_ok hinit
  have hkept : w.queue = wp.queue := queue_init { wp with stderr := err } _ _ hinit
  unfold Intact
  rw [hkept, hqueue]
  exact ⟨[], holds_new hnew⟩

/-! ### When a request is answered -/

/-- A response that has a code. -/
def Answered (resp : Response) : Prop := resp.code ≠ .empty

theorem answered_code (resp : Response) {code : Code} (h : code ≠ .empty) :
    Answered { resp with code } := h

/-- A method object that cannot queue a request. -/
theorem methodHandler_throws {src : MethodRef} {r : Resource} {m : ResourceMethod} {data : Str}
    {env : Env} {resp : Response} {q q' : RequestQueue RequestQueueItem} {e : Failure}
    (hm : Queueable m.getMethodType)
    (henq : (enqueue (queuedItem src r m data env)).run q = .error e q') :
    (methodHandler src r m data env resp).run q = .error e q' := by
  unfold methodHandler
  obtain ht | ht | ht := hm
  all_goals
    simp only [queuedItem, queuedData, ht, if_true, reduceCtorEq, if_false] at henq
    simp only [ht, EStateM.run_bind, henq]

/-- A request that is forwarded to a method. -/
theorem ends_forward {w : CoAPServer κ} (hw : Intact w) {r : Resource} {type : ResourceMethodType}
    (htype : Queueable type) (hhas : ∃ m ∈ r.methods, m.getMethodType = type) (i : ℕ) (data : Str)
    (env : Env) (resp : Response) :
    Ends (forward i r type data env resp) w (w.queue.maxSize ≠ 0) fun resp' _ => Answered resp' := by
  obtain ⟨j, m, hm⟩ := findMethod_isSome hhas 0
  obtain ⟨L, hL | ⟨hzero, rfl⟩⟩ := hw
  · have hroom := hL.room
    have hsize : w.queue.maxSize ≠ 0 := by omega
    rcases Nat.lt_or_ge (L.length + 1) w.queue.maxSize with hlt | hge
    · obtain ⟨q', hrun, -, -⟩ := forward_room hL htype hm hlt i data env resp
      refine (Ends.of_run hrun ?_).congr (iff_of_true trivial hsize)
      unfold accepted
      split_ifs
      · exact (by decide : Code.content ≠ .empty)
      · exact (by decide : Code.ok ≠ .empty)
    · have hfull : L.length + 1 = w.queue.maxSize := by omega
      have hrun := forward_full hL htype hm hfull i data env resp
      exact (Ends.of_run hrun (answered_code _ (by decide))).congr (iff_of_true trivial hsize)
  · obtain ⟨ht, -, -⟩ := findMethod_eq_some hm
    have hthrow : (enqueue (queuedItem ⟨i, j⟩ r m data env)).run w.queue =
        .error .remByZero w.queue := by
      rw [hzero]
      rfl
    have hhandler : (methodHandler ⟨i, j⟩ r m data env resp).run w.queue =
        .error .remByZero w.queue := methodHandler_throws (ht ▸ htype) hthrow
    have hrun : (forward i r type data env resp).run w = .error .remByZero w := by
      simp only [forward, hm, onQueue, EStateM.run] at hhandler ⊢
      rw [hhandler]
    exact (Ends.of_error hrun).congr (iff_of_false id (by rw [hzero]; simp))

/-- **When a resource is created.** -/
theorem ends_createResource {w : CoAPServer κ} (hfs : Succeeds w.fs) {config : ResourceConfig}
    (hmethods : ∀ c ∈ config.methods, Queueable c.type) :
    Ends (createResource config) w (Constructible config) fun b _ => b = true := by
  have hends := ends_create hfs config w.logDir
  obtain ⟨err, hrun⟩ := createResource_run config w
  constructor
  · intro hok
    obtain ⟨r, fs, hcreate, hfs'⟩ := hends.returns hok
    obtain ⟨r', fs', hinit, -⟩ := (ends_initValue hfs' r).returns trivial
    have hatt : Attachable r := by
      obtain ⟨-, hconfigs⟩ := create_spec config w.logDir _ _ _ hcreate
      intro m hm
      have hmem := List.mem_map_of_mem (f := ResourceMethod.config) hm
      rw [hconfigs] at hmem
      exact hmethods _ hmem
    simp only [hcreate, if_pos hatt, hinit] at hrun
    exact ⟨true, _, hrun, rfl⟩
  · intro hnot
    obtain ⟨e, fs, hcreate⟩ := hends.throws hnot
    simp only [hcreate] at hrun
    exact ⟨e, _, hrun⟩

section Answers
variable [DecidableEq κ]

/-- **The request can be queued**, or its body is not complete: a queue without slots divides by
zero. -/
def Fits (w : CoAPServer κ) (path : Str) (req : Request κ) (type : ResourceMethodType) : Prop :=
  w.queue.maxSize ≠ 0 ∨ type ≠ .get ∧ (sessionGetData path w.cache req []).ret ≤ 0

/-- **A configuration does not fail** when the request gets to it: its pattern compiles, and if it
matches and has the method, a resource can be constructed for the URI and the request queued. -/
def Sound (re : Matcher) (w : CoAPServer κ) (uri : Str) (req : Request κ)
    (type : ResourceMethodType) (cfg : ResourceConfig) : Prop :=
  (∃ found, re cfg.resourcePath uri = .ok found) ∧
    ∀ sm, re cfg.resourcePath uri = .ok (some sm) → Has cfg type →
      Constructible (dynamicConfig cfg uri sm) ∧ Fits w uri req type

/-- **The request gets to the configuration**: no pattern before it matches. -/
def Tried (re : Matcher) (uri : Str) (cfgs : List ResourceConfig) (cfg : ResourceConfig) : Prop :=
  ∃ before later, cfgs = before ++ cfg :: later ∧ ∀ c ∈ before, re c.resourcePath uri = .ok none

omit [DecidableEq κ] in
theorem tried_cons {re : Matcher} {uri : Str} {c cfg : ResourceConfig}
    {cfgs : List ResourceConfig} : Tried re uri (c :: cfgs) cfg ↔
      cfg = c ∨ re c.resourcePath uri = .ok none ∧ Tried re uri cfgs cfg := by
  constructor
  · rintro ⟨before, later, heq, hnone⟩
    rcases before with - | ⟨b, before⟩
    · exact Or.inl (List.cons.inj heq).1.symm
    · obtain ⟨rfl, rfl⟩ := List.cons.inj heq
      obtain ⟨hb, hbefore⟩ := List.forall_mem_cons.mp hnone
      exact Or.inr ⟨hb, before, later, rfl, hbefore⟩
  · rintro (rfl | ⟨hc, before, later, rfl, hnone⟩)
    · exact ⟨[], cfgs, rfl, by simp⟩
    · exact ⟨c :: before, later, rfl, List.forall_mem_cons.mpr ⟨hc, hnone⟩⟩

variable {w : CoAPServer κ} (hw : Intact w) {req : Request κ} {type : ResourceMethodType}
  (htype : Queueable type) {env : Env} {resp : Response}
include hw htype

/-- **When a resource answers.** -/
theorem ends_handle {i : ℕ} {r : Resource} (hr : w.resources[i]? = some r)
    (hhas : ∃ m ∈ r.methods, m.getMethodType = type) :
    Ends (handleCoAPRequest i req type env resp) w (Fits w r.getPath req type)
      fun resp' _ => Answered resp' := by
  by_cases hput : type = .put ∨ type = .post
  · have hget : type ≠ .get := by rcases hput with rfl | rfl <;> decide
    have hrun := @handle_body κ _ w i r req type env resp hr hput
    rcases lt_trichotomy (sessionGetData r.getPath w.cache req []).ret 0 with hlt | hzero | hgt
    · rw [if_neg hlt.ne, if_pos hlt] at hrun
      refine (Ends.of_run hrun (answered_code _ (by decide))).congr ?_
      exact iff_of_true trivial (Or.inr ⟨hget, hlt.le⟩)
    · rw [if_pos hzero] at hrun
      refine (Ends.of_run hrun (answered_code _ (by decide))).congr ?_
      exact iff_of_true trivial (Or.inr ⟨hget, hzero.le⟩)
    · rw [if_neg hgt.ne', if_neg hgt.le.not_gt] at hrun
      have hforward := ends_forward (w := afterBody w r req) hw htype hhas i
        (sessionGetData r.getPath w.cache req []).dataOut env resp
      refine (Ends.of_eq hrun hforward).congr ⟨Or.inl, fun h => h.resolve_right ?_⟩
      exact fun h => hgt.not_ge h.2
  · have hget : type = .get := htype.resolve_right hput
    refine (Ends.of_eq (handle_noBody hr hput) (ends_forward hw htype hhas i [] env resp)).congr ?_
    exact ⟨Or.inl, fun h => h.resolve_right fun h => h.1 hget⟩

variable (hfs : Succeeds w.fs) {uri : Str} (huri : 0 ∉ uri)
include hfs huri

/-- **When a configuration that matches answers.** -/
theorem ends_handleMatch {cfg : ResourceConfig} (hmethods : ∀ c ∈ cfg.methods, Queueable c.type)
    (sm : List Str) : Ends (handleMatch req type env resp cfg uri sm) w
      (Has cfg type → Constructible (dynamicConfig cfg uri sm) ∧ Fits w uri req type)
      fun resp' _ => Answered resp' := by
  by_cases hhas : Has cfg type
  · rw [forall_prop_of_true hhas]
    have hrun := @handleMatch_has κ _ req type env resp cfg uri sm w hhas
    have hends : Ends (createResource (dynamicConfig cfg uri sm)) (substituted w cfg sm)
        (Constructible (dynamicConfig cfg uri sm)) fun b _ => b = true :=
      @ends_createResource κ (substituted w cfg sm) hfs (dynamicConfig cfg uri sm) hmethods
    by_cases hcon : Constructible (dynamicConfig cfg uri sm)
    · obtain ⟨_, w₁, hcreate, rfl⟩ := hends.returns hcon
      obtain ⟨r, hres, hconfig, hms, hqueue, hcache, -⟩ := createResource_ok huri hcreate
      have hlast : w₁.resources[w.resources.length]? = some r := by
        rw [hres]
        exact List.getElem?_concat_length
      have hmethod : ∃ m ∈ r.methods, m.getMethodType = type := by
        obtain ⟨c, hc, ht⟩ := hhas
        rw [show cfg.methods = (dynamicConfig cfg uri sm).methods from rfl, ← hms] at hc
        obtain ⟨m, hm, rfl⟩ := List.mem_map.mp hc
        exact ⟨m, hm, ht⟩
      have hintact : Intact w₁ := by
        unfold Intact
        rw [hqueue]
        exact hw
      rw [hcreate] at hrun
      refine (Ends.of_eq hrun (ends_handle hintact htype hlast hmethod)).congr ?_
      have hpath : r.getPath = uri := by rw [Resource.getPath, hconfig, dynamicConfig]
      rw [and_iff_right hcon, Fits, Fits, hpath, hqueue, hcache]
      rfl
    · obtain ⟨e, w₁, hcreate⟩ := hends.throws hcon
      rw [hcreate] at hrun
      exact (Ends.of_error hrun).congr (iff_of_false id fun h => hcon h.1)
  · refine (Ends.of_run (handleMatch_lacks hhas) (answered_code _ (by decide))).congr ?_
    exact iff_of_true trivial fun h => absurd h hhas

/-- **When the loop over the configurations answers.** -/
theorem ends_handleConfigs (re : Matcher) (cfgs : List ResourceConfig)
    (hmethods : ∀ cfg ∈ cfgs, ∀ c ∈ cfg.methods, Queueable c.type) :
    Ends (handleConfigs re req type env resp uri cfgs) w
      (∀ cfg, Tried re uri cfgs cfg → Sound re w uri req type cfg) fun resp' _ => Answered resp' := by
  induction cfgs with
  | nil =>
    have hrun : (handleConfigs re req type env resp uri []).run w =
        .ok { resp with code := .notFound }
          { w with stderr := w.stderr ++ [str "Unhandled Dynamic URI: " ++ uri] } := rfl
    refine (Ends.of_run hrun (answered_code _ (by decide))).congr (iff_of_true trivial ?_)
    rintro cfg ⟨before, later, heq, -⟩
    simp at heq
  | cons c cfgs ih =>
    obtain ⟨hc, hcfgs⟩ := List.forall_mem_cons.mp hmethods
    unfold handleConfigs
    simp only [tried_cons, or_imp, forall_and, forall_eq, and_imp]
    cases hmatch : re c.resourcePath uri with
    | error e =>
      refine (Ends.throw e).congr (iff_of_false id ?_)
      rintro ⟨⟨⟨found, hfound⟩, -⟩, -⟩
      rw [hmatch] at hfound
      cases hfound
    | ok found =>
      cases found with
      | none =>
        refine (ih hcfgs).congr ?_
        simp [Sound, hmatch]
      | some sm =>
        refine (ends_handleMatch hw htype hfs huri hc sm).congr ?_
        simp [Sound, hmatch]

end Answers

/-! ### The server -/

/-- **No configuration fails that the request gets to.** -/
def RequestSound [DecidableEq κ] (re : Matcher) (cfgs : List ResourceConfig) (w : CoAPServer κ)
    (req : Request κ) (type : ResourceMethodType) (uri : Option Str) : Prop :=
  ∀ path, uri = some path → ∀ cfg, Tried re (cStr path) cfgs cfg →
    Sound re w (cStr path) req type cfg

/-- **When `handleDynamicRequest` answers.** -/
theorem ends_handleDynamicRequest [DecidableEq κ] {w : CoAPServer κ} (hw : Intact w)
    (hfs : Succeeds w.fs) {type : ResourceMethodType} (htype : Queueable type)
    (hmethods : ∀ cfg ∈ w.dynamicResources, ∀ c ∈ cfg.methods, Queueable c.type) (re : Matcher)
    (req : Request κ) (env : Env) (resp : Response) (uri : Option Str) :
    Ends (handleDynamicRequest re req type env resp uri) w
      (RequestSound re w.dynamicResources w req type uri) fun resp' _ => Answered resp' := by
  cases uri with
  | none =>
    have hanswer : Answered { resp with code := .notFound } := answered_code resp (by decide)
    refine (Ends.pure (Q := fun resp' _ => Answered resp') hanswer).congr (iff_of_true trivial ?_)
    rintro path ⟨⟩
  | some path =>
    have hends : Ends (handleConfigs re req type env resp (cStr path) w.dynamicResources) w
        (∀ cfg, Tried re (cStr path) w.dynamicResources cfg → Sound re w (cStr path) req type cfg)
        fun resp' _ => Answered resp' :=
      ends_handleConfigs hw htype hfs (zero_notMem_cStr path) re w.dynamicResources hmethods
    have hget : (get : ServerM κ (CoAPServer κ)).run w = .ok w w := rfl
    refine Ends.step hget (hends.congr ?_)
    simp [RequestSound]

section Started
variable [DecidableEq κ] {parse : Str → Except Failure Json} {file : Option Str}
  {path logDir : Str} {lib : Library} {maxSize : ℕ} {queue : RequestQueue RequestQueueItem}
  {fs : FileSystem} {config : Config} {w₀ : CoAPServer κ}

/-- **A request is answered exactly if no configuration fails that it gets to.** In every state that
requests, the queue thread, the poll thread and changes of the files reach after the start, where
calls on the files succeed, `handleDynamicRequest` returns with a code if and only if the patterns up
to the first match compile, and, if the first match has the method, its formats are known, its log
file is not empty where a method logs, and the queue has slots or the body is not complete. -/
theorem answers_iff_sound (hnew : new maxSize = some queue)
    (hstart : Started parse file path logDir lib queue fs config w₀) {re : Matcher}
    {w : CoAPServer κ} (hrun : Reach (step re) w₀ w) (hfs : Succeeds w.fs)
    {type : ResourceMethodType} (htype : Queueable type) (req : Request κ) (env : Env)
    (resp : Response) (uri : Option Str) :
    (∃ resp' w', (handleDynamicRequest re req type env resp uri).run w = .ok resp' w' ∧
      Answered resp') ↔ RequestSound re (dynamicConfigs config) w req type uri := by
  obtain ⟨hatt, hdynamic, -⟩ := started_layout hstart
  have hkept : w.dynamicResources = w₀.dynamicResources := (run_inv hatt hrun).dynamic
  have hw : Intact w := run_intact hrun (started_intact hnew hstart)
  have hmethods : ∀ cfg ∈ w.dynamicResources, ∀ c ∈ cfg.methods, Queueable c.type := by
    rw [hkept, hdynamic]
    intro cfg hcfg c hc
    exact (newConfig_single hstart.1 cfg (List.mem_of_mem_filter hcfg) c hc).type
  rw [← hdynamic, ← hkept]
  exact (ends_handleDynamicRequest hw hfs htype hmethods re req env resp uri).iff

end Started

/-! ### A configuration -/

/-- A dynamic configuration with a `GET` in one format. -/
def formatJson (format : Str) : Json :=
  .object [(str "path", .string (str "x")), (str "dynamic", .boolean true),
    (str "methods", .object [(str "GET", .object [(str "format", .string format)])])]

/-- The document with it. -/
def formatDocument (format : Str) : Json :=
  .object [(str "resources", .array [formatJson format])]

/-- The method that is read of it. -/
def formatMethod (format : Str) : ResourceMethodConfig := { type := .get, format := [format] }

/-- The configuration. -/
def formatConfig (format : Str) : Config :=
  { endpoint := {}
    resources := [{ resourcePath := str "x", dynamic := true, methods := [formatMethod format] }] }

/-- A matcher for patterns without operators. -/
def literalMatcher : Matcher := fun pattern uri =>
  .ok (if pattern = uri then some [uri] else none)

/-- A server with the configuration can start, whatever the format is. -/
theorem format_started (format : Str) : ∃ w : CoAPServer ℕ,
    Started (parserOf (formatDocument format)) (some (formatDocument format).dump) [] [] fullLibrary
      twoSlots openFs (formatConfig format) w ∧
      Succeeds w.fs ∧ w.queue = twoSlots ∧ w.dynamicResources = (formatConfig format).resources :=
  ⟨_, ⟨newConfig_dump _ _, _, _, rfl, rfl⟩, ⟨fun _ => rfl, fun _ => rfl⟩, rfl, rfl⟩

/-- A `GET` without a body. -/
def bareRequest : Request ℕ := ⟨0, none, true⟩

/-- A `GET` in the format `STRING` is answered. -/
theorem answers_iff_sound_string : ∃ w resp' w',
    (handleDynamicRequest literalMatcher bareRequest .get ⟨⟨0, 0⟩, []⟩ ⟨.empty, .con, [], none⟩
      (some (str "x"))).run w = .ok resp' w' ∧ Answered resp' := by
  obtain ⟨w, hstart, hfs, hqueue, -⟩ := format_started (str "STRING")
  have hnew : new 2 = some twoSlots := by decide
  refine ⟨w, (answers_iff_sound hnew hstart (Runs.refl w) hfs (Or.inl rfl) _ _ _ _).mpr ?_⟩
  rintro path hpath cfg ⟨before, later, heq, -⟩
  have hmem : cfg ∈ dynamicConfigs (formatConfig (str "STRING")) := by
    rw [heq]
    exact List.mem_append_right _ List.mem_cons_self
  obtain rfl := List.mem_singleton.mp hmem
  have hformats : ∀ c ∈ [formatMethod (str "STRING")], ∀ format ∈ c.format, Known format := by decide
  have hlogs : ¬ ∃ c ∈ [formatMethod (str "STRING")], c.logValue = true := by decide
  refine ⟨⟨_, rfl⟩, fun sm _ _ => ⟨⟨hformats, fun h => absurd h hlogs⟩, Or.inl ?_⟩⟩
  rw [hqueue]
  decide

/-- **A format without a formatter** is accepted at the start, and a request throws. -/
theorem unknown_format_throws : ¬ ∀ (parse : Str → Except Failure Json) (file : Option Str)
    (path logDir : Str) (lib : Library) (maxSize : ℕ) (queue : RequestQueue RequestQueueItem)
    (fs : FileSystem) (config : Config) (w₀ w : CoAPServer ℕ) (re : Matcher)
    (type : ResourceMethodType) (req : Request ℕ) (env : Env) (resp : Response) (uri : Option Str),
    new maxSize = some queue → Started parse file path logDir lib queue fs config w₀ →
    Reach (step re) w₀ w → Succeeds w.fs → Queueable type →
    ∃ resp' w', (handleDynamicRequest re req type env resp uri).run w = .ok resp' w' ∧
      Answered resp' := by
  intro h
  obtain ⟨w, hstart, hfs, hqueue, hdynamic⟩ := format_started (str "TEXT")
  have hnew : new 2 = some twoSlots := by decide
  have hanswers := h _ _ _ _ _ _ _ _ _ w w literalMatcher .get bareRequest ⟨⟨0, 0⟩, []⟩
    ⟨.empty, .con, [], none⟩ (some (str "x")) hnew hstart (Runs.refl w) hfs (Or.inl rfl)
  have hmethods : ∀ cfg ∈ w.dynamicResources, ∀ c ∈ cfg.methods, Queueable c.type := by
    rw [hdynamic]
    decide
  have hsound := (ends_handleDynamicRequest (started_intact hnew hstart) hfs (Or.inl rfl) hmethods
    literalMatcher bareRequest _ _ _).iff.mp hanswers
  rw [hdynamic] at hsound
  obtain ⟨-, hmatch⟩ := hsound _ rfl _ ⟨[], [], rfl, by simp⟩
  obtain ⟨hcon, -⟩ := hmatch _ rfl ⟨_, List.mem_cons_self, rfl⟩
  have hknown : Known (str "TEXT") := hcon.formats _ List.mem_cons_self _ List.mem_cons_self
  revert hknown
  decide

end CoapServer.Server.Failures
