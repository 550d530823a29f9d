import CoapServer.Server.Commands
import CoapServer.Server.Ledger
import CoapServer.Server.Program

/-! # No object is used after its end

What a step of the server does to the objects is a list of calls of the program with its pointers
(`ops`). In every run of a server with an accepted configuration the program does not fault, its
pointers lead to the objects of the server, and the destructors at the end of `main` leave nothing on
the heap (`objects_live`). -/

namespace CoapServer.Server.Lifetimes

open CoapServer.Basic CoapServer.Config CoapServer.Lib.Frame CoapServer.Lib.Memory
open CoapServer.Lib.Separation CoapServer.Lib.Trace CoapServer.Parse.Constructors
open CoapServer.Resources.Files CoapServer.Resources.Object CoapServer.Resources.Pointers
open CoapServer.Blocks.SessionData CoapServer.Queue.Sequential CoapServer.Server.World
open CoapServer.Server.Requests CoapServer.Server.Process CoapServer.Server.Dynamic
open CoapServer.Server.Creation CoapServer.Server.Machine CoapServer.Server.Dispatch
open CoapServer.Server.Startup CoapServer.Server.Commands CoapServer.Server.Ledger
open CoapServer.Server.Registration (fullLibrary twoSlots openFs)
open CoapServer.Server.Failures (formatJson literalMatcher bareRequest)
open CoapServer.Server.Writes (putByte quiet)
open CoapServer.Server.Program (Pointers Op perform performAll performAll_one performAll_append
  process start shutdown handled registeredAt firstOf started Built node staticNodes dynamicNodes
  owned owned_within create_triple start_triple shutdown_triple returns_handle returns_process
  returns_valueUpdate foldl_registeredAt)

variable {κ : Type} [DecidableEq κ]

/-! ### What a step of the server does to the objects -/

/-- The first configuration that matches. -/
def firstMatch (re : Matcher) (uri : Str) : List ResourceConfig → Option (ResourceConfig × List Str)
  | [] => none
  | cfg :: cfgs =>
    match re cfg.resourcePath uri with
    | .error _ => none
    | .ok none => firstMatch re uri cfgs
    | .ok (some sm) => some (cfg, sm)

/-- The configuration that a resource is created from, if one is. -/
def creates (re : Matcher) (w : CoAPServer κ) (uri : Uri) (type : ResourceMethodType) :
    Option ResourceConfig := do
  let (cfg, sm) ← firstMatch re uri.path w.dynamicResources
  if Has cfg type then return dynamicConfig cfg uri.path sm else none

/-- Whether an item is queued in a step. -/
def queues (re : Matcher) (w : CoAPServer κ) (l : Label κ) : Bool := !(events re w l).isEmpty

/-- **What a step does to the objects.** -/
def ops (re : Matcher) (w : CoAPServer κ) (l : Label κ) : List Op :=
  match l with
  | .request uri _ type _ _ =>
    match w.registry uri.path with
    | some reg => if reg.handles type then [.handle uri.path type (queues re w l)] else []
    | none => (creates re w uri type).toList.map fun config => .create config type (queues re w l)
  | .consume _ => [.process]
  | .poll => [.poll]
  | .files _ => []

/-! ### The resources of the server -/

theorem addMethods_made (config : ResourceConfig) (logDir : Str) (cs : List ResourceMethodConfig) :
    ∀ r : Resource, (∀ m ∈ r.methods, Resources.Object.newMethod m.config = .ok m) →
      Yields (fun r' : Resource => ∀ m ∈ r'.methods, Resources.Object.newMethod m.config = .ok m)
        (Resources.Object.addMethods config logDir cs r) := by
  induction cs with
  | nil => exact fun r hr => Yields.pure hr
  | cons c cs ih =>
    intro r hr
    refine Yields.bind
      (P := fun m : ResourceMethod => Resources.Object.newMethod m.config = .ok m) ?_ fun m hm => ?_
    · cases hnew : Resources.Object.newMethod c with
      | ok m => exact Yields.pure ((newMethod_config hnew).symm ▸ hnew)
      | error e => exact Yields.throw e
    · have hall : ∀ m' ∈ r.methods ++ [m], Resources.Object.newMethod m'.config = .ok m' := by
        intro m' hm'
        rcases List.mem_append.mp hm' with hm' | hm'
        · exact hr m' hm'
        · obtain rfl := List.mem_singleton.mp hm'
          exact hm
      exact Yields.ite (Yields.bind_any fun _ => ih _ hall) (ih _ hall)

/-- A configuration with methods that the library has handlers for. -/
def Typed (config : ResourceConfig) : Prop := ∀ c ∈ config.methods, Queueable c.type

/-- **The constructor of a resource** builds it. -/
theorem create_builds {config : ResourceConfig} (htyped : Typed config) (logDir : Str) :
    Yields (fun r => r.config = config ∧ Built config r.methods)
      (Resources.Object.create config logDir) := by
  intro fs r fs' h
  obtain ⟨hconfig, hconfigs⟩ := create_spec config logDir _ _ _ h
  have hmade : Yields
      (fun r : Resource => ∀ m ∈ r.methods, Resources.Object.newMethod m.config = .ok m)
      (Resources.Object.create config logDir) := by
    refine Yields.bind (addMethods_made _ _ _ _ (by rintro m ⟨⟩)) fun r hr => Yields.pure ?_
    split_ifs
    · exact hr
    · exact hr
  refine ⟨hconfig, hconfigs, hmade _ _ _ h, fun m hm => htyped m.config ?_⟩
  rw [← hconfigs]
  exact List.mem_map_of_mem hm

/-- **The constructor of the server** builds its resources. -/
theorem addResources_builds (logDir : Str) (cfgs : List ResourceConfig)
    (htyped : ∀ cfg ∈ cfgs, Typed cfg) : ∀ dynamic (resources : List Resource),
    (∀ r ∈ resources, Built r.config r.methods) →
    Yields (fun p : List ResourceConfig × List Resource => ∀ r ∈ p.2, Built r.config r.methods)
      (Startup.addResources logDir cfgs dynamic resources) := by
  induction cfgs with
  | nil => exact fun dynamic resources h => Yields.pure h
  | cons cfg cfgs ih =>
    intro dynamic resources h
    have hrest := ih fun cfg' hcfg' => htyped cfg' (List.mem_cons_of_mem cfg hcfg')
    unfold Startup.addResources
    refine Yields.ite (hrest _ _ h) ?_
    refine Yields.bind (create_builds (htyped cfg List.mem_cons_self) logDir) fun r hr => ?_
    refine hrest _ _ fun r' hr' => ?_
    rcases List.mem_append.mp hr' with hr' | hr'
    · exact h r' hr'
    · obtain rfl := List.mem_singleton.mp hr'
      exact hr.1.symm ▸ hr.2

omit [DecidableEq κ] in
theorem newServer_builds {lib : Library} {config : Config} {queue : RequestQueue RequestQueueItem}
    (htyped : ∀ cfg ∈ config.resources, Typed cfg) :
    Yields (fun w : CoAPServer κ => ∀ r ∈ w.resources, Built r.config r.methods)
      (newServer lib config queue) := by
  refine Yields.bind_any fun _ => Yields.bind_any fun _ => ?_
  refine Yields.bind (addResources_builds _ _ htyped [] [] (by rintro r ⟨⟩)) fun p hp => ?_
  exact Yields.bind_any fun fs => Yields.pure hp

/-- The pointers of what is registered lead to the resources. -/
def Registers (ss : List Placed) (registered : Str → Option ℕ)
    (registry : Str → Option Registered) : Prop :=
  ∀ path, registered path = (registry path).bind fun reg => ss[reg.resource]?.map (·.addr)

theorem Registers.attach {ss : List Placed} {g : Pointers} {registry : Str → Option Registered}
    (h : Registers ss g.registered registry) {i : ℕ} {s : Placed} (hs : ss[i]? = some s)
    (reg : Registered) (hreg : reg.resource = i) :
    Registers ss (registeredAt g s).registered
      (Function.update registry (cStr s.config.resourcePath) (some reg)) := by
  intro path
  by_cases hpath : path = cStr s.config.resourcePath
  · subst hpath
    simp [registeredAt, hreg, hs]
  · simp only [registeredAt, Function.update_of_ne hpath]
    exact h path

theorem filterMap_range {α : Type} (l : List α) : (List.range l.length).filterMap (l[·]?) = l := by
  induction l with
  | nil => rfl
  | cons a l ih =>
    have hcons : ((a :: l)[·]?) 0 = some a := rfl
    rw [List.length_cons, List.range_succ_eq_map, List.filterMap_cons_some hcons, List.filterMap_map]
    exact congrArg (a :: ·) ih

omit [DecidableEq κ] in
/-- **`init` registers the resources**, one after the other. -/
theorem attachAll_registers {ss : List Placed} (is : List ℕ) :
    ∀ {w w' : CoAPServer κ} {g : Pointers}, (Dynamic.attachAll is).run w = .ok 0 w' →
      ss.map Placed.contents = (layout w).objects → Registers ss g.registered w.registry →
      Registers ss ((is.filterMap (ss[·]?)).foldl registeredAt g).registered w'.registry := by
  induction is with
  | nil =>
    rintro w _ g ⟨⟩ - h
    exact h
  | cons i is ih =>
    intro w w' g h hcontents hregisters
    obtain ⟨r, w₁, hget, h₁⟩ := run_bind_ok h
    obtain ⟨hr, hw⟩ := getResource_eq_ok hget
    subst hw
    obtain ⟨⟨ret, r'⟩, w₂, hattach, h₂⟩ := run_bind_ok h₁
    simp only [EStateM.run_bind, EStateM.run_modify] at h₂
    by_cases hret : ret ≠ 0
    · rw [if_pos hret] at h₂
      cases h₂
    rw [if_neg hret] at h₂
    obtain rfl := not_not.mp hret
    obtain ⟨hsame, hres, hlayout⟩ := attach_ok hattach
    have hobj : (ss.map Placed.contents)[i]? = some (r.config, r.methods) := by
      rw [hcontents, layout, List.getElem?_map, hr, Option.map_some]
    rw [List.getElem?_map, Option.map_eq_some_iff] at hobj
    obtain ⟨s, hs, hsr⟩ := hobj
    have hconfig : s.config = r.config := (Prod.mk.inj hsr).1
    have hnew : layout { w₂ with resources := w₂.resources.set i r' } =
        { layout w₁ with registry := registered w₁ i r } := by
      rw [layout_set (by rw [hres]; exact hr) hsame, hlayout]
    have hregistry : w₂.registry = registered w₁ i r := congrArg Layout.registry hlayout
    rw [List.filterMap_cons_some hs, List.foldl_cons]
    refine ih h₂ ?_ ?_
    · rw [hnew]
      exact hcontents
    · show Registers ss _ w₂.registry
      rw [hregistry, registered, ← hconfig]
      exact hregisters.attach hs _ rfl

/-! ### Requests -/

theorem firstMatch_none {re : Matcher} {uri : Str} {cfgs : List ResourceConfig}
    (h : NoMatch re uri cfgs) : firstMatch re uri cfgs = none := by
  induction cfgs with
  | nil => rfl
  | cons cfg cfgs ih =>
    rw [firstMatch, h cfg List.mem_cons_self]
    exact ih fun c hc => h c (List.mem_cons_of_mem cfg hc)

theorem firstMatch_eq {re : Matcher} {uri : Str} {cfg : ResourceConfig} {sm : List Str} :
    ∀ {cfgs : List ResourceConfig}, FirstMatch re uri cfgs cfg sm →
      firstMatch re uri cfgs = some (cfg, sm) := by
  rintro _ ⟨pre, post, rfl, hpre, hcfg⟩
  induction pre with
  | nil =>
    rw [List.nil_append, firstMatch, hcfg]
  | cons c pre ih =>
    rw [List.cons_append, firstMatch, hpre c List.mem_cons_self]
    exact ih fun c' hc' => hpre c' (List.mem_cons_of_mem c hc')

section Serve
variable {re : Matcher} {w w' : CoAPServer κ} {uri : Uri} {req : Request κ}
  {type : ResourceMethodType} {env : Env} {resp resp' : Response}

omit [DecidableEq κ] in
/-- A creation from typed methods succeeds where it returns. -/
theorem createResource_builds {config : ResourceConfig} (htyped : Typed config)
    (hpath : 0 ∉ config.resourcePath) {b : Bool}
    (h : (createResource config).run w = .ok b w') : b = true ∧
      ∃ ms, Built config ms ∧ layout w' = addObject (layout w) config ms := by
  obtain ⟨err, hrun⟩ := createResource_run config w
  rw [hrun] at h
  cases hcreate : (Resources.Object.create config w.logDir).run w.fs with
  | error e fs =>
    rw [hcreate] at h
    cases h
  | ok r fs =>
    obtain ⟨hconfig, hbuilt⟩ := create_builds htyped w.logDir _ _ _ hcreate
    simp only [hcreate] at h
    rw [if_pos (show Attachable r from hbuilt.types)] at h
    cases hinit : r.initValue.run fs with
    | error e fs' =>
      rw [hinit] at h
      cases h
    | ok r' fs' =>
      have hsame := initValue_same r _ _ _ hinit
      simp only [hinit] at h
      obtain ⟨rfl, rfl⟩ := EStateM.Result.ok.inj h
      refine ⟨rfl, r.methods, hbuilt, ?_⟩
      simp only [layout, addObject, registered, registration, List.map_append, List.map_singleton,
        List.length_map, hsame.config, hsame.methods, hconfig, cStr_eq_self hpath]

/-- **A request for a path that is not registered** creates a resource, or leaves the layout. -/
theorem serve_creates (htyped : ∀ cfg ∈ w.dynamicResources, Typed cfg)
    (hnone : w.registry uri.path = none)
    (h : (serve re req type env resp uri).run w = .ok resp' w') :
    (creates re w uri type = none ∧ layout w' = layout w) ∨
    ∃ config ms, creates re w uri type = some config ∧ config.resourcePath = uri.path ∧
      (∃ cfg ∈ w.dynamicResources, config.dynamic = cfg.dynamic) ∧ Built config ms ∧
      layout w' = addObject (layout w) config ms := by
  simp only [serve, EStateM.run_bind, EStateM.run_get, hnone] at h
  unfold creates
  split_ifs at h with hdyn
  · obtain ⟨-, rfl⟩ := EStateM.Result.ok.inj h
    rw [hdyn]
    exact Or.inl ⟨rfl, rfl⟩
  simp only [handleDynamicRequest, EStateM.run_bind, EStateM.run_get, cStr_eq_self uri.noZero] at h
  rcases match_of_handleConfigs h with hno | ⟨cfg, sm, hfirst⟩
  · rw [handleConfigs_none hno] at h
    obtain ⟨-, rfl⟩ := EStateM.Result.ok.inj h
    rw [firstMatch_none hno]
    exact Or.inl ⟨rfl, rfl⟩
  rw [handleConfigs_first hfirst] at h
  rw [firstMatch_eq hfirst]
  by_cases hhas : Has cfg type
  · rw [handleMatch_has hhas] at h
    have hcfg := hfirst.mem
    cases hcreate : (createResource (dynamicConfig cfg uri.path sm)).run (substituted w cfg sm) with
    | error e w₁ =>
      rw [hcreate] at h
      cases h
    | ok b w₁ =>
      have htyped' : Typed (dynamicConfig cfg uri.path sm) := htyped cfg hcfg
      obtain ⟨rfl, ms, hbuilt, hlayout⟩ := createResource_builds htyped' uri.noZero hcreate
      simp only [hcreate] at h
      refine Or.inr ⟨_, ms, if_pos hhas, rfl, ⟨cfg, hcfg, rfl⟩, hbuilt, ?_⟩
      rw [keeps_handle _ _ _ _ _ _ _ _ h, hlayout]
      rfl
  · rw [handleMatch_lacks hhas] at h
    obtain ⟨-, rfl⟩ := EStateM.Result.ok.inj h
    exact Or.inl ⟨if_neg hhas, rfl⟩

/-- **A request for a path that is registered** leaves the layout. -/
theorem serve_registered {reg : Registered} (hreg : w.registry uri.path = some reg)
    (h : (serve re req type env resp uri).run w = .ok resp' w') : layout w' = layout w := by
  simp only [serve, EStateM.run_bind, EStateM.run_get, hreg] at h
  split_ifs at h
  · exact keeps_handle _ _ _ _ _ _ _ _ h
  · obtain ⟨-, rfl⟩ := EStateM.Result.ok.inj h
    rfl

/-- **The queue after a request**: an item of the first method of the type, if one is queued. -/
theorem serve_queue {L : List RequestQueueItem} (hroute : Routed (layout w))
    (hq : Represents w.queue L) (htype : Queueable type)
    (h : (serve re req type env resp uri).run w = .ok resp' w') :
    if queues re w (.request uri req type env resp) then
      ∃ item c ms jm, Represents w'.queue (L ++ [item]) ∧ item.src = ⟨target w uri, jm.1⟩ ∧
        (layout w').objects[target w uri]? = some (c, ms) ∧
        Requests.findMethod type ms 0 = some jm
    else Represents w'.queue L := by
  have hrec := serve_recorded hroute hq htype h
  unfold Recorded at hrec
  simp only [queues, events, h]
  by_cases hpos : Positive resp'.code
  · simp only [if_pos hpos] at hrec ⊢
    obtain ⟨item, hitem, -, hqueue⟩ := hrec
    unfold itemOf at hitem
    obtain ⟨r, hr, hitem⟩ := Option.bind_eq_some_iff.mp hitem
    obtain ⟨jm, hjm, hitem⟩ := Option.bind_eq_some_iff.mp hitem
    obtain rfl := Option.some.inj hitem
    refine ⟨_, r.config, r.methods, jm, hqueue, rfl, ?_, hjm⟩
    rw [layout, List.getElem?_map, hr, Option.map_some]
  · simp only [if_neg hpos] at hrec ⊢
    exact hrec

end Serve

/-! ### The invariant -/

/-- The pointer to a method. -/
def pointerOf (ss : List Placed) (src : MethodRef) : Option ℕ :=
  (ss[src.resource]?).bind fun s => s.methods[src.method]?.map (·.addr)

/-- **The pointers lead to the objects of the server**, those of the queue to the methods of the items
`L`; and of the configurations the resources have those that are not dynamic. -/
structure Live (nodes : List (ℕ × ResourceConfig)) (ss : List Placed) (g : Pointers) (l : Layout)
    (L : List RequestQueueItem) : Prop where
  contents : ss.map Placed.contents = l.objects
  resources : g.resources = ss.map (·.addr)
  registers : Registers ss g.registered l.registry
  queue : g.queue.map some = L.map fun item => pointerOf ss item.src
  static : (ss.filter fun s => !s.config.dynamic).map node = staticNodes nodes
  dynamic : ∀ cfg ∈ l.dynamicResources, cfg.dynamic = true ∧ Typed cfg
  routed : Routed l

section Live
variable {nodes : List (ℕ × ResourceConfig)} {ss : List Placed} {s : Placed} {g : Pointers}
  {l l' : Layout} {L : List RequestQueueItem}

theorem pointerOf_append {src : MethodRef} {a : ℕ} (h : pointerOf ss src = some a)
    (ss' : List Placed) : pointerOf (ss ++ ss') src = some a := by
  obtain ⟨s, hs, hm⟩ := Option.bind_eq_some_iff.mp h
  have hlt := (List.getElem?_eq_some_iff.mp hs).1
  rw [pointerOf, List.getElem?_append_left hlt, hs]
  exact hm

/-- An item more in the queue. -/
theorem Live.enqueue (h : Live nodes ss g l L) {item : RequestQueueItem} {a : ℕ}
    (ha : pointerOf ss item.src = some a) :
    Live nodes ss { g with queue := g.queue ++ [a] } l (L ++ [item]) := by
  refine ⟨h.contents, h.resources, h.registers, ?_, h.static, h.dynamic, h.routed⟩
  simp [h.queue, ha]

/-- The first item leaves the queue. -/
theorem Live.dequeue {item : RequestQueueItem} (h : Live nodes ss g l (item :: L)) :
    ∃ s ∈ ss, ∃ m ∈ s.methods, ∃ rest, g.queue = m.addr :: rest ∧
      Live nodes ss { g with queue := rest } l L := by
  obtain ⟨a, rest, hqueue, ha, hrest⟩ := List.map_eq_cons_iff.mp h.queue
  obtain ⟨s, hs, hm⟩ := Option.bind_eq_some_iff.mp ha.symm
  obtain ⟨m, hget, rfl⟩ := Option.map_eq_some_iff.mp hm
  exact ⟨s, List.mem_of_getElem? hs, m, List.mem_of_getElem? hget, rest, hqueue,
    ⟨h.contents, h.resources, h.registers, hrest, h.static, h.dynamic, h.routed⟩⟩

/-- A resource more. -/
theorem Live.create (h : Live nodes ss g l L) {config : ResourceConfig} {ms : List ResourceMethod}
    (hcontents : s.contents = (config, ms)) (hpath : 0 ∉ config.resourcePath)
    (hdyn : config.dynamic = true) (hrouted : Routed (addObject l config ms)) :
    Live nodes (ss ++ [s]) { registeredAt g s with resources := g.resources ++ [s.addr] }
      (addObject l config ms) L := by
  obtain ⟨hconfig, hmethods⟩ := Prod.mk.inj hcontents
  have hlen : ss.length = l.objects.length := by rw [← h.contents, List.length_map]
  refine ⟨?_, ?_, ?_, ?_, ?_, h.dynamic, hrouted⟩
  · rw [List.map_append, h.contents, List.map_singleton, hcontents]
    rfl
  · rw [List.map_append, ← h.resources]
    rfl
  · have hold : Registers (ss ++ [s]) g.registered l.registry := by
      intro path
      rw [h.registers path]
      cases hreg : l.registry path with
      | none => rfl
      | some reg =>
        obtain ⟨c, ms', hobj, -⟩ := h.routed path reg hreg
        have hlt : reg.resource < ss.length := by
          rw [hlen]
          exact (List.getElem?_eq_some_iff.mp hobj).1
        rw [Option.bind_some, Option.bind_some, List.getElem?_append_left hlt]
    have hnew := hold.attach (List.getElem?_concat_length (l := ss) (a := s))
      ⟨l.objects.length, hasType ms⟩ hlen.symm
    rw [hconfig, cStr_eq_self hpath] at hnew
    exact hnew
  · refine h.queue.trans (List.map_congr_left fun item hitem => ?_)
    have hmem : pointerOf ss item.src ∈ g.queue.map some := by
      rw [h.queue]
      exact List.mem_map_of_mem hitem
    obtain ⟨a, -, ha⟩ := List.mem_map.mp hmem
    rw [← ha, pointerOf_append ha.symm]
  · rw [List.filter_append, List.map_append, h.static]
    simp [hconfig, hdyn]

/-- The first method of a type is the one that the server finds. -/
theorem firstOf_eq {type : ResourceMethodType} (ms : List PlacedMethod) :
    ∀ {k : ℕ} {jm : ℕ × ResourceMethod},
      Requests.findMethod type (ms.map PlacedMethod.method) k = some jm →
      k ≤ jm.1 ∧ ∃ a, firstOf type ms = some a ∧ ms[jm.1 - k]?.map (·.addr) = some a := by
  induction ms with
  | nil =>
    intro k jm h
    cases h
  | cons m ms ih =>
    intro k jm h
    rw [List.map_cons, Requests.findMethod] at h
    by_cases htype : m.config.type = type
    · rw [if_pos (show m.method.getMethodType = type from htype)] at h
      obtain rfl := Option.some.inj h
      refine ⟨Nat.le_refl k, m.addr, ?_, by simp⟩
      simp only [firstOf, List.find?_cons, decide_eq_true htype, Option.map_some]
    · rw [if_neg (show ¬ m.method.getMethodType = type from htype)] at h
      obtain ⟨hle, a, hfirst, ha⟩ := ih h
      refine ⟨by omega, a, ?_, ?_⟩
      · simpa only [firstOf, List.find?_cons, decide_eq_false htype] using hfirst
      · rw [show jm.1 - k = jm.1 - (k + 1) + 1 by omega, List.getElem?_cons_succ]
        exact ha

/-- **A request is handled**: where an item is queued it is for the method that was found. -/
theorem Live.handled (h : Live nodes ss g l L) {i : ℕ} (hs : ss[i]? = some s)
    {type : ResourceMethodType} {item : RequestQueueItem} {ms : List ResourceMethod}
    {jm : ℕ × ResourceMethod} {c : ResourceConfig} (hobj : l.objects[i]? = some (c, ms))
    (hfind : Requests.findMethod type ms 0 = some jm) (hsrc : item.src = ⟨i, jm.1⟩) :
    Live nodes ss (handled g s type true) l (L ++ [item]) := by
  rw [← h.contents, List.getElem?_map, hs, Option.map_some, Option.some.injEq] at hobj
  rw [← (Prod.mk.inj hobj).2] at hfind
  obtain ⟨-, a, hfirst, ha⟩ := firstOf_eq s.methods hfind
  have hpointer : pointerOf ss item.src = some a := by
    rw [hsrc, pointerOf, hs, Option.bind_some]
    exact ha
  rw [Program.handled, if_pos rfl, hfirst]
  exact h.enqueue hpointer

end Live

/-! ### Steps -/

/-- **The program follows the server**: its pointers lead to the objects, and they are all of the
heap. -/
def Follows (nodes : List (ℕ × ResourceConfig)) (g : Pointers) (heap : Heap Obj)
    (w : CoAPServer κ) : Prop :=
  ∃ ss L, Live nodes ss g (layout w) L ∧ Represents w.queue L ∧
    Holds (owned ss (dynamicNodes nodes)) heap

section Step
variable {nodes : List (ℕ × ResourceConfig)} {ss : List Placed} {g : Pointers} {heap : Heap Obj}
  {L : List RequestQueueItem} {re : Matcher} {w w' : CoAPServer κ}

/-- **A request for a path that is registered.** -/
theorem follows_registered {uri : Uri} {req : Request κ} {type : ResourceMethodType} {env : Env}
    {resp resp' : Response} (h : Live nodes ss g (layout w) L) (hq : Represents w.queue L)
    (hheap : Holds (owned ss (dynamicNodes nodes)) heap) (htype : Queueable type)
    (hrun : (serve re req type env resp uri).run w = .ok resp' w') {reg : Registered}
    (hreg : w.registry uri.path = some reg) : ∃ g' heap',
    (performAll g (ops re w (.request uri req type env resp))).run heap = .ok g' heap' ∧
      Follows nodes g' heap' w' := by
  have hlayout := serve_registered hreg hrun
  have hqueue := serve_queue h.routed hq htype hrun
  have htarget : target w uri = reg.resource := by rw [target, hreg]
  by_cases hhandles : reg.handles type = true
  · obtain ⟨c, ms, hss, -⟩ := h.routed uri.path reg hreg
    rw [← h.contents, List.getElem?_map, Option.map_eq_some_iff] at hss
    obtain ⟨s, hs, -⟩ := hss
    have hpointer : g.registered uri.path = some s.addr := by
      rw [h.registers uri.path, show (layout w).registry uri.path = some reg from hreg,
        Option.bind_some, hs, Option.map_some]
    have hops : ops re w (.request uri req type env resp) =
        [.handle uri.path type (queues re w (.request uri req type env resp))] := by
      simp only [ops, hreg, if_pos hhandles]
    rw [hops, performAll_one, perform, hpointer]
    have hwithin : Within s.cells (owned ss (dynamicNodes nodes)) :=
      owned_within (List.mem_of_getElem? hs)
    obtain ⟨heap', hhandle, hheap'⟩ := (returns_handle (g := g) hwithin type
      (queues re w (.request uri req type env resp))).run hheap
    refine ⟨handled g s type (queues re w (.request uri req type env resp)), heap', hhandle, ?_⟩
    cases hqd : queues re w (.request uri req type env resp) with
    | false =>
      rw [hqd] at hqueue
      refine ⟨ss, L, ?_, hqueue, hheap'⟩
      rw [hlayout]
      exact h
    | true =>
      simp only [hqd, if_true, htarget, hlayout] at hqueue
      obtain ⟨item, c, ms, jm, hqueue, hsrc, hobj, hfind⟩ := hqueue
      refine ⟨ss, L ++ [item], ?_, hqueue, hheap'⟩
      rw [hlayout]
      exact h.handled hs hobj hfind hsrc
  · have hops : ops re w (.request uri req type env resp) = [] := by
      simp only [ops, hreg, if_neg hhandles]
    simp only [serve, EStateM.run_bind, EStateM.run_get, hreg, if_neg hhandles] at hrun
    obtain ⟨-, rfl⟩ := EStateM.Result.ok.inj hrun
    rw [hops]
    exact ⟨g, heap, rfl, ss, L, h, hq, hheap⟩

/-- **A request for a path that is not registered.** -/
theorem follows_unregistered {uri : Uri} {req : Request κ} {type : ResourceMethodType} {env : Env}
    {resp resp' : Response} (h : Live nodes ss g (layout w) L) (hq : Represents w.queue L)
    (hheap : Holds (owned ss (dynamicNodes nodes)) heap) (htype : Queueable type)
    (hrun : (serve re req type env resp uri).run w = .ok resp' w')
    (hroute : Routed (layout w')) (hnone : w.registry uri.path = none) : ∃ g' heap',
    (performAll g (ops re w (.request uri req type env resp))).run heap = .ok g' heap' ∧
      Follows nodes g' heap' w' := by
  have hqueue := serve_queue h.routed hq htype hrun
  have htarget : target w uri = (layout w).objects.length := by
    rw [target, hnone, layout, List.length_map]
  rcases serve_creates (fun cfg hcfg => (h.dynamic cfg hcfg).2) hnone hrun with
    ⟨hcreates, hlayout⟩ | ⟨config, ms, hcreates, hpath, ⟨cfg, hcfg, hdyn⟩, hbuilt, hlayout⟩
  · have hops : ops re w (.request uri req type env resp) = [] := by
      simp only [ops, hnone, hcreates, Option.toList_none, List.map_nil]
    rw [hops]
    refine ⟨g, heap, rfl, ss, L, hlayout ▸ h, ?_, hheap⟩
    split_ifs at hqueue
    · obtain ⟨item, c, ms, jm, -, -, hobj, -⟩ := hqueue
      rw [hlayout, htarget, List.getElem?_eq_none (Nat.le_refl _)] at hobj
      cases hobj
    · exact hqueue
  · have hops : ops re w (.request uri req type env resp) =
        [.create config type (queues re w (.request uri req type env resp))] := by
      simp only [ops, hnone, hcreates, Option.toList_some, List.map_cons, List.map_nil]
    obtain ⟨g', heap', hcreate, ⟨s, hcells⟩, hfresh⟩ := (create_triple (g := g) hbuilt type
      (queues re w (.request uri req type env resp))).run hheap
    obtain ⟨⟨hcontents, rfl⟩, hparts⟩ := fact_mul.mp hcells
    have hlive := h.create (s := s) hcontents (by rw [hpath]; exact uri.noZero)
      (by rw [hdyn]; exact (h.dynamic cfg hcfg).1) (hlayout ▸ hroute)
    have howned : Holds (owned (ss ++ [s]) (dynamicNodes nodes)) heap' := by
      refine ⟨?_, hfresh⟩
      rw [owned, List.map_append, List.prod_append, List.map_singleton, List.prod_singleton,
        mul_comm (ss.map Placed.cells).prod, mul_assoc]
      exact hparts
    rw [hops, performAll_one, perform]
    refine ⟨handled { registeredAt g s with resources := g.resources ++ [s.addr] } s type
      (queues re w (.request uri req type env resp)), heap', hcreate, ?_⟩
    cases hqd : queues re w (.request uri req type env resp) with
    | false =>
      rw [hqd] at hqueue
      refine ⟨ss ++ [s], L, ?_, hqueue, howned⟩
      rw [hlayout]
      exact hlive
    | true =>
      simp only [hqd, if_true, htarget, hlayout] at hqueue
      obtain ⟨item, c, ms, jm, hqueue, hsrc, hobj, hfind⟩ := hqueue
      have hs : (ss ++ [s])[(layout w).objects.length]? = some s := by
        rw [← h.contents, List.length_map]
        exact List.getElem?_concat_length
      refine ⟨ss ++ [s], L ++ [item], ?_, hqueue, howned⟩
      rw [hlayout]
      exact hlive.handled hs hobj hfind hsrc

/-- **A step of the server** is followed without a fault. -/
theorem step_follows {l : Label κ} (h : Follows nodes g heap w) (hs : step re w l = some w') :
    ∃ g' heap', (performAll g (ops re w l)).run heap = .ok g' heap' ∧ Follows nodes g' heap' w' := by
  obtain ⟨ss, L, hlive, hq, hheap⟩ := h
  have hroute := step_routed hlive.routed hs
  have hwithin : ∀ s ∈ ss, Within s.cells (owned ss (dynamicNodes nodes)) := fun s => owned_within
  cases l with
  | request uri req type env resp =>
    simp only [step] at hs
    split_ifs at hs with htype
    obtain ⟨resp', hrun⟩ := after_eq_some hs
    cases hreg : w.registry uri.path with
    | some reg => exact follows_registered hlive hq hheap htype hrun hreg
    | none => exact follows_unregistered hlive hq hheap htype hrun hroute hreg
  | consume env =>
    obtain ⟨u, hrun⟩ := after_eq_some hs
    have hlayout := keeps_consume env _ _ _ hrun
    rcases consume_ok hq hrun with ⟨rfl, rfl⟩ | ⟨item, rest, q, ret, rfl, hrep, hitem⟩
    · have hqueue : g.queue = [] := List.map_eq_nil_iff.mp hlive.queue
      refine ⟨g, heap, ?_, ss, [], hlive, hq, hheap⟩
      rw [ops, performAll_one, perform, process, hqueue]
      rfl
    · obtain ⟨s, hmem, m, hm, rest', hqueue, hlive'⟩ := hlive.dequeue
      obtain ⟨heap', hprocess, hheap'⟩ := (returns_process (hwithin s hmem) hm hqueue).run hheap
      refine ⟨{ g with queue := rest' }, heap', ?_, ss, rest, ?_, ?_, hheap'⟩
      · rw [ops, performAll_one]
        exact hprocess
      · rw [hlayout]
        exact hlive'
      · have hsame : w'.queue = q :=
          keeps_handleRequestQueueItem Failures.steady_queue item env _ _ _ hitem
        rw [hsame]
        exact hrep
  | poll =>
    obtain ⟨u, hrun⟩ := after_eq_some hs
    obtain ⟨heap', hpoll, hheap'⟩ := (returns_valueUpdate hlive.resources hwithin).run hheap
    refine ⟨g, heap', ?_, ss, L, ?_, ?_, hheap'⟩
    · rw [ops, performAll_one, perform, run_bind_eq hpoll]
      rfl
    · rw [keeps_valueUpdate steady_layout _ _ _ hrun]
      exact hlive
    · rw [keeps_valueUpdate Failures.steady_queue _ _ _ hrun]
      exact hq
  | files fs =>
    obtain rfl := Option.some.inj hs
    exact ⟨g, heap, rfl, ss, L, hlive, hq, hheap⟩

end Step

/-! ### Runs -/

/-- **A run of the server** is followed without a fault. -/
theorem run_follows {nodes : List (ℕ × ResourceConfig)} {g : Pointers} {heap : Heap Obj}
    {re : Matcher} {w₀ w : CoAPServer κ} {os : List Op} (h : Follows nodes g heap w₀)
    (hrun : Traces (step re) (fun _ _ => True) (ops re) w₀ os w) :
    ∃ g' heap', (performAll g os).run heap = .ok g' heap' ∧ Follows nodes g' heap' w := by
  refine Traces.invariant (P := fun os w => ∃ g' heap', (performAll g os).run heap = .ok g' heap' ∧
    Follows nodes g' heap' w) ?_ hrun ⟨g, heap, rfl, h⟩
  rintro es w l w' ⟨g₁, heap₁, hperform, hfollows⟩ - hs
  obtain ⟨g₂, heap₂, hstep, hfollows₂⟩ := step_follows hfollows hs
  refine ⟨g₂, heap₂, ?_, hfollows₂⟩
  rw [performAll_append, run_bind_eq hperform]
  exact hstep

omit [DecidableEq κ] in
/-- **The start** leads to the server that was started. -/
theorem start_follows {parse : Str → Except Failure Json} {file : Option Str} {path logDir : Str}
    {lib : Library} {queue : RequestQueue RequestQueueItem} {fs : FileSystem} {config : Config}
    {w : CoAPServer κ} (hqueue : Represents queue [])
    (h : Started parse file path logDir lib queue fs config w) :
    ∃ nodes g heap, (start config.resources).run Heap.empty =
      .ok (nodes.map Prod.fst, some g) heap ∧ Follows nodes g heap w := by
  obtain ⟨hconfig, wp, fs', hnew, hinitServer⟩ := id h
  have htyped : ∀ cfg ∈ config.resources, Typed cfg :=
    fun cfg hcfg c hc => (newConfig_single hconfig cfg hcfg c hc).type
  obtain ⟨-, hdyns, hstatics⟩ := started_layout h
  have htyped' : ∀ cfg ∈ (overrideLogDir logDir config).resources, Typed cfg := by
    rw [overrideLogDir_resources]
    exact htyped
  obtain ⟨-, -, hregistry, hq, -⟩ := newServer_spec lib _ queue _ _ _ hnew
  have hbuilds := newServer_builds htyped' _ _ _ hnew
  obtain ⟨err, hinit⟩ := initServer_ok hinitServer
  obtain ⟨-, -, hobjects⟩ := init_attached (w := { wp with stderr := err }) hregistry hinit
  have hbuilt : ∀ o ∈ (layout w).objects, Built o.1 o.2 := by
    rw [hobjects]
    intro o ho
    obtain ⟨r, hr, rfl⟩ := List.mem_map.mp ho
    exact hbuilds r hr
  have hconfigs : (layout w).objects.map Prod.fst = config.resources.filter (!·.dynamic) := by
    rw [← staticConfigs, ← hstatics, layout, List.map_map]
    rfl
  have hempty : Holds (1 : Assertion Obj) Heap.empty := ⟨rfl, fun a ha => by cases ha⟩
  obtain ⟨res, heap, hstart, ⟨nodes, ss, hcells⟩, hfresh⟩ :=
    (start_triple hconfigs hbuilt).run hempty
  obtain ⟨⟨rfl, hnodes, hcontents⟩, hparts⟩ := fact_mul.mp hcells
  refine ⟨nodes, started ss, heap, hstart, ss, [], ?_, ?_, hparts, hfresh⟩
  · have hlen : ss.length = wp.resources.length := by
      rw [← List.length_map Placed.contents, hcontents, hobjects, layout, List.length_map]
    obtain ⟨hresources, hqueue'⟩ := foldl_registeredAt ss
      { resources := ss.map (·.addr), registered := fun _ => none, queue := [] }
    have hrouted : Routed (layout w) := init_routed (w := { wp with stderr := err }) hregistry hinit
    refine ⟨hcontents, hresources, ?_, ?_, ?_, ?_, hrouted⟩
    · have hnone : Registers ss (fun _ => none) wp.registry := by
        intro path
        rw [hregistry]
        rfl
      have hall := fun g : Pointers => @attachAll_registers κ ss (List.range wp.resources.length)
        { wp with stderr := err } w g hinit (hcontents.trans hobjects)
      rw [← hlen, filterMap_range] at hall
      exact hall _ hnone
    · rw [started, hqueue']
      rfl
    · have hstatic : ∀ s ∈ ss, (!s.config.dynamic) = true := by
        intro s hs
        have hmem : node s ∈ staticNodes nodes := by
          rw [← hnodes]
          exact List.mem_map_of_mem hs
        exact (List.mem_filter.mp hmem).2
      rw [List.filter_eq_self.mpr hstatic, hnodes]
    · intro cfg hcfg
      have hmem : cfg ∈ dynamicConfigs config := by
        rw [← hdyns]
        exact hcfg
      obtain ⟨hmem, hdyn⟩ := List.mem_filter.mp hmem
      exact ⟨hdyn, htyped cfg hmem⟩
  · have hsame : w.queue = wp.queue := Failures.queue_init { wp with stderr := err } _ _ hinit
    rw [hsame, hq]
    exact hqueue

/-! ### What the pointers lead to -/

/-- The method that a source stands for, by the pointers. -/
def sourceIn (cells : ℕ → Option Obj) (g : Pointers) (src : MethodRef) : Option ℕ := do
  let p ← g.resources[src.resource]?
  let r ← (cells p).bind Obj.asResource
  r.methods[src.method]?

/-- **The pointers lead to the server**: each resource in the list to its configuration and its
methods, the user data of a registered path to its resource, and each item to its method. -/
structure Leads (heap : Heap Obj) (g : Pointers) (w : CoAPServer κ) : Prop where
  resources : g.resources.map (resourceContents heap.cells) =
    w.resources.map fun r => some (r.config, r.methods)
  registered : ∀ path, g.registered path =
    (w.registry path).bind fun reg => g.resources[reg.resource]?
  queue : g.queue.map some = (contents w.queue).map fun item => sourceIn heap.cells g item.src

omit [DecidableEq κ] in
theorem Follows.leads {nodes : List (ℕ × ResourceConfig)} {g : Pointers} {heap : Heap Obj}
    {w : CoAPServer κ} (h : Follows nodes g heap w) : Leads heap g w := by
  obtain ⟨ss, L, hlive, hq, hheap⟩ := h
  refine ⟨?_, fun path => ?_, ?_⟩
  · have hcontents : (ss.map Placed.contents).map some =
        w.resources.map fun r => some (r.config, r.methods) := by
      rw [hlive.contents, layout, List.map_map]
      rfl
    rw [hlive.resources, ← hcontents, List.map_map, List.map_map]
    exact List.map_congr_left fun s hs => Placed.resourceContents_eq (owned_within hs) hheap.1
  · rw [hlive.registers path]
    simp only [layout, hlive.resources, List.getElem?_map]
  · rw [hlive.queue, hq.contents_eq]
    refine List.map_congr_left fun item _ => ?_
    rw [pointerOf, sourceIn, hlive.resources, List.getElem?_map]
    cases hs : ss[item.src.resource]? with
    | none => rfl
    | some s =>
      have hcell := (s.includes_resource.within (owned_within (List.mem_of_getElem? hs))).cells hheap.1
      simp only [Option.map_some, Option.bind_eq_bind, Option.bind_some, hcell, Obj.asResource,
        Placed.object, List.getElem?_map]

/-- **No object is used after its end, and none is left.** Where a server with an accepted
configuration has started, every run of it is followed by the program with its pointers without a
fault, its pointers then lead to the objects of the server, and the destructors at the end of `main`
delete each object once. -/
theorem objects_live {parse : Str → Except Failure Json} {file : Option Str} {path logDir : Str}
    {lib : Library} {queue : RequestQueue RequestQueueItem} {fs : FileSystem} {config : Config}
    {re : Matcher} {w₀ w : CoAPServer κ} {os : List Op} (hqueue : Represents queue [])
    (hstart : Started parse file path logDir lib queue fs config w₀)
    (hrun : Traces (step re) (fun _ _ => True) (ops re) w₀ os w) :
    ∃ nodes g₀ heap₀ g heap heap',
      (start config.resources).run Heap.empty = .ok (nodes, some g₀) heap₀ ∧
      (performAll g₀ os).run heap₀ = .ok g heap ∧ Leads heap g w ∧
      (shutdown nodes g).run heap = .ok ⟨⟩ heap' ∧ ∀ a, heap'.cells a = none := by
  obtain ⟨nodes, g₀, heap₀, hrun₀, hfollows₀⟩ := start_follows hqueue hstart
  obtain ⟨g, heap, hperform, hfollows⟩ := run_follows hfollows₀ hrun
  obtain ⟨ss, L, hlive, -, hheap⟩ := id hfollows
  obtain ⟨u, heap', hend, hone, -⟩ := (shutdown_triple hlive.resources hlive.static).run hheap
  refine ⟨nodes.map Prod.fst, g₀, heap₀, g, heap, heap', hrun₀, hperform, hfollows.leads, hend,
    fun a => ?_⟩
  rw [one_iff.mp hone]

/-- A static resource with a `PUT`, and a dynamic one with a `GET`. -/
def mixedJson : Json := .object [(str "resources", .array
  [.object [(str "path", .string (str "s")), (str "methods", .object [(str "PUT", .object [])])],
    formatJson (str "STRING")])]

/-- Both resources are asked for, with a poll in between. -/
def mixedLabels : List (Label ℕ) :=
  [.request ⟨str "s", by decide⟩ putByte .put ⟨⟨0, 0⟩, []⟩ ⟨.empty, .con, [], none⟩,
    .consume quiet, .poll,
    .request ⟨str "x", by decide⟩ bareRequest .get ⟨⟨0, 0⟩, []⟩ ⟨.empty, .con, [], none⟩,
    .consume quiet]

/-- The server can start and take these steps. -/
theorem mixed_trace : ∃ config os, ∃ w₀ w : CoAPServer ℕ,
    Started (parserOf mixedJson) (some mixedJson.dump) [] [] fullLibrary twoSlots openFs config w₀ ∧
    Traces (step literalMatcher) (fun _ _ => True) (ops literalMatcher) w₀ os w ∧
    os.length = 5 := by
  obtain ⟨config, w₀, hstart, hplay⟩ : ∃ config, ∃ w₀ : CoAPServer ℕ,
      Started (parserOf mixedJson) (some mixedJson.dump) [] [] fullLibrary twoSlots openFs config w₀ ∧
      (play (step literalMatcher) (ops literalMatcher) mixedLabels w₀).map
        (fun x => decide (x.1.length = 5)) = some true :=
    ⟨_, _, ⟨newConfig_dump _ _, _, _, rfl, rfl⟩, by decide +kernel⟩
  obtain ⟨⟨os, w⟩, hrun, hcheck⟩ := Option.map_eq_some_iff.mp hplay
  exact ⟨config, os, w₀, w, hstart, traces_of_play mixedLabels (fun _ _ _ => trivial) hrun,
    of_decide_eq_true hcheck⟩

theorem objects_live_mixed : ∃ config : Config, ∃ os, ∃ w₀ w : CoAPServer ℕ,
    ∃ nodes g₀ heap₀ g heap heap',
    Traces (step literalMatcher) (fun _ _ => True) (ops literalMatcher) w₀ os w ∧ os.length = 5 ∧
      (start config.resources).run Heap.empty = .ok (nodes, some g₀) heap₀ ∧
      (performAll g₀ os).run heap₀ = .ok g heap ∧ Leads heap g w ∧
      (shutdown nodes g).run heap = .ok ⟨⟩ heap' ∧ ∀ a, heap'.cells a = none := by
  obtain ⟨config, os, w₀, w, hstart, htrace, hlen⟩ := mixed_trace
  have hnew : Queue.Sequential.new 2 = some twoSlots := by decide
  obtain ⟨nodes, g₀, heap₀, g, heap, heap', hlive⟩ :=
    objects_live (new_represents (by decide) hnew).1 hstart htrace
  exact ⟨config, os, w₀, w, nodes, g₀, heap₀, g, heap, heap', htrace, hlen, hlive⟩

end CoapServer.Server.Lifetimes
