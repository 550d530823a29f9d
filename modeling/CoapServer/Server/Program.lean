import CoapServer.Resources.Pointers
import CoapServer.Server.Requests

/-! # The program with its pointers

The nodes of the configuration, the objects of the resources, and the pointers of
`CoAPServer::resources`, of the resources registered with the library and of the items in the queue.
An access to an object that is not there, or that is not of the kind it is taken for, and a second
`delete` are faults. Where the pointers lead to the objects, the calls return and leave them as they
are (`returns_handle`, `returns_process`, `returns_valueUpdate`), or make new ones (`create_triple`);
the destructors at the end of `main` leave nothing of what the start and the requests have made
(`start_triple`, `shutdown_triple`).

An exception ends the process, so only calls that return are followed here. -/

namespace CoapServer.Server.Program

open CoapServer.Basic CoapServer.Config CoapServer.Lib.Memory CoapServer.Lib.Separation
open CoapServer.Resources.Formatter CoapServer.Resources.Object CoapServer.Resources.Pointers
open CoapServer.Server.Requests

/-! ### The calls -/

/-- **The pointers outside of the objects**: the list of the resources, the user data of what is
registered with the library, and the sources of the items in the queue. -/
structure Pointers where
  resources : List ℕ
  registered : Str → Option ℕ
  queue : List ℕ

/-- The loop of `attach` over the methods: whether the library has handlers for all. -/
def attachMethods : List ℕ → ObjM Bool
  | [] => return true
  | a :: as => do
    let m ← readMethod a
    let c ← readMethodConfig m
    if Queueable c.type then attachMethods as else return false

/-- `Resource::attach`. -/
def attach (g : Pointers) (p : ℕ) : ObjM (Option Pointers) := do
  let r ← readResource p
  let c ← readConfig r.config
  if ← attachMethods r.methods then
    return some { g with registered := Function.update g.registered (cStr c.resourcePath) (some p) }
  else return none

/-- The loop of `init` over the resources. -/
def attachAll (g : Pointers) : List ℕ → ObjM (Option Pointers)
  | [] => return some g
  | p :: ps => do
    match ← attach g p with
    | none => return none
    | some g => attachAll g ps

/-- The loop of the constructor of the server over the configurations, with the resources so far. -/
def addResources : List ℕ → List ℕ → ObjM (List ℕ)
  | [], resources => return resources
  | a :: as, resources => do
    let c ← readConfig a
    if c.dynamic then addResources as resources
    else
      let p ← newResource a
      addResources as (resources ++ [p])

/-- The list of the configurations is made. -/
def newConfigs : List ResourceConfig → ObjM (List ℕ)
  | [] => return []
  | c :: cs => do
    let a ← new (.config c)
    let as ← newConfigs cs
    return a :: as

/-- **The start**: the configurations, and where `init` succeeds the pointers. -/
def start (configs : List ResourceConfig) : ObjM (List ℕ × Option Pointers) := do
  let nodes ← newConfigs configs
  let resources ← addResources nodes []
  let g ← attachAll { resources, registered := fun _ => none, queue := [] } resources
  return (nodes, g)

/-- The loop of `handleCoAPRequest` over the methods. -/
def findMethod (type : ResourceMethodType) : List ℕ → ObjM (Option ℕ)
  | [] => return none
  | a :: as => do
    let m ← readMethod a
    let c ← readMethodConfig m
    if c.type = type then return some a else findMethod type as

/-- **`Resource::handleCoAPRequest`** for the resource at `p`, where `queued` says whether an item is
queued: the method uses its configuration, its resource and that one's configuration. -/
def handle (g : Pointers) (p : ℕ) (type : ResourceMethodType) (queued : Bool) : ObjM Pointers := do
  let r ← readResource p
  let _ ← readConfig r.config
  match ← findMethod type r.methods with
  | none => return g
  | some a =>
    let m ← readMethod a
    let _ ← readMethodConfig m
    let parent ← readResource m.parentResource
    let _ ← readConfig parent.config
    return if queued then { g with queue := g.queue ++ [a] } else g

/-- **`handleDynamicRequest`** from the copy of the configuration on. Where the resource cannot be
attached, its objects are lost. -/
def create (g : Pointers) (config : ResourceConfig) (type : ResourceMethodType) (queued : Bool) :
    ObjM Pointers := do
  let cfg ← new (.config config)
  let p ← newResource cfg
  match ← attach g p with
  | none => return g
  | some g => handle { g with resources := g.resources ++ [p] } p type queued

/-- **A round of the queue thread**: the item's method uses its configuration, its formatters, its
resource and that one's configuration. -/
def process (g : Pointers) : ObjM Pointers := do
  match g.queue with
  | [] => return g
  | a :: rest =>
    let m ← readMethod a
    let _ ← readMethodConfig m
    m.fmts.forM fun f => do let _ ← readFormatter f
    let r ← readResource m.parentResource
    let _ ← readConfig r.config
    return { g with queue := rest }

/-- `CoAPServer::valueUpdate`. -/
def valueUpdate (g : Pointers) : ObjM Unit :=
  g.resources.forM fun p => do
    let r ← readResource p
    let _ ← readConfig r.config

/-- **The end of `main`**: the destructors of the server and of the configuration. -/
def shutdown (nodes : List ℕ) (g : Pointers) : ObjM Unit := do
  g.resources.forM deleteResource
  nodes.forM delete

/-- What happens to the objects. -/
inductive Op where
  | handle (path : Str) (type : ResourceMethodType) (queued : Bool)
  | create (config : ResourceConfig) (type : ResourceMethodType) (queued : Bool)
  | process
  | poll

def perform (g : Pointers) : Op → ObjM Pointers
  | .handle path type queued =>
    match g.registered path with
    | some p => handle g p type queued
    | none => return g
  | .create config type queued => create g config type queued
  | .process => process g
  | .poll => do
    valueUpdate g
    return g

def performAll (g : Pointers) : List Op → ObjM Pointers
  | [] => return g
  | op :: ops => do
    let g ← perform g op
    performAll g ops

theorem performAll_one (g : Pointers) (op : Op) : performAll g [op] = perform g op := bind_pure _

theorem performAll_append (os os' : List Op) : ∀ g : Pointers, performAll g (os ++ os') = (do
    let g' ← performAll g os
    performAll g' os') := by
  induction os with
  | nil => exact fun g => (pure_bind g fun g' => performAll g' os').symm
  | cons op os ih =>
    intro g
    simp only [List.cons_append, performAll, ih, bind_assoc]

/-! ### Uses of the objects -/

/-- What is registered once the resource is attached. -/
def registeredAt (g : Pointers) (s : Placed) : Pointers :=
  { g with registered :=
      Function.update g.registered (cStr s.config.resourcePath) (some s.addr) }

/-- The first method of a type. -/
def firstOf (type : ResourceMethodType) (ms : List PlacedMethod) : Option ℕ :=
  (ms.find? fun m => m.config.type = type).map (·.addr)

/-- The pointers after a request. -/
def handled (g : Pointers) (s : Placed) (type : ResourceMethodType) (queued : Bool) : Pointers :=
  if queued then { g with queue := g.queue ++ (firstOf type s.methods).toList } else g

section Uses
variable {P : Assertion Obj} {s : Placed} (hs : Within s.cells P)
  {g : Pointers}
include hs

theorem returns_methodConfig {m : PlacedMethod} (hm : m ∈ s.methods) :
    Returns P (readMethodConfig (m.object s.addr s.configAddr)) m.config :=
  returns_readMethodConfig (s.indexed m hm) (s.includes_config.within hs)

theorem returns_attachMethods (ms : List PlacedMethod) (hms : ∀ m ∈ ms, m ∈ s.methods)
    (htypes : ∀ m ∈ ms, Queueable m.config.type) :
    Returns P (attachMethods (ms.map (·.addr))) true := by
  induction ms with
  | nil => exact Returns.pure true
  | cons m ms ih =>
    have hm := hms m List.mem_cons_self
    refine Returns.bind (returns_readMethod ((s.includes_method hm).within hs)) ?_
    refine Returns.bind (returns_methodConfig hs hm) ?_
    rw [if_pos (htypes m List.mem_cons_self)]
    exact ih (fun m' hm' => hms m' (List.mem_cons_of_mem m hm'))
      fun m' hm' => htypes m' (List.mem_cons_of_mem m hm')

/-- **A resource is attached.** -/
theorem returns_attach (htypes : ∀ m ∈ s.methods, Queueable m.config.type) :
    Returns P (attach g s.addr) (some (registeredAt g s)) := by
  refine Returns.bind (returns_readResource (s.includes_resource.within hs)) ?_
  refine Returns.bind (returns_readConfig (s.includes_config.within hs)) ?_
  exact Returns.bind (returns_attachMethods hs s.methods (fun _ => id) htypes) (Returns.pure _)

theorem returns_findMethod (type : ResourceMethodType) (ms : List PlacedMethod)
    (hms : ∀ m ∈ ms, m ∈ s.methods) :
    Returns P (findMethod type (ms.map (·.addr))) (firstOf type ms) := by
  induction ms with
  | nil => exact Returns.pure none
  | cons m ms ih =>
    have hm := hms m List.mem_cons_self
    refine Returns.bind (returns_readMethod ((s.includes_method hm).within hs)) ?_
    refine Returns.bind (returns_methodConfig hs hm) ?_
    unfold firstOf
    by_cases htype : m.config.type = type
    · simp only [if_pos htype, List.find?_cons, decide_eq_true htype]
      exact Returns.pure _
    · simp only [if_neg htype, List.find?_cons, decide_eq_false htype]
      exact ih fun m' hm' => hms m' (List.mem_cons_of_mem m hm')

/-- **A request is handled.** -/
theorem returns_handle (type : ResourceMethodType) (queued : Bool) :
    Returns P (handle g s.addr type queued) (handled g s type queued) := by
  refine Returns.bind (returns_readResource (s.includes_resource.within hs)) ?_
  refine Returns.bind (returns_readConfig (s.includes_config.within hs)) ?_
  refine Returns.bind (returns_findMethod hs type s.methods fun _ => id) ?_
  unfold handled firstOf
  cases hfind : s.methods.find? fun m => m.config.type = type with
  | none =>
    simp only [Option.map_none, Option.toList_none, List.append_nil, ite_self]
    exact Returns.pure g
  | some m =>
    have hm := List.mem_of_find?_eq_some hfind
    refine Returns.bind (returns_readMethod ((s.includes_method hm).within hs)) ?_
    refine Returns.bind (returns_methodConfig hs hm) ?_
    refine Returns.bind (returns_readResource (s.includes_resource.within hs)) ?_
    exact Returns.bind (returns_readConfig (s.includes_config.within hs)) (Returns.pure _)

/-- **An item is processed.** -/
theorem returns_process {m : PlacedMethod} (hm : m ∈ s.methods) {rest : List ℕ}
    (hqueue : g.queue = m.addr :: rest) :
    Returns P (process g) { g with queue := rest } := by
  have hfmts : Returns P ((m.object s.addr s.configAddr).fmts.forM fun f => do
      let _ ← readFormatter f) ⟨⟩ := by
    refine Returns.forM fun f hf => ?_
    obtain ⟨f', hf', rfl⟩ := List.mem_map.mp hf
    have hcell := (s.includes_formatter hm hf').within hs
    exact Returns.bind (returns_readFormatter hcell) (Returns.pure ())
  unfold process
  rw [hqueue]
  refine Returns.bind (returns_readMethod ((s.includes_method hm).within hs)) ?_
  refine Returns.bind (returns_methodConfig hs hm) ?_
  refine Returns.bind hfmts ?_
  refine Returns.bind (returns_readResource (s.includes_resource.within hs)) ?_
  exact Returns.bind (returns_readConfig (s.includes_config.within hs)) (Returns.pure _)

end Uses

/-- **The resources are polled.** -/
theorem returns_valueUpdate {P : Assertion Obj} {g : Pointers} {ss : List Placed}
    (hg : g.resources = ss.map (·.addr))
    (hss : ∀ s ∈ ss, Within s.cells P) :
    Returns P (valueUpdate g) ⟨⟩ := by
  unfold valueUpdate
  rw [hg]
  refine Returns.forM fun p hp => ?_
  obtain ⟨s, hs, rfl⟩ := List.mem_map.mp hp
  refine Returns.bind (returns_readResource (s.includes_resource.within (hss s hs))) ?_
  exact Returns.bind (returns_readConfig (s.includes_config.within (hss s hs))) (Returns.pure ())

/-! ### The start and the end -/

/-- A resource can be made with these methods. -/
structure Built (config : ResourceConfig) (ms : List ResourceMethod) : Prop where
  configs : ms.map (·.config) = config.methods
  made : ∀ m ∈ ms, Resources.Object.newMethod m.config = .ok m
  types : ∀ m ∈ ms, Queueable m.config.type

/-- **All of the heap**: the objects of the resources, and the configurations that have none. -/
def owned (ss : List Placed) (free : List (ℕ × ResourceConfig)) : Assertion Obj :=
  (ss.map Placed.cells).prod * (free.map configCell).prod

theorem owned_within {ss : List Placed} {free : List (ℕ × ResourceConfig)} {s : Placed}
    (hs : s ∈ ss) : Within s.cells (owned ss free) :=
  (within_prod hs).trans (within_mul _ _)

/-- **A resource is created**, attached and handles the request. -/
theorem create_triple {P : Assertion Obj} {g : Pointers} {config : ResourceConfig}
    {ms : List ResourceMethod} (h : Built config ms) (type : ResourceMethodType) (queued : Bool) :
    Triple P (create g config type queued) fun g' => ex fun s : Placed =>
      fact (s.contents = (config, ms) ∧ g' = handled
        { registeredAt g s with resources := g.resources ++ [s.addr] } s type queued) *
      (s.cells * P) := by
  refine Triple.bind ((Triple.new _).framed P (one_mul P).symm fun _ => rfl) fun cfg => ?_
  refine Triple.bind ((newResource_triple h.made h.configs).frame P) fun p => ?_
  refine Triple.of_ex_mul fun s => Triple.of_fact_mul ?_
  rintro ⟨rfl, -, hcontents⟩
  have hs := within_mul s.cells P
  have htypes : ∀ m ∈ s.methods, Queueable m.config.type := by
    intro m hm
    refine h.types m.method ?_
    rw [← (Prod.mk.inj hcontents).2]
    exact List.mem_map_of_mem hm
  refine Returns.bind (returns_attach hs htypes) ?_
  refine (returns_handle hs type queued).post fun g' c hc => ?_
  obtain ⟨rfl, hcells⟩ := fact_mul.mp hc
  exact ex_intro s (fact_mul.mpr ⟨⟨hcontents, rfl⟩, hcells⟩)

/-- The configurations are made. -/
theorem newConfigs_triple (configs : List ResourceConfig) : Triple 1 (newConfigs configs) fun as =>
    ex fun nodes : List (ℕ × ResourceConfig) =>
      fact (as = nodes.map Prod.fst ∧ nodes.map Prod.snd = configs) *
        (nodes.map configCell).prod := by
  induction configs with
  | nil =>
    exact Triple.return [] fun _ hc => ex_intro [] (fact_mul.mpr ⟨⟨rfl, rfl⟩, hc⟩)
  | cons c configs ih =>
    refine Triple.bind (Triple.new _) fun a => ?_
    refine Triple.bind (ih.framed (configCell (a, c)) (one_mul _).symm fun _ => rfl) fun as => ?_
    refine Triple.of_ex_mul fun nodes => Triple.of_fact_mul ?_
    rintro ⟨rfl, rfl⟩
    refine Triple.return _ fun _ hc => ex_intro ((a, c) :: nodes) (fact_mul.mpr ⟨⟨rfl, rfl⟩, ?_⟩)
    rw [List.map_cons, List.prod_cons, mul_comm]
    exact hc

/-- The configuration of a resource as a node. -/
def node (s : Placed) : ℕ × ResourceConfig := (s.configAddr, s.config)

/-- The nodes of the configurations that are not dynamic. -/
def staticNodes (nodes : List (ℕ × ResourceConfig)) : List (ℕ × ResourceConfig) :=
  nodes.filter fun c => !c.2.dynamic

/-- The nodes of the dynamic configurations. -/
def dynamicNodes (nodes : List (ℕ × ResourceConfig)) : List (ℕ × ResourceConfig) :=
  nodes.filter fun c => c.2.dynamic

/-- All nodes. -/
theorem nodes_prod (nodes : List (ℕ × ResourceConfig)) :
    (nodes.map configCell).prod =
      ((staticNodes nodes).map configCell).prod * ((dynamicNodes nodes).map configCell).prod := by
  rw [← List.prod_append, ← List.map_append]
  refine List.Perm.prod_eq (List.Perm.map _ ?_)
  have hperm := List.filter_append_perm (fun c : ℕ × ResourceConfig => c.2.dynamic) nodes
  exact (List.perm_append_comm.trans hperm).symm

/-- **The resources of the constructor are made.** -/
theorem addResources_triple (nodes : List (ℕ × ResourceConfig)) :
    ∀ {resources : List ℕ} {objs : List (ResourceConfig × List ResourceMethod)},
      objs.map Prod.fst = (staticNodes nodes).map Prod.snd → (∀ o ∈ objs, Built o.1 o.2) →
      Triple (nodes.map configCell).prod (addResources (nodes.map Prod.fst) resources) fun ps =>
        ex fun ss : List Placed =>
          fact (ps = resources ++ ss.map (·.addr) ∧ ss.map node = staticNodes nodes ∧
            ss.map Placed.contents = objs) * owned ss (dynamicNodes nodes) := by
  induction nodes with
  | nil =>
    intro resources objs hobjs _
    obtain rfl : objs = [] := List.map_eq_nil_iff.mp hobjs
    refine Triple.return resources fun _ hc => ex_intro [] (fact_mul.mpr ⟨⟨?_, rfl, rfl⟩, ?_⟩)
    · exact (List.append_nil _).symm
    · simpa [owned, dynamicNodes] using hc
  | cons c nodes ih =>
    intro resources objs hobjs hbuilt
    obtain ⟨a, config⟩ := c
    rw [List.map_cons, List.map_cons, List.prod_cons]
    refine Returns.bind (returns_readConfig ⟨_, rfl⟩) ?_
    cases hdyn : config.dynamic with
    | true =>
      have hstatic : staticNodes ((a, config) :: nodes) = staticNodes nodes := by
        simp [staticNodes, hdyn]
      have hdynamic : dynamicNodes ((a, config) :: nodes) = (a, config) :: dynamicNodes nodes := by
        simp [dynamicNodes, hdyn]
      rw [hstatic] at hobjs ⊢
      refine ((ih hobjs hbuilt).framed (configCell (a, config)) (mul_comm _ _) fun _ => rfl).post
        fun ps d hd => ?_
      rw [ex_mul] at hd
      obtain ⟨ss, hd⟩ := hd
      rw [mul_assoc, fact_mul] at hd
      refine ex_intro ss (fact_mul.mpr ⟨hd.1, ?_⟩)
      have howned : owned ss (dynamicNodes nodes) * configCell (a, config) =
          owned ss (dynamicNodes ((a, config) :: nodes)) := by
        rw [hdynamic, owned, owned, List.map_cons, List.prod_cons]
        ac_rfl
      rw [← howned]
      exact hd.2
    | false =>
      have hstatic : staticNodes ((a, config) :: nodes) = (a, config) :: staticNodes nodes := by
        simp [staticNodes, hdyn]
      have hdynamic : dynamicNodes ((a, config) :: nodes) = dynamicNodes nodes := by
        simp [dynamicNodes, hdyn]
      rw [hstatic, List.map_cons] at hobjs
      obtain ⟨o, objs', rfl, hconfig, hobjs'⟩ := List.map_eq_cons_iff.mp hobjs
      obtain ⟨config', ms⟩ := o
      obtain rfl : config' = config := hconfig
      have ho := hbuilt _ List.mem_cons_self
      refine Triple.bind ((newResource_triple ho.made ho.configs).frame _) fun p => ?_
      refine Triple.of_ex_mul fun s => Triple.of_fact_mul ?_
      rintro ⟨rfl, hnode, hcontents⟩
      refine ((ih hobjs' fun o ho => hbuilt o (List.mem_cons_of_mem _ ho)).framed s.cells
        (mul_comm _ _) fun _ => rfl).post fun ps d hd => ?_
      rw [ex_mul] at hd
      obtain ⟨ss, hd⟩ := hd
      rw [mul_assoc, fact_mul] at hd
      obtain ⟨⟨rfl, hnodes, hobjs''⟩, hd⟩ := hd
      refine ex_intro (s :: ss) (fact_mul.mpr ⟨⟨?_, ?_, ?_⟩, ?_⟩)
      · rw [List.append_assoc]
        rfl
      · have hs : s.config = config' := (Prod.mk.inj hcontents).1
        rw [List.map_cons, hnodes, hstatic, node, hnode, hs]
      · rw [List.map_cons, hcontents, hobjs'']
      · have howned : owned ss (dynamicNodes nodes) * s.cells =
            owned (s :: ss) (dynamicNodes ((a, config') :: nodes)) := by
          rw [hdynamic, owned, owned, List.map_cons, List.prod_cons]
          ac_rfl
        rw [← howned]
        exact hd

/-- **The resources are attached.** -/
theorem returns_attachAll {P : Assertion Obj} (ss : List Placed)
    (hss : ∀ s ∈ ss, Within s.cells P)
    (htypes : ∀ s ∈ ss, ∀ m ∈ s.methods, Queueable m.config.type) : ∀ g : Pointers,
    Returns P (attachAll g (ss.map (·.addr))) (some (ss.foldl registeredAt g)) := by
  induction ss with
  | nil => exact fun g => Returns.pure (some g)
  | cons s ss ih =>
    intro g
    have hs := hss s List.mem_cons_self
    refine Returns.bind (returns_attach hs (htypes s List.mem_cons_self)) ?_
    exact ih (fun s' hs' => hss s' (List.mem_cons_of_mem s hs'))
      (fun s' hs' => htypes s' (List.mem_cons_of_mem s hs')) (registeredAt g s)

/-- The pointers after the start. -/
def started (ss : List Placed) : Pointers :=
  ss.foldl registeredAt { resources := ss.map (·.addr), registered := fun _ => none, queue := [] }

/-- **The program starts.** -/
theorem start_triple {configs : List ResourceConfig}
    {objs : List (ResourceConfig × List ResourceMethod)}
    (hobjs : objs.map Prod.fst = configs.filter (!·.dynamic)) (hbuilt : ∀ o ∈ objs, Built o.1 o.2) :
    Triple 1 (start configs) fun res => ex fun nodes : List (ℕ × ResourceConfig) =>
      ex fun ss : List Placed =>
        fact (res = (nodes.map Prod.fst, some (started ss)) ∧ ss.map node = staticNodes nodes ∧
          ss.map Placed.contents = objs) * owned ss (dynamicNodes nodes) := by
  refine Triple.bind (newConfigs_triple configs) fun as => ?_
  refine Triple.of_ex fun nodes => Triple.of_fact ?_
  rintro ⟨rfl, rfl⟩
  have hstatics : objs.map Prod.fst = (staticNodes nodes).map Prod.snd := by
    rw [hobjs, List.filter_map]
    rfl
  refine Triple.bind (addResources_triple nodes hstatics hbuilt) fun resources => ?_
  refine Triple.of_ex fun ss => Triple.of_fact ?_
  rintro ⟨rfl, hnodes, hcontents⟩
  have htypes : ∀ s ∈ ss, ∀ m ∈ s.methods, Queueable m.config.type := by
    intro s hs m hm
    have hmem : s.contents ∈ objs := by
      rw [← hcontents]
      exact List.mem_map_of_mem hs
    exact (hbuilt _ hmem).types m.method (List.mem_map_of_mem hm)
  refine Returns.bind (returns_attachAll ss (fun s => owned_within) htypes _) ?_
  exact Triple.return _ fun _ hc =>
    ex_intro nodes (ex_intro ss (fact_mul.mpr ⟨⟨rfl, hnodes, hcontents⟩, hc⟩))

theorem foldl_registeredAt (ss : List Placed) : ∀ g : Pointers,
    (ss.foldl registeredAt g).resources = g.resources ∧
      (ss.foldl registeredAt g).queue = g.queue := by
  induction ss with
  | nil => exact fun g => ⟨rfl, rfl⟩
  | cons s ss ih => exact fun g => ih (registeredAt g s)

/-- **The destructors** leave nothing. -/
theorem shutdown_triple {nodes : List (ℕ × ResourceConfig)} {ss : List Placed} {g : Pointers}
    (hg : g.resources = ss.map (·.addr))
    (hstatic : (ss.filter fun s => !s.config.dynamic).map node = staticNodes nodes) :
    Triple (owned ss (dynamicNodes nodes)) (shutdown (nodes.map Prod.fst) g) fun _ => 1 := by
  have hresources : Triple (ss.map Placed.cells).prod (g.resources.forM deleteResource) fun _ =>
      ((staticNodes nodes).map configCell).prod := by
    rw [hg]
    refine (Triple.forM fun s _ => deleteResource_triple s).of_eq rfl fun _ => ?_
    rw [← hstatic]
    clear hg hstatic
    induction ss with
    | nil => rfl
    | cons s ss ih =>
      rw [List.map_cons, List.prod_cons, ih]
      cases hdyn : s.config.dynamic with
      | true => simp [hdyn]
      | false => simp [hdyn, node]
  refine Triple.bind (hresources.frame _) fun _ => ?_
  rw [← nodes_prod]
  exact Triple.forM_one fun c _ => Triple.delete

end CoapServer.Server.Program
