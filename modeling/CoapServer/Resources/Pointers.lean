import CoapServer.Lib.Fallible
import CoapServer.Lib.Separation
import CoapServer.Resources.Object

/-! # The objects of a resource on the heap

A `Resource` points to its configuration and to its methods, a `ResourceMethod` to its resource, to
its part of the configuration and to its formatters. Here the constructors and destructors are taken
with their pointers. `newResource` makes the objects of a resource, and `deleteResource` deletes them,
with the configuration if it is dynamic and without it if it is not (`newResource_triple`,
`deleteResource_triple`). -/

namespace CoapServer.Resources.Pointers

open CoapServer.Basic CoapServer.Config CoapServer.Lib.Fallible CoapServer.Lib.Memory
open CoapServer.Lib.Separation
open CoapServer.Resources.Formatter CoapServer.Resources.Object

/-! ### Objects -/

/-- The pointers of a `ResourceMethod`: its configuration is one of those of a resource. -/
structure MethodObject where
  parentResource : ℕ
  config : ℕ
  index : ℕ
  fmts : List ℕ

/-- The pointers of a `Resource`. -/
structure ResourceObject where
  config : ℕ
  methods : List ℕ

/-- **What is on the heap.** -/
inductive Obj where
  | config (c : ResourceConfig)
  | formatter (fmt : Format)
  | method (m : MethodObject)
  | resource (r : ResourceObject)

def Obj.asConfig : Obj → Option ResourceConfig
  | .config c => some c
  | _ => none

def Obj.asFormatter : Obj → Option Format
  | .formatter fmt => some fmt
  | _ => none

def Obj.asMethod : Obj → Option MethodObject
  | .method m => some m
  | _ => none

def Obj.asResource : Obj → Option ResourceObject
  | .resource r => some r
  | _ => none

/-- A call on the heap, which may also end in a failure. -/
abbrev ObjM := HeapM Failure Obj

def readConfig (a : ℕ) : ObjM ResourceConfig := readAs Obj.asConfig a

def readFormatter (a : ℕ) : ObjM Format := readAs Obj.asFormatter a

def readMethod (a : ℕ) : ObjM MethodObject := readAs Obj.asMethod a

def readResource (a : ℕ) : ObjM ResourceObject := readAs Obj.asResource a

/-- The configuration of a method. -/
def readMethodConfig (m : MethodObject) : ObjM ResourceMethodConfig := do
  match (← readConfig m.config).methods[m.index]? with
  | some c => return c
  | none => throw (.inl (.dangling m.config))

/-! ### Constructors and destructors -/

/-- `ResourceFormatter::createResourceFormatter`. -/
def newFormatter (format : Str) : ObjM ℕ := do
  match createResourceFormatter format with
  | .ok fmt => new (.formatter fmt)
  | .error e => throw (.inr e)

/-- The loop of the constructor of a method over the formats. -/
def addFormatters (a : ℕ) : List Str → ObjM Unit
  | [] => return
  | format :: formats => do
    let f ← newFormatter format
    let m ← readMethod a
    write a (.method { m with fmts := m.fmts ++ [f] })
    addFormatters a formats

/-- `new ResourceMethod`. -/
def newMethod (parentResource config index : ℕ) : ObjM ℕ := do
  let m : MethodObject := { parentResource, config, index, fmts := [] }
  let a ← new (.method m)
  let c ← readMethodConfig m
  addFormatters a c.format
  return a

/-- The loop of the constructor of a resource over the methods. -/
def addMethods (p config : ℕ) : List ℕ → ObjM Unit
  | [] => return
  | k :: ks => do
    let a ← newMethod p config k
    let r ← readResource p
    write p (.resource { r with methods := r.methods ++ [a] })
    addMethods p config ks

/-- `new Resource`. -/
def newResource (config : ℕ) : ObjM ℕ := do
  let p ← new (.resource { config, methods := [] })
  let c ← readConfig config
  addMethods p config (List.range c.methods.length)
  return p

/-- `ResourceMethod::~ResourceMethod`, and the end of the object. -/
def deleteMethod (a : ℕ) : ObjM Unit := do
  let m ← readMethod a
  m.fmts.forM delete
  delete a

/-- `Resource::~Resource`, and the end of the object: a dynamic configuration was made for it. -/
def deleteResource (p : ℕ) : ObjM Unit := do
  let r ← readResource p
  r.methods.forM deleteMethod
  let c ← readConfig r.config
  if c.dynamic then delete r.config
  delete p

/-! ### Where the objects are -/

/-- A method object with its formatters, and where they are. -/
structure PlacedMethod where
  addr : ℕ
  index : ℕ
  config : ResourceMethodConfig
  fmts : List (ℕ × Format)

/-- **A resource object** with its configuration and its methods, and where they are. -/
structure Placed where
  addr : ℕ
  configAddr : ℕ
  config : ResourceConfig
  methods : List PlacedMethod
  indexed : ∀ m ∈ methods, config.methods[m.index]? = some m.config

/-- A formatter is there. -/
def fmtCell (f : ℕ × Format) : Assertion Obj := pointsTo f.1 (.formatter f.2)

/-- A configuration is there. -/
def configCell (c : ℕ × ResourceConfig) : Assertion Obj := pointsTo c.1 (.config c.2)

def PlacedMethod.object (m : PlacedMethod) (p config : ℕ) : MethodObject :=
  { parentResource := p, config, index := m.index, fmts := m.fmts.map Prod.fst }

/-- The method and its formatters are there. -/
def PlacedMethod.cells (p config : ℕ) (m : PlacedMethod) : Assertion Obj :=
  pointsTo m.addr (.method (m.object p config)) * (m.fmts.map fmtCell).prod

def Placed.object (s : Placed) : ResourceObject :=
  { config := s.configAddr, methods := s.methods.map (·.addr) }

/-- **The objects of a resource are there.** -/
def Placed.cells (s : Placed) : Assertion Obj :=
  pointsTo s.addr (.resource s.object) * configCell (s.configAddr, s.config) *
    (s.methods.map (·.cells s.addr s.configAddr)).prod

/-- The method that the objects are. -/
def PlacedMethod.method (m : PlacedMethod) : ResourceMethod :=
  { config := m.config, fmts := m.fmts.map Prod.snd }

/-- The configuration and the methods that the objects are. -/
def Placed.contents (s : Placed) : ResourceConfig × List ResourceMethod :=
  (s.config, s.methods.map PlacedMethod.method)

/-! ### What the pointers lead to -/

section Cells
variable (cells : ℕ → Option Obj)

/-- The method at `a`. -/
def methodContents (a : ℕ) : Option ResourceMethod := do
  let m ← (cells a).bind Obj.asMethod
  let c ← (cells m.config).bind Obj.asConfig
  let config ← c.methods[m.index]?
  let fmts ← m.fmts.mapM fun f => (cells f).bind Obj.asFormatter
  return { config, fmts }

/-- **The configuration and the methods of the resource at `p`.** -/
def resourceContents (p : ℕ) : Option (ResourceConfig × List ResourceMethod) := do
  let r ← (cells p).bind Obj.asResource
  let c ← (cells r.config).bind Obj.asConfig
  let ms ← r.methods.mapM (methodContents cells)
  return (c, ms)

end Cells

section Includes
variable (s : Placed) {m : PlacedMethod}

theorem Placed.includes_resource : Includes s.cells s.addr (.resource s.object) :=
  ⟨_, mul_assoc _ _ _⟩

theorem Placed.includes_config : Includes s.cells s.configAddr (.config s.config) :=
  ((includes_pointsTo _ _).mul_left _).mul_right _

theorem Placed.includes_method (hm : m ∈ s.methods) :
    Includes s.cells m.addr (.method (m.object s.addr s.configAddr)) :=
  (Includes.prod hm ((includes_pointsTo _ _).mul_right _)).mul_left _

theorem Placed.includes_formatter (hm : m ∈ s.methods) {f : ℕ × Format} (hf : f ∈ m.fmts) :
    Includes s.cells f.1 (.formatter f.2) := by
  have hfmts : Includes (m.fmts.map fmtCell).prod f.1 (.formatter f.2) :=
    Includes.prod hf (includes_pointsTo _ _)
  exact (Includes.prod hm (hfmts.mul_left _)).mul_left _

variable {s} {P : Assertion Obj} {cells : ℕ → Option Obj}

/-- **The pointers lead to what is there.** -/
theorem Placed.resourceContents_eq (hs : Within s.cells P)
    (hP : P cells) : resourceContents cells s.addr = some s.contents := by
  have hresource := (s.includes_resource.within hs).cells hP
  have hconfig := (s.includes_config.within hs).cells hP
  have hmethods : s.object.methods.mapM (methodContents cells) =
      some (s.methods.map PlacedMethod.method) := by
    refine mapM_map_eq_some fun m hm => ?_
    have hmethod := ((s.includes_method hm).within hs).cells hP
    have hfmts : (m.object s.addr s.configAddr).fmts.mapM
        (fun f => (cells f).bind Obj.asFormatter) = some (m.fmts.map Prod.snd) := by
      refine mapM_map_eq_some fun f hf => ?_
      rw [((s.includes_formatter hm hf).within hs).cells hP]
      rfl
    simp only [methodContents, hmethod, Option.bind_eq_bind, Option.bind_some, Obj.asMethod, hfmts]
    have hc : (cells (m.object s.addr s.configAddr).config).bind Obj.asConfig = some s.config := by
      rw [show (m.object s.addr s.configAddr).config = s.configAddr from rfl, hconfig]
      rfl
    have hmc : s.config.methods[(m.object s.addr s.configAddr).index]? = some m.config :=
      s.indexed m hm
    simp only [hc, Option.bind_some, hmc]
    rfl
  simp only [resourceContents, hresource, Option.bind_eq_bind, Option.bind_some, Obj.asResource,
    hmethods]
  rw [show s.object.config = s.configAddr from rfl, hconfig]
  rfl

end Includes

/-! ### Reading -/

section Read
variable {P : Assertion Obj}

theorem returns_readConfig {a : ℕ} {c : ResourceConfig} (hP : Includes P a (.config c)) :
    Returns P (readConfig a) c :=
  returns_readAs hP rfl

theorem returns_readFormatter {f : ℕ × Format} (hP : Includes P f.1 (.formatter f.2)) :
    Returns P (readFormatter f.1) f.2 :=
  returns_readAs hP rfl

theorem returns_readMethod {a : ℕ} {m : MethodObject} (hP : Includes P a (.method m)) :
    Returns P (readMethod a) m :=
  returns_readAs hP rfl

theorem returns_readResource {a : ℕ} {r : ResourceObject} (hP : Includes P a (.resource r)) :
    Returns P (readResource a) r :=
  returns_readAs hP rfl

theorem returns_readMethodConfig {m : MethodObject} {c : ResourceConfig} {mc : ResourceMethodConfig}
    (hmc : c.methods[m.index]? = some mc) (hP : Includes P m.config (.config c)) :
    Returns P (readMethodConfig m) mc := by
  unfold readMethodConfig
  refine (returns_readConfig hP).bind ?_
  rw [hmc]
  exact Returns.pure mc

end Read

/-! ### The constructors -/

theorem newFormatter_triple {format : Str} {fmt : Format}
    (h : createResourceFormatter format = .ok fmt) :
    Triple 1 (newFormatter format) fun f => fmtCell (f, fmt) := by
  unfold newFormatter
  rw [h]
  exact Triple.new _

/-- The formatters of a method are made. -/
theorem addFormatters_triple {a : ℕ} {formats : List Str} : ∀ {m : MethodObject} {fmts : List Format},
    formats.mapM createResourceFormatter = .ok fmts →
    Triple (pointsTo a (.method m)) (addFormatters a formats) fun _ =>
      ex fun fs : List (ℕ × Format) => fact (fs.map Prod.snd = fmts) *
        (pointsTo a (.method { m with fmts := m.fmts ++ fs.map Prod.fst }) *
          (fs.map fmtCell).prod) := by
  induction formats with
  | nil =>
    intro m fmts h
    rw [List.mapM_nil] at h
    obtain rfl := Except.ok.inj h
    refine Triple.return () fun c hc => ex_intro [] (fact_mul.mpr ⟨rfl, ?_⟩)
    simpa using hc
  | cons format formats ih =>
    intro m fmts h
    rw [List.mapM_cons] at h
    obtain ⟨fmt, hfmt, h⟩ := bind_eq_ok h
    obtain ⟨fmts', hfmts, h⟩ := bind_eq_ok h
    obtain rfl := Except.ok.inj h
    refine Triple.bind ((newFormatter_triple hfmt).framed (pointsTo a (.method m))
      (one_mul _).symm fun _ => rfl) fun f => ?_
    refine Returns.bind (returns_readMethod ⟨_, mul_comm _ _⟩) ?_
    refine Triple.bind ((Triple.write _).framed (fmtCell (f, fmt)) (mul_comm _ _) fun _ => rfl)
      fun _ => ?_
    refine ((ih hfmts).frame (fmtCell (f, fmt))).post fun _ c hc => ?_
    rw [ex_mul] at hc
    obtain ⟨fs, hc⟩ := hc
    rw [mul_assoc, fact_mul] at hc
    obtain ⟨rfl, hc⟩ := hc
    refine ex_intro ((f, fmt) :: fs) (fact_mul.mpr ⟨rfl, ?_⟩)
    rw [List.map_cons, List.map_cons, List.prod_cons, mul_comm (fmtCell (f, fmt)), List.append_cons,
      ← mul_assoc]
    exact hc

/-- **A method is made** from its configuration. -/
theorem newMethod_triple {p config index : ℕ} {c : ResourceConfig} {m : ResourceMethod}
    (hmc : c.methods[index]? = some m.config) (hm : Object.newMethod m.config = .ok m) :
    Triple (configCell (config, c)) (newMethod p config index) fun a =>
      ex fun s : PlacedMethod =>
        fact (s.addr = a ∧ s.index = index ∧ s.method = m) *
          (s.cells p config * configCell (config, c)) := by
  obtain ⟨fmts, hfmts, hok⟩ := bind_eq_ok hm
  have hfields : m.fmts = fmts := by rw [← Except.ok.inj hok]
  unfold newMethod
  refine Triple.bind ((Triple.new _).framed (configCell (config, c)) (one_mul _).symm fun _ => rfl)
    fun a => ?_
  refine Returns.bind (returns_readMethodConfig hmc ⟨_, mul_comm _ _⟩) ?_
  refine Triple.bind ((addFormatters_triple hfmts).frame (configCell (config, c))) fun _ => ?_
  refine Triple.of_ex_mul fun fs => Triple.of_fact_mul fun hfs => ?_
  refine Triple.return a fun _ hcells => ?_
  refine ex_intro { addr := a, index, config := m.config, fmts := fs } ?_
  refine fact_mul.mpr ⟨⟨rfl, rfl, ?_⟩, ?_⟩
  · rw [PlacedMethod.method, hfs, ← hfields]
  · exact hcells

/-- The methods are made. -/
theorem addMethods_triple {p config : ℕ} {c : ResourceConfig} (ks : List ℕ) :
    ∀ {r : ResourceObject} {ms : List ResourceMethod},
      (∀ m ∈ ms, Object.newMethod m.config = .ok m) →
      List.Forall₂ (fun k m => c.methods[k]? = some m.config) ks ms →
      Triple (pointsTo p (.resource r) * configCell (config, c)) (addMethods p config ks) fun _ =>
        ex fun ss : List PlacedMethod =>
          fact (ss.map (·.index) = ks ∧ ss.map PlacedMethod.method = ms) *
            (pointsTo p (.resource { r with methods := r.methods ++ ss.map (·.addr) }) *
              configCell (config, c) * (ss.map (·.cells p config)).prod) := by
  induction ks with
  | nil =>
    intro r ms hms hks
    cases hks
    refine Triple.return () fun _ hcells => ex_intro [] (fact_mul.mpr ⟨⟨rfl, rfl⟩, ?_⟩)
    simpa using hcells
  | cons k ks ih =>
    intro r ms hms hks
    obtain ⟨m, ms', hk, hks', rfl⟩ := List.forall₂_cons_left_iff.mp hks
    have hm := hms m List.mem_cons_self
    have hms' : ∀ m' ∈ ms', Object.newMethod m'.config = .ok m' :=
      fun m' hm' => hms m' (List.mem_cons_of_mem m hm')
    unfold addMethods
    refine Triple.bind ((newMethod_triple hk hm).framed (pointsTo p (.resource r)) (mul_comm _ _)
      fun _ => rfl) fun a => Triple.of_ex_mul fun s => Triple.of_fact_mul ?_
    rintro ⟨rfl, hindex, hmethod⟩
    refine Returns.bind (returns_readResource ⟨_, mul_comm _ _⟩) ?_
    refine Triple.bind ((Triple.write _).framed (s.cells p config * configCell (config, c))
      (mul_comm _ _) fun _ => rfl) fun _ => ?_
    refine ((ih hms' hks').framed (s.cells p config) (by ac_rfl) fun _ => rfl).post fun _ d hd => ?_
    rw [ex_mul] at hd
    obtain ⟨ss, hd⟩ := hd
    rw [mul_assoc, fact_mul] at hd
    obtain ⟨⟨hindices, hmethods⟩, hd⟩ := hd
    refine ex_intro (s :: ss) (fact_mul.mpr ⟨⟨?_, ?_⟩, ?_⟩)
    · rw [List.map_cons, hindex, hindices]
    · rw [List.map_cons, hmethod, hmethods]
    · rw [List.map_cons, List.map_cons, List.prod_cons, List.append_cons,
        mul_comm (s.cells p config), ← mul_assoc]
      exact hd

/-- **A resource is made** from its configuration. -/
theorem newResource_triple {config : ℕ} {c : ResourceConfig} {ms : List ResourceMethod}
    (hms : ∀ m ∈ ms, Object.newMethod m.config = .ok m) (hconfigs : ms.map (·.config) = c.methods) :
    Triple (configCell (config, c)) (newResource config) fun p =>
      ex fun s : Placed =>
        fact (s.addr = p ∧ s.configAddr = config ∧ s.contents = (c, ms)) * s.cells := by
  have hindices : List.Forall₂ (fun k (m : ResourceMethod) => c.methods[k]? = some m.config)
      (List.range c.methods.length) ms := by
    rw [← hconfigs, List.forall₂_iff_get]
    refine ⟨by simp, fun i _ hi => ?_⟩
    simp [List.getElem?_eq_getElem hi]
  unfold newResource
  refine Triple.bind ((Triple.new _).framed (configCell (config, c)) (one_mul _).symm fun _ => rfl)
    fun p => ?_
  refine Returns.bind (returns_readConfig ⟨_, mul_comm _ _⟩) ?_
  refine Triple.bind (addMethods_triple _ hms hindices) fun _ => ?_
  refine Triple.of_ex fun ss => Triple.of_fact ?_
  rintro ⟨hindex, hmethod⟩
  have hindexed : ∀ m ∈ ss, c.methods[m.index]? = some m.config := by
    intro m hm
    obtain ⟨i, hi⟩ := List.getElem?_of_mem hm
    have hat : (List.range c.methods.length)[i]? = some m.index := by
      rw [← hindex, List.getElem?_map, hi, Option.map_some]
    obtain ⟨hlt, heq⟩ := List.getElem?_eq_some_iff.mp hat
    rw [List.getElem_range] at heq
    rw [← hconfigs, ← hmethod, List.map_map, ← heq, List.getElem?_map, hi]
    rfl
  refine Triple.return p fun _ hcells => ?_
  refine ex_intro ⟨p, config, c, ss, hindexed⟩ (fact_mul.mpr ⟨⟨rfl, rfl, ?_⟩, hcells⟩)
  rw [Placed.contents, hmethod]

/-! ### The destructors -/

theorem deleteMethod_triple (p config : ℕ) (m : PlacedMethod) :
    Triple (m.cells p config) (deleteMethod m.addr) fun _ => 1 := by
  have hfmts : Triple (m.fmts.map fmtCell).prod ((m.object p config).fmts.forM delete : ObjM Unit)
      fun _ => 1 := Triple.forM_one fun f _ => Triple.delete
  unfold deleteMethod
  refine Returns.bind (returns_readMethod ⟨_, rfl⟩) ?_
  exact Triple.bind (hfmts.framed _ (mul_comm _ _) fun _ => one_mul _) fun _ => Triple.delete

/-- **A resource is deleted**: of its objects only a configuration that is not dynamic is left. -/
theorem deleteResource_triple (s : Placed) : Triple s.cells (deleteResource s.addr) fun _ =>
    if s.config.dynamic then 1 else configCell (s.configAddr, s.config) := by
  have hmethods : Triple (s.methods.map (·.cells s.addr s.configAddr)).prod
      (s.object.methods.forM deleteMethod) fun _ => 1 :=
    Triple.forM_one fun m _ => deleteMethod_triple s.addr s.configAddr m
  unfold deleteResource
  refine Returns.bind (returns_readResource ⟨_, mul_assoc _ _ _⟩) ?_
  refine Triple.bind (hmethods.framed _ (mul_comm _ _) fun _ => one_mul _) fun _ => ?_
  refine Returns.bind (returns_readConfig ⟨_, mul_comm _ _⟩) ?_
  cases s.config.dynamic with
  | true =>
    refine Triple.bind (Triple.delete.framed _ (mul_comm _ _) fun _ => one_mul _) fun _ => ?_
    exact Triple.delete
  | false => exact Triple.delete.framed _ rfl fun _ => one_mul _

end CoapServer.Resources.Pointers
