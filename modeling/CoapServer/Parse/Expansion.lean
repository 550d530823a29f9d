import CoapServer.Lib.Fallible
import CoapServer.Parse.Constructors

/-! # What the templates expand to

Each instance adds the resources of the first template with its identifier, with its arguments put
into every string. `Expands` says that nothing else of a resource changes; it holds exactly for the
documents whose instances use no template with a `dynamic` resource (`expands_iff`). -/

namespace CoapServer.Parse.Expansion

open CoapServer.Basic CoapServer.Config CoapServer.Lib.Fallible CoapServer.Lib.Template
open CoapServer.Parse.Replace CoapServer.Parse.Constructors

/-! ### What an expansion is -/

/-- **A method with the arguments put into its strings.** -/
structure ExpandedMethod (inst : TemplateInstance) (m g : ResourceMethodConfig) : Prop where
  type : g.type = m.type
  format : List.Forall₂ (fun f f' => templateReplace f inst = .ok f') m.format g.format
  printValue : g.printValue = m.printValue
  logValue : g.logValue = m.logValue
  store : g.store = m.store
  cmd : templateReplace m.cmd inst = .ok g.cmd
  cmdStdin : g.cmdStdin = m.cmdStdin
  cmdTimeout : g.cmdTimeout = m.cmdTimeout
  cmdLogInput : g.cmdLogInput = m.cmdLogInput

/-- A resource with the arguments put into its strings, up to whether it is `dynamic`. -/
structure ExpandedStatic (inst : TemplateInstance) (r g : ResourceConfig) : Prop where
  resourceName : templateReplace r.resourceName inst = .ok g.resourceName
  resourcePath : templateReplace r.resourcePath inst = .ok g.resourcePath
  logFile : templateReplace r.logFile inst = .ok g.logFile
  initialValue : templateReplace r.initialValue inst = .ok g.initialValue
  dataFile : templateReplace r.dataFile inst = .ok g.dataFile
  maxAge : g.maxAge = r.maxAge
  observable : g.observable = r.observable
  methods : List.Forall₂ (ExpandedMethod inst) r.methods g.methods

/-- **A resource with the arguments put into its strings.** -/
structure Expanded (inst : TemplateInstance) (r g : ResourceConfig) : Prop
    extends ExpandedStatic inst r g where
  dynamic : g.dynamic = r.dynamic

/-- **The first template with the identifier of the instance.** -/
def FirstTemplate (templates : List TemplateConfig) (inst : TemplateInstance) (t : TemplateConfig) :
    Prop :=
  ∃ before later, templates = before ++ t :: later ∧
    (∀ u ∈ before, u.templateIdent ≠ inst.templateId) ∧ t.templateIdent = inst.templateId

/-- A method without an escape. -/
structure PlainMethod (m : ResourceMethodConfig) : Prop where
  format : ∀ f ∈ m.format, dollar ∉ f
  cmd : dollar ∉ m.cmd

/-- A resource without an escape. -/
structure PlainResource (r : ResourceConfig) : Prop where
  resourceName : dollar ∉ r.resourceName
  resourcePath : dollar ∉ r.resourcePath
  logFile : dollar ∉ r.logFile
  initialValue : dollar ∉ r.initialValue
  dataFile : dollar ∉ r.dataFile
  methods : ∀ m ∈ r.methods, PlainMethod m

/-- The resources `block` of an instance. -/
def Block (templates : List TemplateConfig) (inst : TemplateInstance)
    (block : List ResourceConfig) : Prop :=
  ∃ t, FirstTemplate templates inst t ∧ List.Forall₂ (Expanded inst) t.resources block ∧
    ((∀ r ∈ t.resources, PlainResource r) → block = t.resources)

/-- **The resources are those of the document**: the explicit ones, followed by the resources of each
instance, in order. -/
def Expands (d : Document) (resources : List ResourceConfig) : Prop :=
  ∃ blocks, resources = d.resources ++ blocks.flatten ∧
    List.Forall₂ (Block d.templates) d.templateInstances blocks

/-- No instance uses a template with a `dynamic` resource. -/
def NoDynamicTemplate (d : Document) : Prop :=
  ∀ inst ∈ d.templateInstances, ∀ t, FirstTemplate d.templates inst t →
    ∀ r ∈ t.resources, r.dynamic = false

/-! ### The first template -/

theorem firstTemplate_iff {templates : List TemplateConfig} {inst : TemplateInstance}
    {t : TemplateConfig} : FirstTemplate templates inst t ↔
      (templates.find? fun t => t.templateIdent = inst.templateId) = some t := by
  rw [List.find?_eq_some_iff_append]
  constructor
  · rintro ⟨before, later, rfl, hbefore, ht⟩
    exact ⟨decide_eq_true ht, before, later, rfl, fun u hu => by simpa using hbefore u hu⟩
  · rintro ⟨ht, before, later, rfl, hbefore⟩
    exact ⟨before, later, rfl, fun u hu => by simpa using hbefore u hu, of_decide_eq_true ht⟩

theorem FirstTemplate.unique {templates : List TemplateConfig} {inst : TemplateInstance}
    {t t' : TemplateConfig} (h : FirstTemplate templates inst t)
    (h' : FirstTemplate templates inst t') : t = t' :=
  Option.some.inj ((firstTemplate_iff.mp h).symm.trans (firstTemplate_iff.mp h'))

theorem FirstTemplate.mem {templates : List TemplateConfig} {inst : TemplateInstance}
    {t : TemplateConfig} (h : FirstTemplate templates inst t) : t ∈ templates :=
  List.mem_of_find?_eq_some (firstTemplate_iff.mp h)

/-! ### What is generated -/

theorem generateMethod_spec {inst : TemplateInstance} {m g : ResourceMethodConfig}
    (h : generateMethod inst m = .ok g) : ExpandedMethod inst m g := by
  obtain ⟨format, hformat, h⟩ := bind_eq_ok h
  obtain ⟨cmd, hcmd, h⟩ := bind_eq_ok h
  obtain rfl := Except.ok.inj h
  exact ⟨rfl, mapM_eq_ok_iff.mp hformat, rfl, rfl, rfl, hcmd, rfl, rfl, rfl⟩

/-- **A generated resource** is expanded, but never `dynamic`. -/
theorem generateResource_spec {inst : TemplateInstance} {r g : ResourceConfig}
    (h : generateResource inst r = .ok g) : ExpandedStatic inst r g ∧ g.dynamic = false := by
  obtain ⟨resourceName, hname, h⟩ := bind_eq_ok h
  obtain ⟨resourcePath, hpath, h⟩ := bind_eq_ok h
  obtain ⟨logFile, hlog, h⟩ := bind_eq_ok h
  obtain ⟨dataFile, hdata, h⟩ := bind_eq_ok h
  obtain ⟨initialValue, hvalue, h⟩ := bind_eq_ok h
  obtain ⟨methods, hmethods, h⟩ := bind_eq_ok h
  obtain rfl := Except.ok.inj h
  refine ⟨⟨hname, hpath, hlog, hvalue, hdata, rfl, rfl, ?_⟩, rfl⟩
  exact (mapM_eq_ok_iff.mp hmethods).imp fun _ _ => generateMethod_spec

/-- **What the loop over the instances adds.** -/
theorem generateAll_spec {templates : List TemplateConfig} {insts : List TemplateInstance} :
    ∀ {resources out : List ResourceConfig}, generateAll templates insts resources = .ok out →
      ∃ blocks, out = resources ++ blocks.flatten ∧
        List.Forall₂ (fun inst block => ∃ t, FirstTemplate templates inst t ∧
          List.Forall₂ (fun r g => generateResource inst r = .ok g) t.resources block) insts
          blocks := by
  induction insts with
  | nil =>
    intro resources out h
    obtain rfl := Except.ok.inj h
    exact ⟨[], by simp, .nil⟩
  | cons inst insts ih =>
    intro resources out h
    unfold generateAll at h
    cases hfind : templates.find? fun t => t.templateIdent = inst.templateId with
    | none =>
      rw [hfind] at h
      cases h
    | some t =>
      rw [hfind] at h
      obtain ⟨resources', hgenerate, h⟩ := bind_eq_ok h
      obtain ⟨block, hblock, hgenerate⟩ := bind_eq_ok hgenerate
      obtain rfl := Except.ok.inj hgenerate
      obtain ⟨blocks, rfl, hblocks⟩ := ih h
      refine ⟨block :: blocks, by simp, .cons ?_ hblocks⟩
      exact ⟨t, firstTemplate_iff.mpr hfind, mapM_eq_ok_iff.mp hblock⟩

/-! ### Templates without an escape -/

theorem templateReplace_plain {s : Str} (h : dollar ∉ s) (inst : TemplateInstance) :
    templateReplace s inst = .ok s := by
  have hescape : (template s inst).escape ∉ s := h
  rw [templateReplace_eq, scan_plain _ hescape]

theorem eq_of_replace_plain {s out : Str} {inst : TemplateInstance} (hs : dollar ∉ s)
    (h : templateReplace s inst = .ok out) : out = s :=
  Except.ok.inj (h.symm.trans (templateReplace_plain hs inst))

/-- A method without an escape stays as it is. -/
theorem ExpandedMethod.eq_of_plain {inst : TemplateInstance} {m g : ResourceMethodConfig}
    (h : ExpandedMethod inst m g) (hplain : PlainMethod m) : g = m := by
  have hformat : g.format = m.format :=
    eq_of_forall₂ h.format fun f hf _ => eq_of_replace_plain (hplain.format f hf)
  have hcmd : g.cmd = m.cmd := eq_of_replace_plain hplain.cmd h.cmd
  obtain ⟨htype, -, hprint, hlog, hstore, -, hstdin, htimeout, hinput⟩ := h
  cases g
  cases m
  simp_all only

/-- **A resource without an escape stays as it is.** -/
theorem Expanded.eq_of_plain {inst : TemplateInstance} {r g : ResourceConfig}
    (h : Expanded inst r g) (hplain : PlainResource r) : g = r := by
  have hname := eq_of_replace_plain hplain.resourceName h.resourceName
  have hpath := eq_of_replace_plain hplain.resourcePath h.resourcePath
  have hlog := eq_of_replace_plain hplain.logFile h.logFile
  have hvalue := eq_of_replace_plain hplain.initialValue h.initialValue
  have hdata := eq_of_replace_plain hplain.dataFile h.dataFile
  have hmethods : g.methods = r.methods :=
    eq_of_forall₂ h.methods fun m hm _ hg => hg.eq_of_plain (hplain.methods m hm)
  have hage := h.maxAge
  have hobservable := h.observable
  have hdynamic := h.dynamic
  cases g
  cases r
  simp_all only

/-! ### When nothing is lost -/

/-- Every resource that is generated for a document. -/
theorem expand_spec {d : Document} {config : Config} (h : d.expand = .ok config) :
    ∃ blocks, config.resources = d.resources ++ blocks.flatten ∧
      List.Forall₂ (fun inst block => ∃ t, FirstTemplate d.templates inst t ∧
        List.Forall₂ (fun r g => generateResource inst r = .ok g) t.resources block)
        d.templateInstances blocks := by
  obtain ⟨resources, hall, h⟩ := bind_eq_ok h
  obtain rfl := Except.ok.inj h
  exact generateAll_spec hall

/-- No resource that is generated is `dynamic`. -/
theorem static_of_generated {inst : TemplateInstance} {rs block : List ResourceConfig}
    (h : List.Forall₂ (fun r g => generateResource inst r = .ok g) rs block) {g : ResourceConfig}
    (hg : g ∈ block) : g.dynamic = false := by
  obtain ⟨r, -, hgen⟩ := exists_of_forall₂_right h hg
  exact (generateResource_spec hgen).2

/-- A block of a template without a `dynamic` resource. -/
theorem block_of_static {templates : List TemplateConfig} {inst : TemplateInstance}
    {t : TemplateConfig} {block : List ResourceConfig} (hfirst : FirstTemplate templates inst t)
    (hstatic : ∀ r ∈ t.resources, r.dynamic = false)
    (h : List.Forall₂ (fun r g => generateResource inst r = .ok g) t.resources block) :
    Block templates inst block := by
  have hexpanded : List.Forall₂ (Expanded inst) t.resources block := by
    refine forall₂_imp_mem h fun r hr g hg => ?_
    obtain ⟨hspec, hdynamic⟩ := generateResource_spec hg
    exact ⟨hspec, hdynamic.trans (hstatic r hr).symm⟩
  refine ⟨t, hfirst, hexpanded, fun hplain => ?_⟩
  exact eq_of_forall₂ hexpanded fun r hr g hg => hg.eq_of_plain (hplain r hr)

/-- What the constructor does with a document. -/
theorem newConfig_eq {parse : Str → Except Failure Json} {text : Str} {json : Json} {d : Document}
    (hjson : parse text = .ok json) (hdocument : parseDocument json = .ok d) (path : Str) :
    newConfig parse (some text) path = d.expand := by
  show (parse text >>= fun json => parseDocument json >>= Document.expand) = d.expand
  rw [hjson]
  show (parseDocument json >>= Document.expand) = d.expand
  rw [hdocument]
  rfl

/-- **Nothing is lost exactly if no instance uses a template with a `dynamic` resource**, for every
file that the constructor accepts. -/
theorem expands_iff {parse : Str → Except Failure Json} {text path : Str} {json : Json}
    {d : Document} {config : Config} (hjson : parse text = .ok json)
    (hdocument : parseDocument json = .ok d) (h : newConfig parse (some text) path = .ok config) :
    Expands d config.resources ↔ NoDynamicTemplate d := by
  rw [newConfig_eq hjson hdocument] at h
  obtain ⟨generated, hresources, hgenerated⟩ := expand_spec h
  constructor
  · rintro ⟨blocks, heq, hblocks⟩ inst hinst t hfirst r hr
    have hflatten : blocks.flatten = generated.flatten :=
      List.append_cancel_left (heq.symm.trans hresources)
    obtain ⟨block, hblock, t', hfirst', hexpanded, -⟩ := exists_of_forall₂_left hblocks hinst
    obtain rfl := hfirst.unique hfirst'
    obtain ⟨g, hg, hrg⟩ := exists_of_forall₂_left hexpanded hr
    have hmem : g ∈ generated.flatten := hflatten ▸ List.mem_flatten_of_mem hblock hg
    obtain ⟨block', hblock', hg'⟩ := List.mem_flatten.mp hmem
    obtain ⟨inst', -, t', -, hgen⟩ := exists_of_forall₂_right hgenerated hblock'
    exact hrg.dynamic.symm.trans (static_of_generated hgen hg')
  · intro hstatic
    refine ⟨generated, hresources, forall₂_imp_mem hgenerated fun inst hinst block => ?_⟩
    rintro ⟨t, hfirst, hblock⟩
    exact block_of_static hfirst (hstatic inst hinst t hfirst) hblock

/-- A template with one resource, and an instance of it. -/
def templateJson (resource : Json) (args : List Json) : Json :=
  .object [
    (str "templates", .array [.object [
      (str "ident", .string (str "format")), (str "resources", .array [resource])]]),
    (str "template-instances", .array [.object [
      (str "template", .string (str "format")), (str "template-args", .array args)]])]

/-- A resource whose name, path and format are arguments. -/
def formatJson : Json :=
  .object [(str "name", .string (str "$1 Format Resource")), (str "path", .string (str "$2")),
    (str "methods", .object [(str "PUT", .object [(str "format", .string (str "$1")),
      (str "print", .boolean true)])])]

def formatResource : ResourceConfig :=
  { resourceName := str "$1 Format Resource", resourcePath := str "$2"
    methods := [{ type := .put, format := [str "$1"], printValue := true }] }

def hexInstance : TemplateInstance := ⟨str "format", [str "HEX", str "hex"], by decide⟩

/-- The document of the template `resource` and the instance `inst`. -/
def templateDocument (resource : ResourceConfig) (inst : TemplateInstance) : Document :=
  { endpoint := {}
    resources := []
    templates := [{ templateIdent := str "format", resources := [resource] }]
    templateInstances := [inst] }

theorem templateDocument_expand {resource g : ResourceConfig} {inst : TemplateInstance}
    (hid : inst.templateId = str "format") (h : generateResource inst resource = .ok g) :
    (templateDocument resource inst).expand = .ok { endpoint := {}, resources := [g] } := by
  have hfind : ([{ templateIdent := str "format", resources := [resource] }] :
      List TemplateConfig).find? (fun t => t.templateIdent = inst.templateId) =
        some { templateIdent := str "format", resources := [resource] } := by
    rw [hid]
    rfl
  have hblock : [resource].mapM (generateResource inst) = .ok [g] :=
    mapM_eq_ok_iff.mpr (.cons h .nil)
  have hall : generateAll (templateDocument resource inst).templates
      (templateDocument resource inst).templateInstances
      (templateDocument resource inst).resources = .ok [g] := by
    simp only [templateDocument, generateAll, hfind, TemplateConfig.generateResources, hblock]
    rfl
  rw [Document.expand, hall]
  rfl

/-- The instance for hexadecimal data. -/
theorem expands_iff_val : ∃ config : Config, config.resources.map (·.resourcePath) = [str "hex"] ∧
    (Expands (templateDocument formatResource hexInstance) config.resources ↔
      NoDynamicTemplate (templateDocument formatResource hexInstance)) := by
  have hdocument : parseDocument (templateJson formatJson
      [.string (str "HEX"), .string (str "hex")]) =
        .ok (templateDocument formatResource hexInstance) := rfl
  have hgenerate : generateResource hexInstance formatResource = .ok
      { resourceName := str "HEX Format Resource", resourcePath := str "hex"
        methods := [{ type := .put, format := [str "HEX"], printValue := true }] } := by
    simp only [generateResource, formatResource, List.mapM_cons, List.mapM_nil, generateMethod,
      templateReplace_eq]
    rfl
  have hnew := newConfig_eq (parserOf_dump _) hdocument []
  rw [templateDocument_expand rfl hgenerate] at hnew
  exact ⟨_, rfl, expands_iff (parserOf_dump _) hdocument hnew⟩

/-- A resource for any URI below `dyn/`. -/
def dynamicJson : Json :=
  .object [(str "path", .string (str "dyn/(.*)")), (str "dynamic", .boolean true),
    (str "methods", .object [])]

def dynamicResource : ResourceConfig := { resourcePath := str "dyn/(.*)", dynamic := true }

def plainInstance : TemplateInstance := ⟨str "format", [], by decide⟩

/-- **A generated resource is never `dynamic`**, also where the template has no escape. -/
theorem dynamic_lost : ¬ ∀ (parse : Str → Except Failure Json) (text path : Str) (json : Json)
    (d : Document) (config : Config), parse text = .ok json → parseDocument json = .ok d →
    newConfig parse (some text) path = .ok config → Expands d config.resources := by
  intro h
  have hdocument : parseDocument (templateJson dynamicJson []) =
      .ok (templateDocument dynamicResource plainInstance) := rfl
  have hgenerate : generateResource plainInstance dynamicResource =
      .ok { resourcePath := str "dyn/(.*)" } := by
    simp only [generateResource, dynamicResource, List.mapM_nil, templateReplace_eq]
    rfl
  have hnew := newConfig_eq (parserOf_dump _) hdocument []
  rw [templateDocument_expand rfl hgenerate] at hnew
  obtain ⟨blocks, heq, hblocks⟩ := h _ _ [] _ _ _ (parserOf_dump _) hdocument hnew
  obtain ⟨block, hblock, t, hfirst, hexpanded, -⟩ :=
    exists_of_forall₂_left hblocks (List.mem_singleton_self plainInstance)
  obtain rfl : t = { templateIdent := str "format", resources := [dynamicResource] } :=
    hfirst.unique ⟨[], [], rfl, by simp, rfl⟩
  obtain ⟨g, hg, hrg⟩ := exists_of_forall₂_left hexpanded (List.mem_singleton_self dynamicResource)
  have hmem : g ∈ blocks.flatten := List.mem_flatten_of_mem hblock hg
  have hflatten : blocks.flatten = [{ resourcePath := str "dyn/(.*)" }] := heq.symm
  rw [hflatten] at hmem
  obtain rfl := List.mem_singleton.mp hmem
  cases hrg.dynamic

end CoapServer.Parse.Expansion
