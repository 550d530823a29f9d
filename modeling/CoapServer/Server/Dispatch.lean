import CoapServer.Server.Machine

/-! # Dynamic dispatch does not depend on the history

The first request for a dynamic URI goes through the loop over the configurations, the later ones to
the handlers registered for the resource that was created. `first_match_decides` says that both are
decided by the first configuration whose pattern matches. The invariant `Inv` is about the layout:
what is registered beyond the static resources is, for each path, the one resource that the first
match for the path makes. A step either leaves the layout or adds such a resource at a path that was
not registered (`step_layout`). -/

namespace CoapServer.Server.Dispatch

open CoapServer.Basic CoapServer.Config CoapServer.Lib.Run CoapServer.Lib.Frame
open CoapServer.Resources.Files CoapServer.Resources.Object CoapServer.Blocks.SessionData
open CoapServer.Server.World CoapServer.Server.Requests CoapServer.Server.Process
open CoapServer.Server.Dynamic CoapServer.Server.Creation CoapServer.Server.Machine

variable {κ : Type} [DecidableEq κ]

/-! ### The first match -/

/-- **The first configuration whose pattern matches**, with what the match captured. -/
def FirstMatch (re : Matcher) (uri : Str) (cfgs : List ResourceConfig) (cfg : ResourceConfig)
    (sm : List Str) : Prop :=
  ∃ before later, cfgs = before ++ cfg :: later ∧
    (∀ c ∈ before, re c.resourcePath uri = .ok none) ∧ re cfg.resourcePath uri = .ok (some sm)

/-- No pattern matches. -/
def NoMatch (re : Matcher) (uri : Str) (cfgs : List ResourceConfig) : Prop :=
  ∀ c ∈ cfgs, re c.resourcePath uri = .ok none

section Match
variable {re : Matcher} {uri : Str} {cfgs : List ResourceConfig} {cfg : ResourceConfig}
  {sm : List Str}

theorem FirstMatch.unique {cfg' : ResourceConfig} {sm' : List Str}
    (h : FirstMatch re uri cfgs cfg sm) (h' : FirstMatch re uri cfgs cfg' sm') :
    cfg = cfg' ∧ sm = sm' := by
  obtain ⟨before, later, rfl, hnone, hsome⟩ := h
  obtain ⟨before', later', heq, hnone', hsome'⟩ := h'
  induction before generalizing before' with
  | nil =>
    cases before' with
    | nil =>
      obtain ⟨rfl, -⟩ := List.cons.inj heq
      rw [hsome] at hsome'
      exact ⟨rfl, Option.some.inj (Except.ok.inj hsome')⟩
    | cons c before' =>
      obtain ⟨rfl, -⟩ := List.cons.inj heq
      rw [hnone' _ List.mem_cons_self] at hsome
      cases Except.ok.inj hsome
  | cons c before ih =>
    cases before' with
    | nil =>
      obtain ⟨rfl, -⟩ := List.cons.inj heq
      rw [hnone _ List.mem_cons_self] at hsome'
      cases Except.ok.inj hsome'
    | cons c' before' =>
      obtain ⟨-, heq⟩ := List.cons.inj heq
      exact ih (fun d hd => hnone d (List.mem_cons_of_mem _ hd)) before' heq
        fun d hd => hnone' d (List.mem_cons_of_mem _ hd)

theorem FirstMatch.mem (h : FirstMatch re uri cfgs cfg sm) : cfg ∈ cfgs := by
  obtain ⟨before, later, rfl, -, -⟩ := h
  exact List.mem_append_right _ List.mem_cons_self

theorem FirstMatch.cons {c : ResourceConfig} (hc : re c.resourcePath uri = .ok none)
    (h : FirstMatch re uri cfgs cfg sm) : FirstMatch re uri (c :: cfgs) cfg sm := by
  obtain ⟨before, later, rfl, hnone, hsome⟩ := h
  refine ⟨c :: before, later, rfl, fun d hd => ?_, hsome⟩
  rcases List.mem_cons.mp hd with rfl | hd
  · exact hc
  · exact hnone d hd

variable {req : Request κ} {type : ResourceMethodType} {env : Env} {resp : Response}

/-- The loop ends at the first match. -/
theorem handleConfigs_first (h : FirstMatch re uri cfgs cfg sm) :
    handleConfigs re req type env resp uri cfgs = handleMatch req type env resp cfg uri sm := by
  obtain ⟨before, later, rfl, hnone, hsome⟩ := h
  induction before with
  | nil => simp only [List.nil_append, handleConfigs, hsome]
  | cons c before ih =>
    simp only [List.cons_append, handleConfigs, hnone c List.mem_cons_self]
    exact ih fun d hd => hnone d (List.mem_cons_of_mem _ hd)

/-- Without a match the loop runs to its end. -/
theorem handleConfigs_none (h : NoMatch re uri cfgs) :
    handleConfigs re req type env resp uri cfgs = (do
      writeErr [str "Unhandled Dynamic URI: " ++ uri]
      return { resp with code := .notFound }) := by
  induction cfgs with
  | nil => rfl
  | cons c cfgs ih =>
    simp only [handleConfigs, h c List.mem_cons_self]
    exact ih fun d hd => h d (List.mem_cons_of_mem _ hd)

/-- A loop that returns has found a first match or none. -/
theorem match_of_handleConfigs {w w' : CoAPServer κ} {resp' : Response}
    (h : (handleConfigs re req type env resp uri cfgs).run w = .ok resp' w') :
    NoMatch re uri cfgs ∨ ∃ cfg sm, FirstMatch re uri cfgs cfg sm := by
  induction cfgs with
  | nil => exact Or.inl fun c hc => absurd hc List.not_mem_nil
  | cons c cfgs ih =>
    cases hc : re c.resourcePath uri with
    | error e =>
      simp only [handleConfigs, hc] at h
      cases h
    | ok res =>
      cases res with
      | some sm => exact Or.inr ⟨c, sm, [], cfgs, rfl, by simp, hc⟩
      | none =>
        simp only [handleConfigs, hc] at h
        rcases ih h with hnone | ⟨cfg, sm, hfirst⟩
        · refine Or.inl fun d hd => ?_
          rcases List.mem_cons.mp hd with rfl | hd
          · exact hc
          · exact hnone d hd
        · exact Or.inr ⟨cfg, sm, hfirst.cons hc⟩

end Match

/-! ### What a request does to the layout -/

/-- A configuration that has a method of the type. -/
def Has (cfg : ResourceConfig) (type : ResourceMethodType) : Prop := ∃ c ∈ cfg.methods, c.type = type

instance (cfg : ResourceConfig) (type : ResourceMethodType) : Decidable (Has cfg type) := by
  unfold Has
  infer_instance

/-- The methods of an object made from a configuration. -/
theorem hasType_iff {ms : List ResourceMethod} {cfg : ResourceConfig}
    (h : ms.map (·.config) = cfg.methods) (type : ResourceMethodType) :
    hasType ms type = true ↔ Has cfg type := by
  rw [Has, ← h, hasType, List.any_eq_true]
  constructor
  · rintro ⟨m, hm, ht⟩
    exact ⟨m.config, List.mem_map_of_mem hm, of_decide_eq_true ht⟩
  · rintro ⟨c, hc, ht⟩
    obtain ⟨m, hm, rfl⟩ := List.mem_map.mp hc
    exact ⟨m, hm, decide_eq_true ht⟩

/-- The layout with a resource for a path more. -/
def addObject (l : Layout) (config : ResourceConfig) (ms : List ResourceMethod) : Layout :=
  { l with
    objects := l.objects ++ [(config, ms)]
    registry := Function.update l.registry config.resourcePath
      (some ⟨l.objects.length, hasType ms⟩) }

/-- A resource was created from the first match for a path that was not registered. -/
def Created (re : Matcher) (l l' : Layout) : Prop :=
  ∃ (uri : Str) (cfg : ResourceConfig) (sm : List Str) (ms : List ResourceMethod),
    0 ∉ uri ∧ l.registry uri = none ∧ FirstMatch re uri l.dynamicResources cfg sm ∧ ms.map (·.config) = cfg.methods ∧
    l' = addObject l (dynamicConfig cfg uri sm) ms

omit [DecidableEq κ] in
/-- **What a successful creation leaves.** -/
theorem createResource_ok {config : ResourceConfig} (hpath : 0 ∉ config.resourcePath)
    {w w' : CoAPServer κ} (h : (createResource config).run w = .ok true w') :
    ∃ r, w'.resources = w.resources ++ [r] ∧ r.config = config ∧
      r.methods.map (·.config) = config.methods ∧ w'.queue = w.queue ∧ w'.cache = w.cache ∧
      layout w' = addObject (layout w) config r.methods := by
  obtain ⟨err, hrun⟩ := createResource_run config w
  rw [hrun] at h
  cases hcreate : (create config w.logDir).run w.fs with
  | error e fs =>
    rw [hcreate] at h
    cases h
  | ok r fs =>
    obtain ⟨hconfig, hmethods⟩ := create_spec config w.logDir _ _ _ hcreate
    simp only [hcreate] at h
    split_ifs at h
    case neg => cases h
    cases hinit : r.initValue.run fs with
    | error e fs' =>
      rw [hinit] at h
      cases h
    | ok r' fs' =>
      have hsame := initValue_same r _ _ _ hinit
      simp only [hinit] at h
      obtain ⟨-, rfl⟩ := EStateM.Result.ok.inj h
      refine ⟨r', rfl, hsame.config.trans hconfig, ?_, rfl, rfl, ?_⟩
      · rw [hsame.methods, hmethods]
      · simp only [layout, addObject, registered, registration, List.map_append, List.map_singleton,
          List.length_map, hsame.config, hsame.methods, hconfig, cStr_eq_self hpath]

omit [DecidableEq κ] in
/-- A creation that fails leaves the layout. -/
theorem createResource_failed {config : ResourceConfig} {w w' : CoAPServer κ}
    (h : (createResource config).run w = .ok false w') : layout w' = layout w := by
  obtain ⟨err, hrun⟩ := createResource_run config w
  rw [hrun] at h
  cases hcreate : (create config w.logDir).run w.fs with
  | error e fs =>
    rw [hcreate] at h
    cases h
  | ok r fs =>
    simp only [hcreate] at h
    split_ifs at h
    · cases hinit : r.initValue.run fs with
      | error e fs' =>
        rw [hinit] at h
        cases h
      | ok r' fs' =>
        rw [hinit] at h
        cases h
    · obtain ⟨-, rfl⟩ := EStateM.Result.ok.inj h
      rfl

section HandleMatch
variable {req : Request κ} {type : ResourceMethodType} {env : Env} {resp : Response}
  {cfg : ResourceConfig} {uri : Str} {sm : List Str} {w : CoAPServer κ}

/-- The server after the substitutions. -/
def substituted (w : CoAPServer κ) (cfg : ResourceConfig) (sm : List Str) : CoAPServer κ :=
  { w with stderr := w.stderr ++ substitutionErr cfg sm }

theorem lacks_iff : ¬ Has cfg type ↔ ∀ c ∈ cfg.methods, c.type ≠ type := by
  simp only [Has, not_exists, not_and]

/-- The configuration lacks the method. -/
theorem handleMatch_lacks (h : ¬ Has cfg type) :
    (handleMatch req type env resp cfg uri sm).run w = .ok { resp with code := .notAllowed }
      { w with stderr := w.stderr ++
        [str "ERROR: Bad method on dynamic resource " ++ cfg.resourcePath] } := by
  simp only [handleMatch, if_pos (lacks_iff.mp h), EStateM.run_bind, writeErr_run, EStateM.run_pure]

/-- The configuration has the method: a resource is created and handles the request. -/
theorem handleMatch_has (h : Has cfg type) :
    (handleMatch req type env resp cfg uri sm).run w =
      match (createResource (dynamicConfig cfg uri sm)).run (substituted w cfg sm) with
      | .ok true w₁ => (handleCoAPRequest w.resources.length req type env resp).run w₁
      | .ok false w₁ => .ok { resp with code := .internalError }
        { w₁ with stderr := w₁.stderr ++ [str "ERROR: Could not attach Resource object"] }
      | .error e w₁ => .error e w₁ := by
  have hneg : ¬ ∀ c ∈ cfg.methods, c.type ≠ type := fun hall => lacks_iff.mpr hall h
  simp only [handleMatch, if_neg hneg, EStateM.run_bind, EStateM.run_get, writeErr_run]
  rw [substituted]
  cases (createResource (dynamicConfig cfg uri sm)).run
      { w with stderr := w.stderr ++ substitutionErr cfg sm } with
  | error e w₁ => rfl
  | ok b w₁ => cases b <;> rfl

end HandleMatch

/-- **What a request does to the layout.** -/
theorem serve_layout {re : Matcher} {req : Request κ} {type : ResourceMethodType} {env : Env}
    {resp resp' : Response} {uri : Uri} {w w' : CoAPServer κ}
    (h : (serve re req type env resp uri).run w = .ok resp' w') :
    layout w' = layout w ∨ Created re (layout w) (layout w') := by
  simp only [serve, EStateM.run_bind, EStateM.run_get] at h
  cases hreg : w.registry uri.path with
  | some reg =>
    simp only [hreg] at h
    split_ifs at h
    · exact Or.inl (keeps_handle _ _ _ _ _ _ _ _ h)
    · obtain ⟨-, rfl⟩ := EStateM.Result.ok.inj h
      exact Or.inl rfl
  | none =>
    simp only [hreg, EStateM.run_bind, EStateM.run_get] at h
    split_ifs at h
    · obtain ⟨-, rfl⟩ := EStateM.Result.ok.inj h
      exact Or.inl rfl
    simp only [handleDynamicRequest, EStateM.run_bind, EStateM.run_get, cStr_eq_self uri.noZero] at h
    rcases match_of_handleConfigs h with hnone | ⟨cfg, sm, hfirst⟩
    · rw [handleConfigs_none hnone] at h
      obtain ⟨-, rfl⟩ := EStateM.Result.ok.inj h
      exact Or.inl rfl
    rw [handleConfigs_first hfirst] at h
    by_cases hhas : Has cfg type
    · rw [handleMatch_has hhas] at h
      cases hcreate : (createResource (dynamicConfig cfg uri.path sm)).run (substituted w cfg sm) with
      | error e w₁ =>
        rw [hcreate] at h
        cases h
      | ok b w₁ =>
        cases b with
        | false =>
          simp only [hcreate] at h
          obtain ⟨-, rfl⟩ := EStateM.Result.ok.inj h
          have hkeep := createResource_failed hcreate
          exact Or.inl hkeep
        | true =>
          simp only [hcreate] at h
          obtain ⟨r, -, -, hmethods, -, -, hlayout⟩ := createResource_ok uri.noZero hcreate
          rw [keeps_handle _ _ _ _ _ _ _ _ h]
          exact Or.inr ⟨uri.path, cfg, sm, r.methods, uri.noZero, hreg, hfirst, hmethods, hlayout⟩
    · rw [handleMatch_lacks hhas] at h
      obtain ⟨-, rfl⟩ := EStateM.Result.ok.inj h
      exact Or.inl rfl

omit [DecidableEq κ] in
theorem after_eq_some {β : Type} {m : ServerM κ β} {w w' : CoAPServer κ} (h : after m w = some w') :
    ∃ b, m.run w = .ok b w' := by
  unfold after at h
  cases hm : m.run w with
  | ok b w₁ =>
    rw [hm] at h
    obtain rfl := Option.some.inj h
    exact ⟨b, rfl⟩
  | error e w₁ =>
    rw [hm] at h
    cases h

/-- **A step** leaves the layout, or creates a resource. -/
theorem step_layout {re : Matcher} {w w' : CoAPServer κ} {l : Label κ} (h : step re w l = some w') :
    layout w' = layout w ∨ Created re (layout w) (layout w') := by
  cases l with
  | request uri req type env resp =>
    simp only [step] at h
    split_ifs at h
    obtain ⟨resp', hrun⟩ := after_eq_some h
    exact serve_layout hrun
  | consume env =>
    obtain ⟨u, hrun⟩ := after_eq_some h
    exact Or.inl (keeps_consume env _ _ _ hrun)
  | poll =>
    obtain ⟨u, hrun⟩ := after_eq_some h
    exact Or.inl (keeps_valueUpdate steady_layout _ _ _ hrun)
  | files fs =>
    obtain rfl := Option.some.inj h
    exact Or.inl rfl

/-! ### The start -/

/-- What is registered is an object with that path, and the paths of all objects are registered. -/
structure Attached (l : Layout) : Prop where
  sound : ∀ p reg, l.registry p = some reg →
    ∃ c ms, l.objects[reg.resource]? = some (c, ms) ∧ cStr c.resourcePath = p
  complete : ∀ (i : ℕ) (c : ResourceConfig) (ms : List ResourceMethod),
    l.objects[i]? = some (c, ms) → l.registry (cStr c.resourcePath) ≠ none

omit [DecidableEq κ] in
/-- An attachment that succeeds. -/
theorem attach_ok {i : ℕ} {r r' : Resource} {w w' : CoAPServer κ}
    (h : (attach i r).run w = .ok (0, r') w') : SameObject r r' ∧ w'.resources = w.resources ∧
      layout w' = { layout w with registry := registered w i r } := by
  obtain ⟨err, hrun⟩ := attach_run i r w
  rw [hrun] at h
  split_ifs at h
  case neg => cases h
  cases hinit : r.initValue.run w.fs with
  | error e fs =>
    rw [hinit] at h
    cases h
  | ok r₁ fs =>
    rw [hinit] at h
    obtain ⟨hr, rfl⟩ := EStateM.Result.ok.inj h
    obtain rfl := (Prod.mk.inj hr).2
    exact ⟨initValue_same r _ _ _ hinit, rfl, rfl⟩

/-- What attaching the resources at `is` leaves. -/
structure AttachedAt (is : List ℕ) (l l' : Layout) : Prop where
  logDir : l'.logDir = l.logDir
  dynamic : l'.dynamicResources = l.dynamicResources
  objects : l'.objects = l.objects
  sound : ∀ p reg, l'.registry p = some reg → l.registry p = some reg ∨
    ∃ c ms, l.objects[reg.resource]? = some (c, ms) ∧ cStr c.resourcePath = p
  kept : ∀ p, l.registry p ≠ none → l'.registry p ≠ none
  done : ∀ i ∈ is, ∀ c ms, l.objects[i]? = some (c, ms) → l'.registry (cStr c.resourcePath) ≠ none

omit [DecidableEq κ] in
/-- One resource is attached. -/
theorem attachAt_one {i : ℕ} {r r' : Resource} {w w' : CoAPServer κ} (hr : w.resources[i]? = some r)
    (h : (attach i r).run w = .ok (0, r') w') :
    AttachedAt [i] (layout w) (layout { w' with resources := w'.resources.set i r' }) := by
  obtain ⟨hsame, hres, hlayout⟩ := attach_ok h
  have hobj : (layout w).objects[i]? = some (r.config, r.methods) := by
    rw [layout, List.getElem?_map, hr, Option.map_some]
  rw [layout_set (by rw [hres]; exact hr) hsame, hlayout]
  refine ⟨rfl, rfl, rfl, ?_, ?_, ?_⟩
  · intro p reg hreg
    by_cases hp : p = cStr r.config.resourcePath
    · subst hp
      simp only [registered, Function.update_self] at hreg
      obtain rfl := Option.some.inj hreg
      exact Or.inr ⟨_, _, hobj, rfl⟩
    · simp only [registered, Function.update_of_ne hp] at hreg
      exact Or.inl hreg
  · intro p hreg
    by_cases hp : p = cStr r.config.resourcePath
    · simp [registered, hp]
    · simp only [registered, Function.update_of_ne hp]
      exact hreg
  · intro j hj c ms hget
    obtain rfl := List.mem_singleton.mp hj
    obtain ⟨rfl, -⟩ := Prod.mk.inj (Option.some.inj (hobj.symm.trans hget))
    simp [registered]

/-- Resources attached after others. -/
theorem AttachedAt.trans {is js : List ℕ} {l l' l'' : Layout} (h : AttachedAt is l l')
    (h' : AttachedAt js l' l'') : AttachedAt (is ++ js) l l'' := by
  refine ⟨h'.logDir.trans h.logDir, h'.dynamic.trans h.dynamic, h'.objects.trans h.objects, ?_,
    fun p hp => h'.kept p (h.kept p hp), ?_⟩
  · intro p reg hreg
    rcases h'.sound p reg hreg with hreg | hobj
    · exact h.sound p reg hreg
    · rw [h.objects] at hobj
      exact Or.inr hobj
  · intro i hi c ms hget
    rcases List.mem_append.mp hi with hi | hi
    · exact h'.kept _ (h.done i hi c ms hget)
    · rw [← h.objects] at hget
      exact h'.done i hi c ms hget

omit [DecidableEq κ] in
theorem attachAll_ok (is : List ℕ) : ∀ {w w' : CoAPServer κ}, (attachAll is).run w = .ok 0 w' →
    AttachedAt is (layout w) (layout w') := by
  induction is with
  | nil =>
    rintro w _ ⟨⟩
    exact ⟨rfl, rfl, rfl, fun _ _ h => Or.inl h, fun _ h => h, by simp⟩
  | cons i is ih =>
    intro w w' h
    obtain ⟨r, w₁, hget, h₁⟩ := run_bind_ok h
    obtain ⟨hr, hw⟩ := getResource_eq_ok hget
    subst hw
    obtain ⟨⟨ret, r'⟩, w₂, hattach, h₂⟩ := run_bind_ok h₁
    simp only [EStateM.run_bind, EStateM.run_modify] at h₂
    by_cases hret : ret ≠ 0
    · rw [if_pos hret] at h₂
      cases h₂
    · rw [if_neg hret] at h₂
      obtain rfl := not_not.mp hret
      exact (attachAt_one hr hattach).trans (ih h₂)

omit [DecidableEq κ] in
/-- **What a successful `init` leaves**, where nothing was registered. -/
theorem init_attached {w w' : CoAPServer κ} (hempty : w.registry = fun _ => none)
    (h : init.run w = .ok 0 w') : Attached (layout w') ∧
      (layout w').dynamicResources = (layout w).dynamicResources ∧
      (layout w').objects = (layout w).objects := by
  simp only [init, EStateM.run_bind, EStateM.run_get] at h
  have hall := attachAll_ok _ h
  refine ⟨⟨fun p reg hreg => ?_, fun i c ms hget => ?_⟩, hall.dynamic, hall.objects⟩
  · rcases hall.sound p reg hreg with hreg | hobj
    · simp [layout, hempty] at hreg
    · rw [hall.objects]
      exact hobj
  · rw [hall.objects] at hget
    have hi : i < w.resources.length := by
      have hlt := (List.getElem?_eq_some_iff.mp hget).1
      simpa [layout] using hlt
    exact hall.done i (List.mem_range.mpr hi) c ms hget

/-! ### The invariant -/

/-- **What is registered beyond the start.** `l₀` is the layout after `init`. -/
structure Inv (re : Matcher) (l₀ l : Layout) : Prop where
  dynamic : l.dynamicResources = l₀.dynamicResources
  static : ∀ p reg, l₀.registry p = some reg → l.registry p = some reg
  created : ∀ p reg, l₀.registry p = none → l.registry p = some reg → ∃ cfg sm ms,
    FirstMatch re p l₀.dynamicResources cfg sm ∧
    l.objects[reg.resource]? = some (dynamicConfig cfg p sm, ms) ∧
    ms.map (·.config) = cfg.methods ∧ reg.handles = hasType ms
  single : ∀ (i : ℕ) (c : ResourceConfig) (ms : List ResourceMethod), l.objects[i]? = some (c, ms) →
    l₀.registry (cStr c.resourcePath) = none →
    ∃ reg, l.registry (cStr c.resourcePath) = some reg ∧ reg.resource = i

theorem inv_start {re : Matcher} {l : Layout} (h : Attached l) : Inv re l l := by
  refine ⟨rfl, fun _ _ h => h, ?_, ?_⟩
  · intro p reg hnone hsome
    rw [hnone] at hsome
    cases hsome
  · intro i c ms hget hnone
    exact absurd hnone (h.complete i c ms hget)

/-- An object of a longer list of objects. -/
theorem objects_concat {objs : List (ResourceConfig × List ResourceMethod)} {i : ℕ}
    {o o' : ResourceConfig × List ResourceMethod} (h : (objs ++ [o'])[i]? = some o) :
    objs[i]? = some o ∨ i = objs.length ∧ o = o' := by
  rcases Nat.lt_trichotomy i objs.length with hlt | rfl | hgt
  · rw [List.getElem?_append_left hlt] at h
    exact Or.inl h
  · rw [List.getElem?_concat_length] at h
    exact Or.inr ⟨rfl, (Option.some.inj h).symm⟩
  · rw [List.getElem?_eq_none (by simp; omega)] at h
    cases h

theorem Created.inv {re : Matcher} {l₀ l l' : Layout} (h : Created re l l') (hi : Inv re l₀ l) :
    Inv re l₀ l' := by
  obtain ⟨uri, cfg, sm, ms, hzero, hnone, hfirst, hms, rfl⟩ := h
  have hold : ∀ {i : ℕ} {o}, l.objects[i]? = some o →
      (l.objects ++ [(dynamicConfig cfg uri sm, ms)])[i]? = some o := by
    intro i o ho
    rw [List.getElem?_append_left (List.getElem?_eq_some_iff.mp ho).1, ho]
  have hne : ∀ {p reg}, l.registry p = some reg → p ≠ uri := by
    rintro p reg hp rfl
    rw [hnone] at hp
    cases hp
  refine ⟨hi.dynamic, ?_, ?_, ?_⟩
  · intro p reg hp
    have hreg := hi.static p reg hp
    simp only [addObject, dynamicConfig, Function.update_of_ne (hne hreg)]
    exact hreg
  · intro p reg hp hreg
    by_cases hpu : p = uri
    · subst hpu
      simp only [addObject, dynamicConfig, Function.update_self] at hreg
      obtain rfl := Option.some.inj hreg
      refine ⟨cfg, sm, ms, hi.dynamic ▸ hfirst, ?_, hms, rfl⟩
      simp [addObject, dynamicConfig]
    · simp only [addObject, dynamicConfig, Function.update_of_ne hpu] at hreg
      obtain ⟨cfg', sm', ms', hfirst', hobj, hms', hhandles⟩ := hi.created p reg hp hreg
      exact ⟨cfg', sm', ms', hfirst', hold hobj, hms', hhandles⟩
  · intro i c ms' hget hp
    rcases objects_concat hget with hget | ⟨rfl, heq⟩
    · obtain ⟨reg, hreg, hres⟩ := hi.single i c ms' hget hp
      refine ⟨reg, ?_, hres⟩
      simp only [addObject, dynamicConfig, Function.update_of_ne (hne hreg)]
      exact hreg
    · obtain ⟨rfl, rfl⟩ := Prod.mk.inj heq
      refine ⟨⟨l.objects.length, hasType ms'⟩, ?_, rfl⟩
      simp [addObject, dynamicConfig, cStr_eq_self hzero]

/-- **The invariant holds along every run.** -/
theorem run_inv {re : Matcher} {w₀ w : CoAPServer κ} (hstart : Attached (layout w₀))
    (hrun : Reach (step re) w₀ w) : Inv re (layout w₀) (layout w) := by
  refine Runs.invariant (P := fun w => Inv re (layout w₀) (layout w)) ?_ hrun (inv_start hstart)
  intro w l w' hi _ hstep
  rcases step_layout hstep with hsame | hcreated
  · rw [hsame]
    exact hi
  · exact hcreated.inv hi

/-! ### Dispatch -/

/-- **A resource can be created** from a configuration: neither its construction nor its first value
throws, and all its methods can be attached. -/
def Creates (w : CoAPServer κ) (config : ResourceConfig) : Prop :=
  ∃ r fs r' fs', (create config w.logDir).run w.fs = .ok r fs ∧ Attachable r ∧
    r.initValue.run fs = .ok r' fs'

omit [DecidableEq κ] in
theorem createResource_creates {config : ResourceConfig} {w : CoAPServer κ} (h : Creates w config) :
    ∃ w', (createResource config).run w = .ok true w' := by
  obtain ⟨r, fs, r', fs', hcreate, hatt, hinit⟩ := h
  obtain ⟨err, hrun⟩ := createResource_run config w
  simp only [hcreate, if_pos hatt, hinit] at hrun
  exact ⟨_, hrun⟩

/-- **The request is handled by a resource** that is made from `cfg` for the URI: one that exists, or
the one that is created for it. -/
def HandledBy (re : Matcher) (w : CoAPServer κ) (uri : Uri) (req : Request κ)
    (type : ResourceMethodType) (env : Env) (resp : Response) (cfg : ResourceConfig)
    (sm : List Str) : Prop :=
  ∃ i r w₁, (serve re req type env resp uri).run w = (handleCoAPRequest i req type env resp).run w₁ ∧
    w₁.resources[i]? = some r ∧ r.config = dynamicConfig cfg uri.path sm ∧
    r.methods.map (·.config) = cfg.methods ∧ w₁.queue = w.queue ∧ w₁.cache = w.cache ∧
    (w₁ = w ∨ w.registry uri.path = none ∧ w₁.resources = w.resources ++ [r])

/-- The request is answered with a code, and nothing else happens to resources, queue and cache. -/
def AnsweredBy (re : Matcher) (w : CoAPServer κ) (uri : Uri) (req : Request κ)
    (type : ResourceMethodType) (env : Env) (resp : Response) (code : Code) : Prop :=
  ∃ w₁, (serve re req type env resp uri).run w = .ok { resp with code } w₁ ∧
    w₁.resources = w.resources ∧ w₁.queue = w.queue ∧ w₁.cache = w.cache

section Dispatch
variable {re : Matcher} {w₀ w : CoAPServer κ} {uri : Uri} {cfg : ResourceConfig} {sm : List Str}

/-- A path that was not registered at the start, nor since. -/
theorem serve_unregistered (req : Request κ) (type : ResourceMethodType) (env : Env)
    (resp : Response) (hfirst : FirstMatch re uri.path w.dynamicResources cfg sm)
    (hreg : w.registry uri.path = none) : (serve re req type env resp uri).run w =
      (handleMatch req type env resp cfg uri.path sm).run w := by
  have hne : w.dynamicResources ≠ [] := List.ne_nil_of_mem hfirst.mem
  simp only [serve, EStateM.run_bind, EStateM.run_get, hreg, if_neg hne, handleDynamicRequest,
    cStr_eq_self uri.noZero, handleConfigs_first hfirst]

variable (hi : Inv re (layout w₀) (layout w)) (hdyn : w₀.registry uri.path = none)
include hi hdyn

omit [DecidableEq κ] in
/-- A registered path is that of the resource made from the first match. -/
theorem registered_object (hfirst : FirstMatch re uri.path w₀.dynamicResources cfg sm)
    {reg : Registered} (hreg : w.registry uri.path = some reg) :
    ∃ r, w.resources[reg.resource]? = some r ∧ r.config = dynamicConfig cfg uri.path sm ∧
      r.methods.map (·.config) = cfg.methods ∧ reg.handles = hasType r.methods := by
  obtain ⟨cfg', sm', ms, hfirst', hobj, hms, hhandles⟩ := hi.created _ _ hdyn hreg
  obtain ⟨rfl, rfl⟩ := hfirst.unique hfirst'
  rw [layout, List.getElem?_map, Option.map_eq_some_iff] at hobj
  obtain ⟨r, hr, heq⟩ := hobj
  obtain ⟨hc, rfl⟩ := Prod.mk.inj heq
  exact ⟨r, hr, hc, hms, hhandles⟩

theorem handled_of_has (req : Request κ) (type : ResourceMethodType) (env : Env) (resp : Response)
    (hfirst : FirstMatch re uri.path w₀.dynamicResources cfg sm) (hhas : Has cfg type)
    (hcreates : w.registry uri.path = none → Creates w (dynamicConfig cfg uri.path sm)) :
    HandledBy re w uri req type env resp cfg sm := by
  cases hreg : w.registry uri.path with
  | some reg =>
    obtain ⟨r, hr, hconfig, hms, hhandles⟩ := registered_object hi hdyn hfirst hreg
    refine ⟨reg.resource, r, w, ?_, hr, hconfig, hms, rfl, rfl, Or.inl rfl⟩
    have hh : reg.handles type = true := by rw [hhandles, hasType_iff hms]; exact hhas
    simp only [serve, EStateM.run_bind, EStateM.run_get, hreg, if_pos hh]
  | none =>
    obtain ⟨w₁, hcreate⟩ := createResource_creates (w := substituted w cfg sm) (hcreates hreg)
    obtain ⟨r, hres, hconfig, hms, hqueue, hcache, -⟩ := createResource_ok uri.noZero hcreate
    refine ⟨w.resources.length, r, w₁, ?_, ?_, hconfig, hms, hqueue, hcache, Or.inr ⟨hreg, hres⟩⟩
    · have hdynamic : w.dynamicResources = w₀.dynamicResources := hi.dynamic
      rw [serve_unregistered req type env resp (hdynamic ▸ hfirst) hreg, handleMatch_has hhas, hcreate]
    · rw [hres]
      exact List.getElem?_concat_length

theorem notAllowed_of_lacks (req : Request κ) (type : ResourceMethodType) (env : Env)
    (resp : Response) (hfirst : FirstMatch re uri.path w₀.dynamicResources cfg sm)
    (hlacks : ¬ Has cfg type) : AnsweredBy re w uri req type env resp .notAllowed := by
  cases hreg : w.registry uri.path with
  | some reg =>
    obtain ⟨r, hr, hconfig, hms, hhandles⟩ := registered_object hi hdyn hfirst hreg
    have hh : ¬ reg.handles type = true := by rw [hhandles, hasType_iff hms]; exact hlacks
    refine ⟨w, ?_, rfl, rfl, rfl⟩
    simp only [serve, EStateM.run_bind, EStateM.run_get, hreg, if_neg hh, EStateM.run_pure]
  | none =>
    have hdynamic : w.dynamicResources = w₀.dynamicResources := hi.dynamic
    have hserve := serve_unregistered req type env resp (hdynamic ▸ hfirst) hreg
    exact ⟨_, hserve.trans (handleMatch_lacks hlacks), rfl, rfl, rfl⟩

theorem notFound_of_noMatch (req : Request κ) (type : ResourceMethodType) (env : Env)
    (resp : Response) (hnone : NoMatch re uri.path w₀.dynamicResources) :
    AnsweredBy re w uri req type env resp .notFound := by
  have hdynamic : w.dynamicResources = w₀.dynamicResources := hi.dynamic
  cases hreg : w.registry uri.path with
  | some reg =>
    obtain ⟨cfg, sm, ms, hfirst, -⟩ := hi.created _ _ hdyn hreg
    obtain ⟨before, later, heq, -, hsome⟩ := hfirst
    have hmem : cfg ∈ w₀.dynamicResources := by
      have : (layout w₀).dynamicResources = w₀.dynamicResources := rfl
      rw [← this, heq]
      exact List.mem_append_right _ List.mem_cons_self
    rw [hnone cfg hmem] at hsome
    cases Except.ok.inj hsome
  | none =>
    by_cases hempty : w.dynamicResources = []
    · refine ⟨w, ?_, rfl, rfl, rfl⟩
      simp only [serve, EStateM.run_bind, EStateM.run_get, hreg, if_pos hempty, EStateM.run_pure]
    · have hserve : (serve re req type env resp uri).run w = .ok { resp with code := .notFound }
          { w with stderr := w.stderr ++ [str "Unhandled Dynamic URI: " ++ uri.path] } := by
        simp only [serve, EStateM.run_bind, EStateM.run_get, hreg, if_neg hempty,
          handleDynamicRequest, cStr_eq_self uri.noZero, handleConfigs_none (hdynamic ▸ hnone),
          writeErr_run, EStateM.run_pure]
      exact ⟨_, hserve, rfl, rfl, rfl⟩

omit [DecidableEq κ] in
/-- At most one resource has the path. -/
theorem single_resource {i j : ℕ} {r r' : Resource} (hri : w.resources[i]? = some r)
    (hrj : w.resources[j]? = some r') (hr : r.getPath = uri.path) (hr' : r'.getPath = uri.path) :
    i = j := by
  have hobj : ∀ {k : ℕ} {s : Resource}, w.resources[k]? = some s → s.getPath = uri.path →
      ∃ reg, w.registry uri.path = some reg ∧ reg.resource = k := by
    intro k s hs hpath
    have hget : (layout w).objects[k]? = some (s.config, s.methods) := by
      rw [layout, List.getElem?_map, hs, Option.map_some]
    have hzero : cStr s.config.resourcePath = uri.path := by
      rw [show s.config.resourcePath = uri.path from hpath, cStr_eq_self uri.noZero]
    have hreg := hi.single k _ _ hget (by rw [hzero]; exact hdyn)
    rw [hzero] at hreg
    exact hreg
  obtain ⟨reg, hreg, rfl⟩ := hobj hri hr
  obtain ⟨reg', hreg', rfl⟩ := hobj hrj hr'
  rw [hreg] at hreg'
  rw [Option.some.inj hreg']

end Dispatch

/-- **The first match decides**, in every state that requests, the queue thread, the poll thread and
changes of the files reach after `init`. -/
theorem first_match_decides {re : Matcher} {wp w₀ w : CoAPServer κ}
    (hempty : wp.registry = fun _ => none) (hinit : init.run wp = .ok 0 w₀)
    (hrun : Reach (step re) w₀ w) (uri : Uri) (hdyn : w₀.registry uri.path = none)
    (req : Request κ) (type : ResourceMethodType) (env : Env) (resp : Response) :
    (∀ cfg sm, FirstMatch re uri.path wp.dynamicResources cfg sm →
      (Has cfg type → (w.registry uri.path = none → Creates w (dynamicConfig cfg uri.path sm)) →
        HandledBy re w uri req type env resp cfg sm) ∧
      (¬ Has cfg type → AnsweredBy re w uri req type env resp .notAllowed)) ∧
    (NoMatch re uri.path wp.dynamicResources →
      AnsweredBy re w uri req type env resp .notFound) ∧
    ∀ (i j : ℕ) (r r' : Resource), w.resources[i]? = some r → w.resources[j]? = some r' →
      r.getPath = uri.path → r'.getPath = uri.path → i = j := by
  obtain ⟨hatt, hdynamic, -⟩ := init_attached hempty hinit
  have hi := run_inv hatt hrun
  have heq : wp.dynamicResources = w₀.dynamicResources := hdynamic.symm
  rw [heq]
  refine ⟨fun cfg sm hfirst => ⟨?_, ?_⟩, ?_, ?_⟩
  · exact handled_of_has hi hdyn req type env resp hfirst
  · exact notAllowed_of_lacks hi hdyn req type env resp hfirst
  · exact notFound_of_noMatch hi hdyn req type env resp
  · exact fun i j r r' => single_resource hi hdyn

/-- A dynamic configuration with a `PUT` and a `GET`. -/
def dynamicVal : ResourceConfig :=
  { resourcePath := str "dyn/(.*)/val([0-9]*)"
    logFile := str "dynamic/$1/value-$2.log"
    dynamic := true
    methods := [{ type := .get, format := [str "STRING"], printValue := true },
      { type := .put, format := [str "STRING"], printValue := true, logValue := true }] }

/-- A matcher that knows two URIs of the pattern. -/
def valMatcher : Matcher := fun pattern uri =>
  if pattern = str "dyn/(.*)/val([0-9]*)" ∧ uri = str "dyn/a/val7" then
    .ok (some [str "dyn/a/val7", str "a", str "7"])
  else .ok none

/-- A server with the dynamic configuration and files that can be written. -/
def dynamicServer : CoAPServer ℕ :=
  { logDir := str "logs"
    dynamicResources := [dynamicVal]
    resources := []
    registry := fun _ => none
    queue := { maxSize := 2, items := [default, default], start := 0, end_ := 0 }
    cache := Cache.empty
    fs := { files := fun _ => none, clock := 0, writable := fun _ => true
            creatable := fun _ => true, opened := [], created := [] }
    stdout := []
    stderr := [] }

/-- `dyn/a/val7`. -/
def valUri : Uri := ⟨str "dyn/a/val7", by decide⟩

/-- A `PUT` creates the resource that a later `GET` is handled by. -/
theorem first_match_decides_val : ∃ w, Reach (step valMatcher) dynamicServer w ∧
    HandledBy valMatcher w valUri ⟨0, none, true⟩ .get ⟨⟨0, 0⟩, []⟩ ⟨.empty, .con, [], none⟩ dynamicVal
      [str "dyn/a/val7", str "a", str "7"] := by
  have hfirst : FirstMatch valMatcher valUri.path [dynamicVal] dynamicVal
      [str "dyn/a/val7", str "a", str "7"] := ⟨[], [], rfl, by simp, rfl⟩
  obtain ⟨w, hw, hreg⟩ : ∃ w, step valMatcher dynamicServer
      (.request valUri ⟨0, none, true⟩ .put ⟨⟨0, 0⟩, []⟩ ⟨.empty, .con, [], none⟩) = some w ∧
      (w.registry valUri.path).isSome := ⟨_, rfl, rfl⟩
  have hrun : Reach (step valMatcher) dynamicServer w := (Runs.refl _).snoc (by trivial) hw
  have hempty : dynamicServer.registry = fun _ => none := rfl
  have hinit : init.run dynamicServer = .ok 0 dynamicServer := rfl
  refine ⟨w, hrun, ((first_match_decides hempty hinit hrun valUri rfl _ _ _ _).1
    _ _ hfirst).1 (by decide) fun hnone => ?_⟩
  rw [hnone] at hreg
  cases hreg

end CoapServer.Server.Dispatch
