import CoapServer.Parse.Expansion
import CoapServer.Server.Dispatch

/-! # Commands run once per request

The command of a method is called in the loop over its formatters. A configuration with a command is
only accepted with a single format, and neither the expansion of templates nor the copy for a dynamic
URI changes that (`SingleCmd`), so each item calls `executeCmd` once (`command_once`). The calls are
counted by a ghost beside the server. -/

namespace CoapServer.Server.Commands

open CoapServer.Basic CoapServer.Config CoapServer.Lib.Fallible CoapServer.Lib.Frame
open CoapServer.Lib.Erasure CoapServer.Parse.Replace CoapServer.Parse.Constructors
open CoapServer.Parse.Expansion CoapServer.Resources.Files CoapServer.Resources.Formatter
open CoapServer.Resources.Object CoapServer.Server.World CoapServer.Server.Requests
open CoapServer.Server.Process CoapServer.Server.Dynamic CoapServer.Server.Dispatch

variable {κ : Type}

/-! ### Accepted methods -/

/-- **A method that is handled, with one format if it has a command.** -/
structure SingleCmd (m : ResourceMethodConfig) : Prop where
  type : Queueable m.type
  format : m.cmd ≠ [] → m.format.length = 1

/-- All methods of a resource are such. -/
def AllSingle (r : ResourceConfig) : Prop := ∀ m ∈ r.methods, SingleCmd m

theorem parseCmd_spec {json : Json} {format : List Str} {cmd : Str}
    (h : parseCmd json format = .ok cmd) : cmd ≠ [] → format.length = 1 := by
  intro hcmd
  unfold parseCmd at h
  cases hget : json.getString "cmd" with
  | none =>
    rw [hget] at h
    exact absurd (Except.ok.inj h).symm hcmd
  | some c =>
    simp only [hget] at h
    split_ifs at h with hlen
    exact not_not.mp hlen

theorem parseMethod_single {json : Json} {type : ResourceMethodType} (htype : Queueable type)
    {m : ResourceMethodConfig} (h : parseMethod json type = .ok m) : SingleCmd m := by
  obtain ⟨format, -, h⟩ := bind_eq_ok h
  obtain ⟨cmd, hcmd, h⟩ := bind_eq_ok h
  obtain rfl := Except.ok.inj h
  exact ⟨htype, parseCmd_spec hcmd⟩

theorem parseNamed_single {methods : Json} {name : String} {type : ResourceMethodType}
    (htype : Queueable type) {ms : List ResourceMethodConfig}
    (h : parseNamed methods name type = .ok ms) : ∀ m ∈ ms, SingleCmd m := by
  unfold parseNamed at h
  cases hfind : methods.find name with
  | none =>
    rw [hfind] at h
    obtain rfl := Except.ok.inj h
    simp
  | some json =>
    rw [hfind] at h
    obtain ⟨m, hm, rfl⟩ := map_eq_ok h
    intro m' hm'
    obtain rfl := List.mem_singleton.mp hm'
    exact parseMethod_single htype hm

/-- **The methods of a resource that is accepted.** -/
theorem parseResource_single {json : Json} {r : ResourceConfig} (h : parseResource json = .ok r) :
    AllSingle r := by
  have hmethods : parseMethods json = .ok r.methods := by
    unfold parseResource at h
    cases hpath : json.getString "path" with
    | none =>
      rw [hpath] at h
      cases h
    | some path =>
      rw [hpath] at h
      obtain ⟨methods, hmethods, h⟩ := bind_eq_ok h
      obtain rfl := Except.ok.inj h
      exact hmethods
  unfold parseMethods at hmethods
  split at hmethods
  · obtain ⟨get, hget, hmethods⟩ := bind_eq_ok hmethods
    obtain ⟨post, hpost, hmethods⟩ := bind_eq_ok hmethods
    obtain ⟨put, hput, hmethods⟩ := bind_eq_ok hmethods
    have heq : get ++ post ++ put = r.methods := Except.ok.inj hmethods
    intro m hm
    rw [← heq] at hm
    rcases List.mem_append.mp hm with hm | hm
    · rcases List.mem_append.mp hm with hm | hm
      · exact parseNamed_single (Or.inl rfl) hget m hm
      · exact parseNamed_single (Or.inr (Or.inr rfl)) hpost m hm
    · exact parseNamed_single (Or.inr (Or.inl rfl)) hput m hm
  · cases hmethods

/-! ### Generated methods -/

/-- Nothing is put into an empty string. -/
theorem templateReplace_nil (inst : TemplateInstance) : templateReplace [] inst = .ok [] :=
  templateReplace_plain List.not_mem_nil inst

/-- A generated method has as many formats, and no command where its template has none. -/
theorem expandedMethod_single {inst : TemplateInstance} {m g : ResourceMethodConfig}
    (h : ExpandedMethod inst m g) (hm : SingleCmd m) : SingleCmd g := by
  refine ⟨h.type ▸ hm.type, fun hcmd => ?_⟩
  rw [← h.format.length_eq]
  refine hm.format fun hnil => hcmd ?_
  have hreplace := h.cmd
  rw [hnil, templateReplace_nil] at hreplace
  exact (Except.ok.inj hreplace).symm

theorem expandedStatic_single {inst : TemplateInstance} {r g : ResourceConfig}
    (h : ExpandedStatic inst r g) (hr : AllSingle r) : AllSingle g := by
  intro m hm
  obtain ⟨m', hm', hexpanded⟩ := exists_of_forall₂_right h.methods hm
  exact expandedMethod_single hexpanded (hr m' hm')

/-- The resources of a template. -/
theorem parseTemplate_single {json : Json} {t : TemplateConfig} (h : parseTemplate json = .ok t) :
    ∀ r ∈ t.resources, AllSingle r := by
  unfold parseTemplate at h
  cases hident : json.getString "ident" with
  | none =>
    rw [hident] at h
    cases h
  | some ident =>
    cases hitems : json.getArray "resources" with
    | none =>
      rw [hident, hitems] at h
      cases h
    | some items =>
      rw [hident, hitems] at h
      obtain ⟨resources, hresources, h⟩ := bind_eq_ok h
      obtain rfl := Except.ok.inj h
      intro r hr
      obtain ⟨item, -, hitem⟩ := exists_of_forall₂_right (mapM_eq_ok_iff.mp hresources) hr
      unfold parseTemplateResource at hitem
      split_ifs at hitem
      exact parseResource_single hitem

/-- **Every resource of a configuration that is accepted.** -/
theorem newConfig_single {parse : Str → Except Failure Json} {file : Option Str} {path : Str}
    {config : Config} (h : newConfig parse file path = .ok config) :
    ∀ r ∈ config.resources, AllSingle r := by
  cases file with
  | none => cases h
  | some text =>
    obtain ⟨json, -, h⟩ := bind_eq_ok h
    obtain ⟨d, hdocument, hexpand⟩ := bind_eq_ok h
    obtain ⟨endpoint, -, hdocument⟩ := bind_eq_ok hdocument
    obtain ⟨resources, hresources, hdocument⟩ := bind_eq_ok hdocument
    obtain ⟨templates, htemplates, hdocument⟩ := bind_eq_ok hdocument
    obtain ⟨insts, -, hdocument⟩ := bind_eq_ok hdocument
    obtain rfl := Except.ok.inj hdocument
    obtain ⟨blocks, heq, hblocks⟩ := expand_spec hexpand
    intro g hg
    rw [heq] at hg
    rcases List.mem_append.mp hg with hg | hg
    · obtain ⟨item, -, hitem⟩ := exists_of_forall₂_right (mapM_eq_ok_iff.mp hresources) hg
      exact parseResource_single hitem
    · obtain ⟨block, hblock, hg⟩ := List.mem_flatten.mp hg
      obtain ⟨inst, -, t, hfirst, hgenerated⟩ := exists_of_forall₂_right hblocks hblock
      obtain ⟨r, hr, hgen⟩ := exists_of_forall₂_right hgenerated hg
      obtain ⟨item, -, hitem⟩ :=
        exists_of_forall₂_right (mapM_eq_ok_iff.mp htemplates) hfirst.mem
      exact expandedStatic_single (generateResource_spec hgen).1 (parseTemplate_single hitem r hr)

/-! ### The objects -/

/-- **A configuration as the server uses it**: as it is, or copied for a dynamic URI. -/
def UsedAs (cfg config : ResourceConfig) : Prop :=
  config = cfg ∨ ∃ uri sm, config = dynamicConfig cfg uri sm

theorem UsedAs.methods {cfg config : ResourceConfig} (h : UsedAs cfg config) :
    config.methods = cfg.methods := by
  obtain rfl | ⟨uri, sm, rfl⟩ := h
  · rfl
  · rfl

/-- A method object has a formatter for each format. -/
theorem newMethod_fmts {c : ResourceMethodConfig} {m : ResourceMethod} (h : newMethod c = .ok m) :
    m.config = c ∧ m.fmts.length = c.format.length := by
  obtain ⟨fmts, hfmts, h⟩ := bind_eq_ok h
  obtain rfl := Except.ok.inj h
  exact ⟨rfl, (mapM_eq_ok_iff.mp hfmts).length_eq.symm⟩

/-- Method objects with a formatter for each format. -/
def AllBuilt (r : Resource) : Prop :=
  ∀ m ∈ r.methods, m.fmts.length = m.config.format.length

theorem addMethods_built (config : ResourceConfig) (logDir : Str) (cs : List ResourceMethodConfig) :
    ∀ r, AllBuilt r → Yields AllBuilt (addMethods config logDir cs r) := by
  induction cs with
  | nil => exact fun r hr => Yields.pure hr
  | cons c cs ih =>
    intro r hr
    refine Yields.bind (P := fun m : ResourceMethod => m.fmts.length = m.config.format.length) ?_
      fun m hm => ?_
    · cases hnew : newMethod c with
      | ok m =>
        obtain ⟨hconfig, hfmts⟩ := newMethod_fmts hnew
        exact Yields.pure (hconfig.symm ▸ hfmts)
      | error e => exact Yields.throw e
    · have hbuilt : ∀ m' ∈ r.methods ++ [m], m'.fmts.length = m'.config.format.length := by
        intro m' hm'
        rcases List.mem_append.mp hm' with hm' | hm'
        · exact hr m' hm'
        · obtain rfl := List.mem_singleton.mp hm'
          exact hm
      exact Yields.ite (Yields.bind_any fun path => ih _ hbuilt) (ih _ hbuilt)

theorem create_built (config : ResourceConfig) (logDir : Str) :
    Yields AllBuilt (create config logDir) := by
  refine Yields.bind (addMethods_built _ _ _ _ (by rintro m ⟨⟩)) fun r hr => Yields.pure ?_
  split_ifs
  · exact hr
  · exact hr

/-! ### Counting the calls -/

/-- The calls, with a count of those of `executeCmd`. -/
def counted (ops : ItemOps (EStateM Failure (CoAPServer κ))) :
    ItemOps (EStateM Failure (ℕ × CoAPServer κ)) :=
  { executeCmd := fun k data => do
      onGhost (· + 1)
      beside (ops.executeCmd k data)
    setValue := fun value => beside (ops.setValue value)
    writeOut := fun line => beside (ops.writeOut line)
    writeLog := fun line => beside (ops.writeLog line) }

/-- **`handleRequestQueueItem`, with a count of the calls of `executeCmd`.** -/
def countedItem (item : RequestQueueItem) (env : ProcEnv) :
    EStateM Failure (ℕ × CoAPServer κ) ℤ := do
  let r ← beside (getResource item.src.resource)
  match r.methods[item.src.method]? with
  | none => throw (.outOfBounds item.src.method)
  | some m =>
    handleItem (counted (serverOps item.src.resource r m env)) m (env.timestamp item.time) r.getPath
      item.data

theorem erases_counted (ops : ItemOps (EStateM Failure (CoAPServer κ))) :
    ErasesAll Prod.snd (counted ops) ops := by
  have hghost : Erases Prod.snd (onGhost (· + 1) : EStateM Failure (ℕ × CoAPServer κ) Unit)
      (pure ⟨⟩) := erases_onGhost _
  exact {
    executeCmd := fun _ _ => hghost.bind fun _ => erases_beside _
    setValue := fun _ => erases_beside _
    writeOut := fun _ => erases_beside _
    writeLog := fun _ => erases_beside _ }

/-- The count changes nothing. -/
theorem erases_countedItem (item : RequestQueueItem) (env : ProcEnv) :
    Erases Prod.snd (countedItem item env)
      (handleRequestQueueItem item env : ServerM κ ℤ) := by
  refine Erases.bind (erases_beside _) fun r => ?_
  cases r.methods[item.src.method]? with
  | none => exact Erases.throw _
  | some m => exact erases_handleItem (erases_counted _) m _ _ _

/-- The count goes up by `n`, whether the program returns or throws. -/
abbrev Adds {β : Type} (n : ℕ) (m : EStateM Failure (ℕ × CoAPServer κ) β) : Prop :=
  Moves (fun s s' => s'.1 = s.1 + n) m

theorem adds_beside {β : Type} (m : ServerM κ β) : Adds 0 (beside m) := by
  rintro ⟨n, w⟩
  simp only [beside, EStateM.run]
  cases m w <;> rfl

/-- What counts first, and nothing after. -/
theorem Adds.bind {β γ : Type} {n : ℕ} {m : EStateM Failure (ℕ × CoAPServer κ) β}
    {k : β → EStateM Failure (ℕ × CoAPServer κ) γ} (hm : Adds n m) (hk : ∀ a, Adds 0 (k a)) :
    Adds n (m >>= k) := by
  intro s
  have h := hm s
  rw [EStateM.run_bind]
  cases hrun : m.run s with
  | ok a s' =>
    rw [hrun] at h
    have hcount : s'.1 = s.1 + n := h
    have hlater : (final ((k a).run s')).1 = s'.1 + 0 := hk a s'
    show (final ((k a).run s')).1 = s.1 + n
    omega
  | error e s' =>
    rw [hrun] at h
    exact h

section Count
variable (ops : ItemOps (EStateM Failure (CoAPServer κ))) (m : ResourceMethod)

theorem adds_executeCmd (k : ℕ) (data : Str) : Adds 1 ((counted ops).executeCmd k data) := by
  have hghost : Adds 1 (onGhost (· + 1) : EStateM Failure (ℕ × CoAPServer κ) Unit) := fun _ => rfl
  exact Adds.bind hghost fun _ => adds_beside _

/-- A formatter calls `executeCmd` if there is a command. -/
theorem adds_formatItem (data : Str) (fmt : Format) (k : ℕ) :
    Adds (if m.config.cmd = [] then 0 else 1) (formatItem (counted ops) m data fmt k) := by
  unfold formatItem
  by_cases hcmd : m.config.cmd = []
  · rw [if_pos hcmd, if_neg (not_not.mpr hcmd)]
    exact fun _ => rfl
  · rw [if_neg hcmd, if_pos hcmd]
    exact Adds.bind (adds_executeCmd ops k _) fun _ _ => rfl

theorem adds_storeFirst (k : ℕ) (streams : List Str) :
    Adds 0 (storeFirst (counted ops) m k streams) :=
  Moves.ite (adds_beside _) fun _ => rfl

/-- Without a command nothing is called. -/
theorem adds_formatLoop_nil (hcmd : m.config.cmd = []) (data : Str) (fmts : List Format) :
    ∀ (k : ℕ) (sss : List Str), Adds 0 (formatLoop (counted ops) m data fmts k sss) := by
  induction fmts with
  | nil => exact fun _ _ _ => rfl
  | cons fmt fmts ih =>
    intro k sss
    have hitem := adds_formatItem ops m data fmt k
    rw [if_pos hcmd] at hitem
    exact Adds.bind hitem fun _ => Adds.bind (adds_storeFirst ops m k _) fun _ => ih _ _

/-- **The loop over the formatters** calls `executeCmd` once, if there is a command. -/
theorem adds_formatLoop (hsingle : m.config.cmd ≠ [] → m.fmts.length = 1) (data : Str) :
    Adds (if m.config.cmd = [] then 0 else 1)
      (formatLoop (counted ops) m data m.fmts 0 []) := by
  by_cases hcmd : m.config.cmd = []
  · rw [if_pos hcmd]
    exact adds_formatLoop_nil ops m hcmd data _ _ _
  · obtain ⟨fmt, hfmt⟩ := List.length_eq_one_iff.mp (hsingle hcmd)
    rw [hfmt]
    refine Adds.bind (adds_formatItem ops m data fmt 0) fun _ => ?_
    exact Adds.bind (adds_storeFirst ops m 0 _) fun _ _ => rfl

theorem adds_writeValues (logValue : Str) (sss : List Str) :
    Adds 0 (writeValues (counted ops) m logValue sss) := by
  induction sss with
  | nil => exact fun _ => rfl
  | cons ss sss ih =>
    refine Adds.bind (Moves.ite (adds_beside _) fun _ => rfl) fun _ => ?_
    exact Adds.bind (Moves.ite (adds_beside _) fun _ => rfl) fun _ => ih

/-- **The work on an item** calls `executeCmd` once, if there is a command. -/
theorem adds_handleItem (htype : Queueable m.getMethodType)
    (hsingle : m.config.cmd ≠ [] → m.fmts.length = 1) (timestamp path data : Str) :
    Adds (if m.config.cmd = [] then 0 else 1)
      (handleItem (counted ops) m timestamp path data) := by
  have hloop := adds_formatLoop ops m hsingle data
  have hstore : Adds 0 (storeData (counted ops) m data) := Moves.ite (adds_beside _) fun _ => rfl
  have hprocess : Adds (if m.config.cmd = [] then 0 else 1) (processItem (counted ops) m data) := by
    unfold processItem
    obtain ht | ht | ht := htype
    · rw [ht]
      exact hloop
    all_goals
      rw [ht]
      exact Adds.bind hloop fun _ => Adds.bind hstore fun _ _ => rfl
  refine Adds.bind hprocess fun sss => ?_
  exact Adds.bind (adds_writeValues ops m _ _) fun _ _ => rfl

end Count

/-- **`executeCmd` is called once per item if the method has a command, and never otherwise**: for
every configuration that is accepted, every resource made from it or from its copy for a dynamic URI,
whatever its value is by now, and every item for one of its methods. -/
theorem command_once {parse : Str → Except Failure Json} {file : Option Str} {path : Str}
    {config : Config} (hconfig : newConfig parse file path = .ok config) {cfg used : ResourceConfig}
    (hcfg : cfg ∈ config.resources) (hused : UsedAs cfg used) {logDir : Str} {fs fs' : FileSystem}
    {r₀ r : Resource} (hcreate : (create used logDir).run fs = .ok r₀ fs') (hr₀ : SameObject r₀ r)
    {w : CoAPServer κ} {item : RequestQueueItem} (hr : w.resources[item.src.resource]? = some r)
    {m : ResourceMethod} (hm : r.methods[item.src.method]? = some m) (env : ProcEnv) (n : ℕ) :
    mapState Prod.snd ((countedItem item env).run (n, w)) =
        (handleRequestQueueItem item env).run w ∧
      (final ((countedItem item env).run (n, w))).1 =
        n + if m.config.cmd = [] then 0 else 1 := by
  refine ⟨erases_countedItem item env (n, w), ?_⟩
  obtain ⟨-, hmethods⟩ := create_spec used logDir _ _ _ hcreate
  have hmem : m ∈ r₀.methods := hr₀.methods ▸ List.mem_of_getElem? hm
  have hmconfig : m.config ∈ cfg.methods := by
    rw [← hused.methods, ← hmethods]
    exact List.mem_map_of_mem hmem
  have hsingle := newConfig_single hconfig cfg hcfg m.config hmconfig
  have hfmts : m.fmts.length = m.config.format.length :=
    create_built used logDir _ _ _ hcreate m hmem
  have hget : (beside (getResource item.src.resource) :
      EStateM Failure (ℕ × CoAPServer κ) Resource).run (n, w) = .ok r (n, w) := by
    have hrun := getResource_run hr
    simp only [beside, EStateM.run] at hrun ⊢
    rw [hrun]
  have hitem := adds_handleItem (serverOps item.src.resource r m env) m hsingle.type
    (fun hcmd => hfmts.trans (hsingle.format hcmd)) (env.timestamp item.time) r.getPath item.data
    (n, w)
  unfold countedItem
  rw [EStateM.run_bind, hget]
  simp only [hm]
  exact hitem

/-- A resource with a command. -/
def cmdJson : Json :=
  .object [(str "resources", .array [.object [(str "path", .string (str "cmd")),
    (str "methods", .object [(str "PUT", .object [(str "format", .string (str "STRING")),
      (str "cmd", .string (str "cat"))])])]])]

def cmdMethod : ResourceMethodConfig := { type := .put, format := [str "STRING"], cmd := str "cat" }

def cmdResource : ResourceConfig := { resourcePath := str "cmd", methods := [cmdMethod] }

def cmdObject : Resource :=
  { config := cmdResource
    methods := [{ config := cmdMethod, fmts := [.text] }]
    value := []
    logFile := none
    dataFilePath := []
    dataFileWriteTime := 0 }

/-- Commands that print the payload. -/
def catEnv : ProcEnv :=
  { localtime := fun _ => Timestamps.epoch
    shell := fun _ _ payload _ _ _ => .exited 0 payload }

/-- A `PUT` to the resource. -/
def cmdItem : RequestQueueItem := { src := ⟨0, 0⟩, data := str "x", time := ⟨0, 0⟩ }

def cmdServer : CoAPServer ℕ := { dynamicServer with resources := [cmdObject] }

theorem command_once_val : (final ((countedItem cmdItem catEnv).run (0, cmdServer))).1 = 1 := by
  have hconfig : newConfig (parserOf cmdJson) (some cmdJson.dump) [] =
      .ok { endpoint := {}, resources := [cmdResource] } := newConfig_dump _ _
  have hcreate : (create cmdResource []).run dynamicServer.fs = .ok cmdObject dynamicServer.fs := rfl
  have hr : cmdServer.resources[cmdItem.src.resource]? = some cmdObject := rfl
  have hm : cmdObject.methods[cmdItem.src.method]? = some ⟨cmdMethod, [.text]⟩ := rfl
  exact (command_once hconfig (List.mem_singleton_self _) (Or.inl rfl) hcreate
    ⟨rfl, rfl, rfl, rfl⟩ hr hm catEnv 0).2

end CoapServer.Server.Commands
