import CoapServer.Parse.Expansion

/-! # What is accepted

The configurations that the constructors return are the `Valid` ones: the methods of a resource are
among `GET`, `POST` and `PUT`, each at most once and in this order, a command stands beside a single
format, the numbers fit `unsigned int`, and the protocol is one of the four.

`writeConfig` is a document for a configuration. What is read is valid, whatever the document, also
where templates are expanded (`valid_of_read`), and what is valid is read back from its document
(`read_write`); together `read_iff_valid`. -/

namespace CoapServer.Parse.Accepted

open CoapServer.Basic CoapServer.Config CoapServer.Lib.Fallible CoapServer.Parse.Replace
open CoapServer.Parse.Constructors CoapServer.Parse.Expansion

/-! ### Valid configurations -/

/-- A method that can be read. -/
structure ValidMethod (m : ResourceMethodConfig) : Prop where
  cmd : m.cmd ≠ [] → m.format.length = 1
  cmdTimeout : m.cmdTimeout < 2 ^ 32

/-- **A resource that can be read.** -/
structure ValidResource (r : ResourceConfig) : Prop where
  types : (r.methods.map (·.type)).Sublist [.get, .post, .put]
  methods : ∀ m ∈ r.methods, ValidMethod m
  maxAge : r.maxAge < 2 ^ 32

/-- **A configuration that can be read.** -/
structure Valid (c : Config) : Prop where
  transport : c.endpoint.transport ≠ .none
  resources : ∀ r ∈ c.resources, ValidResource r

/-! ### A document for a configuration -/

/-- A method; an empty command is left out. -/
def writeMethod (m : ResourceMethodConfig) : Json :=
  .object ([(str "format", .array (m.format.map .string)),
    (str "print", .boolean m.printValue),
    (str "log", .boolean m.logValue),
    (str "store", .boolean m.store),
    (str "cmdstdin", .boolean m.cmdStdin),
    (str "cmdtimeout", .number m.cmdTimeout),
    (str "cmdloginput", .boolean m.cmdLogInput)] ++
    if m.cmd = [] then [] else [(str "cmd", .string m.cmd)])

/-- The method of a type, where there is one. -/
def writeNamed (methods : List ResourceMethodConfig) (name : String) (type : ResourceMethodType) :
    List (Str × Json) :=
  ((methods.find? (·.type = type)).map fun m => (str name, writeMethod m)).toList

/-- The methods of a resource. -/
def writeMethods (methods : List ResourceMethodConfig) : Json :=
  .object (writeNamed methods "GET" .get ++ writeNamed methods "POST" .post ++
    writeNamed methods "PUT" .put)

/-- A resource. -/
def writeResource (r : ResourceConfig) : Json :=
  .object [(str "path", .string r.resourcePath),
    (str "name", .string r.resourceName),
    (str "value", .string r.initialValue),
    (str "logfile", .string r.logFile),
    (str "datafile", .string r.dataFile),
    (str "observable", .boolean r.observable),
    (str "dynamic", .boolean r.dynamic),
    (str "maxage", .number r.maxAge),
    (str "methods", writeMethods r.methods)]

/-- The name of a protocol. -/
def transportName : EndpointTransport → Str
  | .none => []
  | .udp => str "udp"
  | .dtls => str "dtls"
  | .tcp => str "tcp"
  | .tls => str "tls"

/-- The endpoint. -/
def writeEndpoint (e : EndpointConfig) : Json :=
  .object [(str "address", .string e.address),
    (str "port", .string e.port),
    (str "logDir", .string e.logDir),
    (str "globalLogFile", .string e.globalLogFile),
    (str "protocol", .string (transportName e.transport)),
    (str "security", .object [(str "key", .string e.key), (str "cert", .string e.cert),
      (str "ca", .string e.ca)])]

/-- **A document for the configuration**, without templates. -/
def writeConfig (c : Config) : Json :=
  .object [(str "endpoint", writeEndpoint c.endpoint),
    (str "resources", .array (c.resources.map writeResource))]

/-! ### What is read is valid -/

theorem parseMethod_valid {json : Json} {type : ResourceMethodType} {m : ResourceMethodConfig}
    (h : parseMethod json type = .ok m) : m.type = type ∧ ValidMethod m := by
  obtain ⟨format, -, h⟩ := bind_eq_ok h
  obtain ⟨cmd, hcmd, h⟩ := bind_eq_ok h
  obtain rfl := Except.ok.inj h
  refine ⟨rfl, ⟨fun hne => ?_, ?_⟩⟩
  · unfold parseCmd at hcmd
    split at hcmd
    · exact absurd (Except.ok.inj hcmd).symm hne
    · split_ifs at hcmd with hlen
      simpa using hlen
  · show Json.getUnsigned json "cmdtimeout" 500 < 2 ^ 32
    unfold Json.getUnsigned
    split <;> omega

/-- The methods of one name: at most one, of the type. -/
theorem parseNamed_valid {methods : Json} {name : String} {type : ResourceMethodType}
    {ms : List ResourceMethodConfig} (h : parseNamed methods name type = .ok ms) :
    (ms.map (·.type)).Sublist [type] ∧ ∀ m ∈ ms, ValidMethod m := by
  unfold parseNamed at h
  split at h
  · obtain rfl := Except.ok.inj h
    exact ⟨List.nil_sublist _, by simp⟩
  · obtain ⟨m, hm, rfl⟩ := map_eq_ok h
    obtain ⟨htype, hvalid⟩ := parseMethod_valid hm
    refine ⟨?_, by simpa using hvalid⟩
    rw [List.map_singleton, htype]

theorem parseMethods_valid {json : Json} {ms : List ResourceMethodConfig}
    (h : parseMethods json = .ok ms) :
    (ms.map (·.type)).Sublist [.get, .post, .put] ∧ ∀ m ∈ ms, ValidMethod m := by
  unfold parseMethods at h
  split at h
  · obtain ⟨get, hget, h⟩ := bind_eq_ok h
    obtain ⟨post, hpost, h⟩ := bind_eq_ok h
    obtain ⟨put, hput, h⟩ := bind_eq_ok h
    obtain rfl := Except.ok.inj h
    obtain ⟨tget, vget⟩ := parseNamed_valid hget
    obtain ⟨tpost, vpost⟩ := parseNamed_valid hpost
    obtain ⟨tput, vput⟩ := parseNamed_valid hput
    refine ⟨?_, ?_⟩
    · rw [List.map_append, List.map_append]
      exact (tget.append tpost).append tput
    · simp only [List.mem_append]
      rintro m ((hm | hm) | hm)
      · exact vget m hm
      · exact vpost m hm
      · exact vput m hm
  · cases h

theorem parseResource_valid {json : Json} {r : ResourceConfig} (h : parseResource json = .ok r) :
    ValidResource r := by
  unfold parseResource at h
  split at h
  · obtain ⟨ms, hms, h⟩ := bind_eq_ok h
    obtain rfl := Except.ok.inj h
    obtain ⟨htypes, hvalid⟩ := parseMethods_valid hms
    refine ⟨htypes, hvalid, ?_⟩
    show Json.getUnsigned json "maxage" 3600 < 2 ^ 32
    unfold Json.getUnsigned
    split <;> omega
  · cases h

/-- The items of a list that was read. -/
theorem valid_of_mapM {f : Json → Except Failure ResourceConfig} {items : List Json}
    {rs : List ResourceConfig} (hf : ∀ json r, f json = .ok r → ValidResource r)
    (h : items.mapM f = .ok rs) : ∀ r ∈ rs, ValidResource r := by
  intro r hr
  obtain ⟨json, -, hread⟩ := exists_of_forall₂_right (mapM_eq_ok_iff.mp h) hr
  exact hf json r hread

theorem parseTemplateResource_valid {json : Json} {r : ResourceConfig}
    (h : parseTemplateResource json = .ok r) : ValidResource r := by
  unfold parseTemplateResource at h
  split_ifs at h
  exact parseResource_valid h

theorem parseTemplate_valid {json : Json} {t : TemplateConfig} (h : parseTemplate json = .ok t) :
    ∀ r ∈ t.resources, ValidResource r := by
  unfold parseTemplate at h
  split at h
  · split at h
    · obtain ⟨rs, hrs, h⟩ := bind_eq_ok h
      obtain rfl := Except.ok.inj h
      exact valid_of_mapM (fun _ _ => parseTemplateResource_valid) hrs
    · cases h
  · cases h

theorem parseTransport_valid {json : Json} {t : EndpointTransport}
    (h : parseTransport json = .ok t) : t ≠ .none := by
  rintro rfl
  unfold parseTransport at h
  split at h
  · cases h
  · split_ifs at h <;> cases h

theorem endpointOf_valid {json : Json} {e : EndpointConfig} (h : endpointOf json = .ok e) :
    e.transport ≠ .none := by
  unfold endpointOf at h
  split at h
  · obtain ⟨t, ht, h⟩ := bind_eq_ok h
    obtain rfl := Except.ok.inj h
    exact parseTransport_valid ht
  · obtain rfl := Except.ok.inj h
    rintro ⟨⟩

/-! ### What is generated is valid -/

/-- An empty command stays empty. -/
theorem ExpandedMethod.valid {inst : TemplateInstance} {m g : ResourceMethodConfig}
    (h : ExpandedMethod inst m g) (hm : ValidMethod m) : ValidMethod g := by
  refine ⟨fun hne => ?_, by rw [h.cmdTimeout]; exact hm.cmdTimeout⟩
  rw [← h.format.length_eq]
  refine hm.cmd fun hnil => hne ?_
  have hcmd := h.cmd
  rw [hnil] at hcmd
  exact eq_of_replace_plain (List.not_mem_nil) hcmd

/-- **A generated resource** has the methods of the template. -/
theorem ExpandedStatic.valid {inst : TemplateInstance} {r g : ResourceConfig}
    (h : ExpandedStatic inst r g) (hr : ValidResource r) : ValidResource g := by
  have htypes : g.methods.map (·.type) = r.methods.map (·.type) := by
    rw [← List.forall₂_eq_eq_eq, List.forall₂_map_left_iff, List.forall₂_map_right_iff]
    exact h.methods.flip.imp fun _ _ hm => hm.type
  refine ⟨htypes ▸ hr.types, fun m hm => ?_, by rw [h.maxAge]; exact hr.maxAge⟩
  obtain ⟨m₀, hm₀, hexp⟩ := exists_of_forall₂_right h.methods hm
  exact ExpandedMethod.valid hexp (hr.methods m₀ hm₀)

/-- **What is read from a document is valid**, templates included. -/
theorem valid_of_read {json : Json} {c : Config} (h : readJson json = .ok c) : Valid c := by
  obtain ⟨d, hd, h⟩ := bind_eq_ok h
  obtain ⟨e, he, hd⟩ := bind_eq_ok hd
  obtain ⟨rs, hrs, hd⟩ := bind_eq_ok hd
  obtain ⟨ts, hts, hd⟩ := bind_eq_ok hd
  obtain ⟨insts, -, hd⟩ := bind_eq_ok hd
  obtain rfl := Except.ok.inj hd
  obtain ⟨blocks, hall, hblocks⟩ := expand_spec h
  have hendpoint : c.endpoint = e := by
    obtain ⟨all, -, h⟩ := bind_eq_ok h
    exact (Except.ok.inj h) ▸ rfl
  refine ⟨hendpoint ▸ endpointOf_valid he, fun r hr => ?_⟩
  rw [hall, List.mem_append, List.mem_flatten] at hr
  rcases hr with hr | ⟨block, hblock, hr⟩
  · exact valid_of_mapM (fun _ _ => parseResource_valid) hrs r hr
  · obtain ⟨inst, -, t, hfirst, hgen⟩ := exists_of_forall₂_right hblocks hblock
    obtain ⟨json, -, ht⟩ := exists_of_forall₂_right (mapM_eq_ok_iff.mp hts) hfirst.mem
    obtain ⟨r₀, hr₀, hgen⟩ := exists_of_forall₂_right hgen hr
    exact ExpandedStatic.valid (generateResource_spec hgen).1 (parseTemplate_valid ht r₀ hr₀)

/-! ### What is valid is read back -/

theorem mapM_stringItem (error : Failure) (strings : List Str) :
    (strings.map Json.string).mapM (stringItem error) = .ok strings := by
  rw [mapM_eq_ok_iff, List.forall₂_map_left_iff]
  exact List.forall₂_same.mpr fun _ _ => rfl

theorem parseMethod_write {m : ResourceMethodConfig} (h : ValidMethod m) :
    parseMethod (writeMethod m) m.type = .ok m := by
  have hformat : parseFormat (writeMethod m) = .ok m.format := mapM_stringItem _ m.format
  have hfind : (writeMethod m).getString "cmd" = if m.cmd = [] then none else some m.cmd := by
    unfold writeMethod
    split_ifs <;> rfl
  have hcmd : parseCmd (writeMethod m) m.format = .ok m.cmd := by
    unfold parseCmd
    by_cases hnil : m.cmd = []
    · rw [hfind, if_pos hnil, hnil]
    · rw [hfind, if_neg hnil]
      exact if_neg (not_not.mpr (h.cmd hnil))
  have htimeout : Json.getUnsigned (writeMethod m) "cmdtimeout" 500 = m.cmdTimeout := by
    show ((m.cmdTimeout : ℤ) % 2 ^ 32).toNat = m.cmdTimeout
    have := h.cmdTimeout
    omega
  unfold parseMethod
  rw [hformat]
  show (parseCmd (writeMethod m) m.format >>= _) = _
  rw [hcmd]
  show Except.ok ({ m with cmdTimeout := Json.getUnsigned (writeMethod m) "cmdtimeout" 500 } :
    ResourceMethodConfig) = .ok m
  rw [htimeout]

/-- Items with different keys, in the order of the keys, are found by their keys. -/
theorem eq_flatMap_find {β κ : Type} [DecidableEq κ] {key : β → κ} :
    ∀ {ks : List κ} {xs : List β}, ks.Nodup → (xs.map key).Sublist ks →
      xs = ks.flatMap fun k => (xs.find? (key · = k)).toList
  | [], xs, _, h => by simpa using h
  | k :: ks, xs, hnodup, h => by
    obtain ⟨hk, hks⟩ := List.nodup_cons.mp hnodup
    rw [List.flatMap_cons]
    rcases List.sublist_cons_iff.mp h with hrest | ⟨r, hr, hrest⟩
    · have hnone : xs.find? (key · = k) = none := by
        rw [List.find?_eq_none]
        intro x hx hkey
        exact hk (hrest.subset (List.mem_map.mpr ⟨x, hx, of_decide_eq_true hkey⟩))
      rw [hnone]
      exact eq_flatMap_find hks hrest
    · obtain ⟨x, xs', rfl, rfl, rfl⟩ := List.map_eq_cons_iff.mp hr
      have hhead : (x :: xs').find? (key · = key x) = some x :=
        List.find?_cons_of_pos (decide_eq_true rfl)
      rw [hhead]
      have htail : ks.flatMap (fun k => ((x :: xs').find? (key · = k)).toList) =
          ks.flatMap fun k => (xs'.find? (key · = k)).toList := by
        refine List.flatMap_congr fun k' hk' => ?_
        have hne : key x ≠ k' := by
          rintro rfl
          exact hk hk'
        exact congrArg _ (List.find?_cons_of_neg (by simpa using hne))
      rw [htail, ← eq_flatMap_find hks hrest]
      rfl

/-- The methods of a valid resource, by their types. -/
theorem methods_eq {ms : List ResourceMethodConfig}
    (h : (ms.map (·.type)).Sublist [.get, .post, .put]) :
    (ms.find? (·.type = .get)).toList ++ (ms.find? (·.type = .post)).toList ++
      (ms.find? (·.type = .put)).toList = ms := by
  conv_rhs => rw [eq_flatMap_find (by decide) h]
  simp

section Named
variable (ms : List ResourceMethodConfig) (type : ResourceMethodType)

theorem lookup_named (name : String) : (writeNamed ms name type).lookup (str name) =
    (ms.find? (·.type = type)).map writeMethod := by
  unfold writeNamed
  cases ms.find? (·.type = type) with
  | none => rfl
  | some m => exact List.lookup_cons_self

theorem lookup_other {name name' : String} (hne : str name' ≠ str name) :
    (writeNamed ms name type).lookup (str name') = none := by
  unfold writeNamed
  cases ms.find? (·.type = type) with
  | none => rfl
  | some m =>
    show List.lookup (str name') [(str name, writeMethod m)] = none
    rw [List.lookup_cons, beq_eq_false_iff_ne.mpr hne]
    rfl

end Named

/-- The method of a name is read back. -/
theorem parseNamed_write {ms : List ResourceMethodConfig} (hvalid : ∀ m ∈ ms, ValidMethod m)
    {fields : List (Str × Json)} {name : String} {type : ResourceMethodType}
    (hfind : fields.lookup (str name) = (ms.find? (·.type = type)).map writeMethod) :
    parseNamed (.object fields) name type = .ok (ms.find? (·.type = type)).toList := by
  have hjson : (Json.object fields).find name = (ms.find? (·.type = type)).map writeMethod := hfind
  unfold parseNamed
  rw [hjson]
  cases hm : ms.find? (·.type = type) with
  | none => rfl
  | some m =>
    have htype : m.type = type := by simpa using List.find?_some hm
    have hread := parseMethod_write (hvalid m (List.mem_of_find?_eq_some hm))
    rw [htype] at hread
    show Except.map _ (parseMethod (writeMethod m) type) = _
    rw [hread]
    rfl

theorem parseMethods_write {r : ResourceConfig} (h : ValidResource r) :
    parseMethods (writeResource r) = .ok r.methods := by
  have hget : parseNamed (writeMethods r.methods) "GET" .get =
      .ok (r.methods.find? (·.type = .get)).toList := by
    refine parseNamed_write h.methods ?_
    rw [List.lookup_append, List.lookup_append, lookup_named, lookup_other _ _ (by decide),
      lookup_other _ _ (by decide), Option.or_none, Option.or_none]
  have hpost : parseNamed (writeMethods r.methods) "POST" .post =
      .ok (r.methods.find? (·.type = .post)).toList := by
    refine parseNamed_write h.methods ?_
    rw [List.lookup_append, List.lookup_append, lookup_named, lookup_other _ _ (by decide),
      lookup_other _ _ (by decide), Option.or_none, Option.none_or]
  have hput : parseNamed (writeMethods r.methods) "PUT" .put =
      .ok (r.methods.find? (·.type = .put)).toList := by
    refine parseNamed_write h.methods ?_
    rw [List.lookup_append, List.lookup_append, lookup_named, lookup_other _ _ (by decide),
      lookup_other _ _ (by decide), Option.or_none, Option.none_or]
  show (parseNamed (writeMethods r.methods) "GET" .get >>= fun get =>
    parseNamed (writeMethods r.methods) "POST" .post >>= fun post =>
    parseNamed (writeMethods r.methods) "PUT" .put >>= fun put =>
    Except.ok (get ++ post ++ put)) = .ok r.methods
  rw [hget, hpost, hput]
  exact congrArg Except.ok (methods_eq h.types)

/-- **A resource is read back.** -/
theorem parseResource_write {r : ResourceConfig} (h : ValidResource r) :
    parseResource (writeResource r) = .ok r := by
  have hage : Json.getUnsigned (writeResource r) "maxage" 3600 = r.maxAge := by
    show ((r.maxAge : ℤ) % 2 ^ 32).toNat = r.maxAge
    have := h.maxAge
    omega
  show (parseMethods (writeResource r) >>= _) = _
  rw [parseMethods_write h]
  show Except.ok ({ r with maxAge := Json.getUnsigned (writeResource r) "maxage" 3600 } :
    ResourceConfig) = .ok r
  rw [hage]

/-- The endpoint is read back. -/
theorem parseEndpoint_write {e : EndpointConfig} (h : e.transport ≠ .none) :
    parseEndpoint (writeEndpoint e) = .ok e := by
  have htransport : parseTransport (writeEndpoint e) = .ok e.transport := by
    show parseTransport (writeEndpoint e) = _
    obtain ⟨address, port, logDir, globalLogFile, transport, key, cert, ca⟩ := e
    cases transport with
    | none => exact absurd rfl h
    | udp | dtls | tcp | tls => rfl
  show (parseTransport (writeEndpoint e) >>= _) = _
  rw [htransport]
  rfl

/-- **What is valid is read back** from its document. -/
theorem read_write {c : Config} (h : Valid c) : readJson (writeConfig c) = .ok c := by
  have hresources : (c.resources.map writeResource).mapM parseResource = .ok c.resources := by
    rw [mapM_eq_ok_iff, List.forall₂_map_left_iff]
    exact List.forall₂_same.mpr fun r hr => parseResource_write (h.resources r hr)
  have hdocument : parseDocument (writeConfig c) = .ok ⟨c.endpoint, c.resources, [], []⟩ := by
    show (endpointOf (writeConfig c) >>= fun endpoint =>
      (c.resources.map writeResource).mapM parseResource >>= fun resources => _) = _
    rw [show endpointOf (writeConfig c) = .ok c.endpoint from parseEndpoint_write h.transport]
    show ((c.resources.map writeResource).mapM parseResource >>= fun resources => _) = _
    rw [hresources]
    rfl
  unfold readJson
  rw [hdocument]
  rfl

/-- **The configurations that are read are the valid ones.** A configuration is read from some document
if and only if it is valid, and if and only if it is read from its own document, which has no templates.
The constructor reads the document that the text of the file is parsed to, whatever the parser is. -/
theorem read_iff_valid (c : Config) :
    ((∃ json, readJson json = .ok c) ↔ Valid c) ∧ (readJson (writeConfig c) = .ok c ↔ Valid c) ∧
      ∀ parse file path, newConfig parse file path = .ok c ↔
        ∃ text json, file = some text ∧ parse text = .ok json ∧ readJson json = .ok c := by
  refine ⟨⟨?_, fun h => ⟨_, read_write h⟩⟩, ⟨valid_of_read, read_write⟩, fun parse file path => ?_⟩
  · rintro ⟨json, hread⟩
    exact valid_of_read hread
  · cases file with
    | none =>
      refine ⟨fun h => ?_, ?_⟩
      · cases h
      · rintro ⟨text, json, htext, -⟩
        cases htext
    | some text =>
      rw [newConfig_readJson]
      constructor
      · intro h
        obtain ⟨json, hparse, hread⟩ := bind_eq_ok h
        exact ⟨text, json, rfl, hparse, hread⟩
      · rintro ⟨text', json, htext, hparse, hread⟩
        obtain rfl := Option.some.inj htext
        rw [hparse]
        exact hread

end CoapServer.Parse.Accepted
