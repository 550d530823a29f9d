import CoapServer.Config
import CoapServer.Parse.Replace

/-! # Reading the configuration

The constructors of the configuration read a JSON document. Resources are listed by themselves or
generated from templates, one for each resource of a template and each instance of it, with the
arguments of the instance put into the strings. -/

namespace CoapServer.Parse.Constructors

open CoapServer.Basic CoapServer.Config CoapServer.Parse.Replace

/-! ### JSON -/

/-- **`nlohmann::json`.** Of a number, only its integral part is used. -/
inductive Json where
  | null
  | boolean (b : Bool)
  | number (n : ℤ)
  | string (s : Str)
  | array (items : List Json)
  | object (fields : List (Str × Json))

/-- `contains` and the element; there is none in anything but an object. -/
def Json.find (json : Json) (name : String) : Option Json :=
  match json with
  | .object fields => fields.lookup (str name)
  | .null | .boolean _ | .number _ | .string _ | .array _ => none

/-- `is_object`. -/
def Json.isObject : Json → Bool
  | .object _ => true
  | .null | .boolean _ | .number _ | .string _ | .array _ => false

/-- `_getString`. -/
def Json.getString (json : Json) (name : String) : Option Str :=
  match json.find name with
  | some (.string s) => some s
  | _ => none

/-- A boolean element, or the default. -/
def Json.getBool (json : Json) (name : String) (default : Bool) : Bool :=
  match json.find name with
  | some (.boolean b) => b
  | _ => default

/-- A number converted to `unsigned int`, or the default. -/
def Json.getUnsigned (json : Json) (name : String) (default : ℕ) : ℕ :=
  match json.find name with
  | some (.number n) => (n % 2 ^ 32).toNat
  | _ => default

/-- The items of an array element. -/
def Json.getArray (json : Json) (name : String) : Option (List Json) :=
  match json.find name with
  | some (.array items) => some items
  | _ => none

/-- An item that has to be a string. -/
def stringItem (error : Failure) : Json → Except Failure Str
  | .string s => .ok s
  | .null | .boolean _ | .number _ | .array _ | .object _ => .error error

/-! ### Resources -/

/-- The formats of a method. -/
def parseFormat (json : Json) : Except Failure (List Str) :=
  let error := .runtimeError (str "ERROR: Resource method format is of incorrect type")
  match json.find "format" with
  | none => .ok []
  | some (.string s) => .ok [s]
  | some (.array items) => items.mapM (stringItem error)
  | some _ => .error error

/-- The command of a method, which needs a single format. -/
def parseCmd (json : Json) (format : List Str) : Except Failure Str :=
  match json.getString "cmd" with
  | none => .ok []
  | some cmd =>
    if format.length ≠ 1 then
      .error (.runtimeError
        (str "ERROR: cmd can only be used on a resource method with a single formatter selected."))
    else .ok cmd

/-- **`ResourceMethodConfig::ResourceMethodConfig`.** -/
def parseMethod (json : Json) (type : ResourceMethodType) : Except Failure ResourceMethodConfig := do
  let format ← parseFormat json
  let cmd ← parseCmd json format
  return {
    type
    format
    printValue := json.getBool "print" false
    logValue := json.getBool "log" false
    store := json.getBool "store" false
    cmd
    cmdStdin := json.getBool "cmdstdin" false
    cmdTimeout := json.getUnsigned "cmdtimeout" 500
    cmdLogInput := json.getBool "cmdloginput" false }

/-- The method of a name, where the resource has it. -/
def parseNamed (methods : Json) (name : String) (type : ResourceMethodType) :
    Except Failure (List ResourceMethodConfig) :=
  match methods.find name with
  | none => .ok []
  | some json => (parseMethod json type).map fun m => [m]

/-- The methods of a resource. -/
def parseMethods (json : Json) : Except Failure (List ResourceMethodConfig) :=
  match json.find "methods" with
  | some (.object fields) => do
    let get ← parseNamed (.object fields) "GET" .get
    let post ← parseNamed (.object fields) "POST" .post
    let put ← parseNamed (.object fields) "PUT" .put
    return get ++ post ++ put
  | _ => .error (.runtimeError (str "ERROR: Resource does not include any methods!"))

/-- **`ResourceConfig::ResourceConfig`.** -/
def parseResource (json : Json) : Except Failure ResourceConfig := do
  let some resourcePath := json.getString "path"
    | throw (.runtimeError (str "ERROR: Resource does not include resource path!"))
  let methods ← parseMethods json
  return {
    resourceName := (json.getString "name").getD []
    resourcePath
    logFile := (json.getString "logfile").getD []
    initialValue := (json.getString "value").getD []
    dataFile := (json.getString "datafile").getD []
    maxAge := json.getUnsigned "maxage" 3600
    observable := json.getBool "observable" false
    dynamic := json.getBool "dynamic" false
    methods }

/-! ### Templates -/

/-- `TemplateConfig`. -/
structure TemplateConfig where
  templateName : Str := []
  templateIdent : Str
  resources : List ResourceConfig

/-- **`TemplateInstance::TemplateInstance`.** -/
def parseInstance (json : Json) : Except Failure TemplateInstance := do
  let some templateId := json.getString "template"
    | throw (.runtimeError
        (str "ERROR: Template instance does not include template identifier!"))
  let some args := json.getArray "template-args"
    | throw (.runtimeError (str "ERROR: Template instance does not include arguemnts!"))
  let templateArgs ← args.mapM (stringItem
    (.runtimeError (str "ERROR: Template instance argument is not a string!")))
  -- a list of more elements has no memory
  if fits : templateArgs.length < sizeMod then return { templateId, templateArgs, fits }
  else throw .badAlloc

/-- A resource of a template, which has to be an object. -/
def parseTemplateResource (json : Json) : Except Failure ResourceConfig :=
  if json.isObject then parseResource json
  else .error (.runtimeError (str "ERROR: Template resource config item is not an object!"))

/-- **`TemplateConfig::TemplateConfig`.** -/
def parseTemplate (json : Json) : Except Failure TemplateConfig := do
  let some templateIdent := json.getString "ident"
    | throw (.runtimeError (str "ERROR: Template config does not include identifier!"))
  let some items := json.getArray "resources"
    | throw (.runtimeError (str "ERROR: Template config does not contain resources!"))
  let resources ← items.mapM parseTemplateResource
  return { templateName := (json.getString "name").getD [], templateIdent, resources }

/-- A generated method. -/
def generateMethod (inst : TemplateInstance) (m : ResourceMethodConfig) :
    Except Failure ResourceMethodConfig := do
  let format ← m.format.mapM fun f => templateReplace f inst
  let cmd ← templateReplace m.cmd inst
  return {
    type := m.type
    format
    printValue := m.printValue
    logValue := m.logValue
    store := m.store
    cmd
    cmdStdin := m.cmdStdin
    cmdTimeout := m.cmdTimeout
    cmdLogInput := m.cmdLogInput }

/-- A generated resource. It is not `dynamic`: the field keeps its default. -/
def generateResource (inst : TemplateInstance) (r : ResourceConfig) :
    Except Failure ResourceConfig := do
  let resourceName ← templateReplace r.resourceName inst
  let resourcePath ← templateReplace r.resourcePath inst
  let logFile ← templateReplace r.logFile inst
  let dataFile ← templateReplace r.dataFile inst
  let initialValue ← templateReplace r.initialValue inst
  let methods ← r.methods.mapM (generateMethod inst)
  return {
    resourceName
    resourcePath
    logFile
    dataFile
    initialValue
    maxAge := r.maxAge
    observable := r.observable
    methods }

/-- **`TemplateConfig::GenerateResources`.** -/
def TemplateConfig.generateResources (t : TemplateConfig) (resources : List ResourceConfig)
    (inst : TemplateInstance) : Except Failure (List ResourceConfig) := do
  let generated ← t.resources.mapM (generateResource inst)
  return resources ++ generated

/-- The loop over the instances: each generates the resources of the first template with its
identifier. -/
def generateAll (templates : List TemplateConfig) :
    List TemplateInstance → List ResourceConfig → Except Failure (List ResourceConfig)
  | [], resources => .ok resources
  | inst :: insts, resources =>
    match templates.find? fun t => t.templateIdent = inst.templateId with
    | none => .error (.runtimeError
        (str "Could not find desired template identifier: " ++ inst.templateId))
    | some t => do
      let resources ← t.generateResources resources inst
      generateAll templates insts resources

/-! ### The configuration -/

/-- `EndpointTransport`. -/
inductive EndpointTransport where
  | none
  | udp
  | dtls
  | tcp
  | tls
  deriving DecidableEq, Repr

/-- `EndpointConfig`, with its security settings. -/
structure EndpointConfig where
  address : Str := str "0.0.0.0"
  port : Str := str "5683"
  logDir : Str := []
  globalLogFile : Str := str "coap_server.log"
  transport : EndpointTransport := .udp
  key : Str := []
  cert : Str := []
  ca : Str := []

/-- The protocol of an endpoint. -/
def parseTransport (json : Json) : Except Failure EndpointTransport :=
  match json.getString "protocol" with
  | none => .ok .udp
  | some proto =>
    if proto = str "udp" then .ok .udp
    else if proto = str "dtls" then .ok .dtls
    else if proto = str "tcp" then .ok .tcp
    else if proto = str "tls" then .ok .tls
    else .error (.runtimeError
      (str "ERROR: Endpoint transport protocol \"" ++ proto ++ str "\" not recognized!"))

/-- **`EndpointConfig::EndpointConfig`.** -/
def parseEndpoint (json : Json) : Except Failure EndpointConfig := do
  let transport ← parseTransport json
  -- anything but an object contains nothing
  let security := (json.find "security").getD .null
  return {
    address := (json.getString "address").getD (str "0.0.0.0")
    port := (json.getString "port").getD (str "5683")
    logDir := (json.getString "logDir").getD []
    globalLogFile := (json.getString "globalLogFile").getD (str "coap_server.log")
    transport
    key := (security.getString "key").getD []
    cert := (security.getString "cert").getD []
    ca := (security.getString "ca").getD [] }

/-- **`Config`.** -/
structure Config where
  endpoint : EndpointConfig
  resources : List ResourceConfig

/-- What the document says before the templates are expanded. -/
structure Document where
  endpoint : EndpointConfig
  resources : List ResourceConfig
  templates : List TemplateConfig
  templateInstances : List TemplateInstance

/-- The endpoint, where the document has one. -/
def endpointOf (json : Json) : Except Failure EndpointConfig :=
  match json.find "endpoint" with
  | some (.object fields) => parseEndpoint (.object fields)
  | _ => .ok {}

/-- The four parts of the document, in the order they are read. -/
def parseDocument (json : Json) : Except Failure Document := do
  let endpoint ← endpointOf json
  let resources ← ((json.getArray "resources").getD []).mapM parseResource
  let templates ← ((json.getArray "templates").getD []).mapM parseTemplate
  let templateInstances ← ((json.getArray "template-instances").getD []).mapM parseInstance
  return { endpoint, resources, templates, templateInstances }

/-- The rest of the constructor: the instances are expanded behind the explicit resources. -/
def Document.expand (d : Document) : Except Failure Config := do
  let resources ← generateAll d.templates d.templateInstances d.resources
  return { endpoint := d.endpoint, resources }

/-- **`Config::Config`**, by what the file contains, if it can be read, and how its text is parsed. -/
def newConfig (parse : Str → Except Failure Json) (file : Option Str) (path : Str) :
    Except Failure Config := do
  match file with
  | none => throw (.runtimeError (str "Could not open config file '" ++ path ++ str "' for reading!"))
  | some text =>
    let json ← parse text
    let d ← parseDocument json
    d.expand

/-- What the constructor does with a document. -/
def readJson (json : Json) : Except Failure Config := do
  let d ← parseDocument json
  d.expand

theorem newConfig_readJson (parse : Str → Except Failure Json) (text path : Str) :
    newConfig parse (some text) path = parse text >>= readJson :=
  rfl

/-! ### The text of a document -/

/-- A byte in a string, with an escape where it needs one. -/
def escapeByte (c : Byte) : Str :=
  if c = 0x22 ∨ c = 0x5c then [0x5c, c]
  else if c < 0x10 then str "\\u000" ++ [UInt8.ofNat (Nat.digitChar c.toNat).toNat]
  else if c < 0x20 then str "\\u001" ++ [UInt8.ofNat (Nat.digitChar (c.toNat - 0x10)).toNat]
  else [c]

def dumpString (s : Str) : Str := str "\"" ++ s.flatMap escapeByte ++ str "\""

mutual

/-- **The text of a document.** -/
def Json.dump : Json → Str
  | .null => str "null"
  | .boolean b => if b then str "true" else str "false"
  | .number n => str (toString n)
  | .string s => dumpString s
  | .array items => str "[" ++ dumpItems items ++ str "]"
  | .object fields => str "\x7b" ++ dumpFields fields ++ str "\x7d"

/-- The items of an array. -/
def dumpItems : List Json → Str
  | [] => []
  | [item] => item.dump
  | item :: items => item.dump ++ str "," ++ dumpItems items

/-- The fields of an object. -/
def dumpFields : List (Str × Json) → Str
  | [] => []
  | [(name, json)] => dumpString name ++ str ":" ++ json.dump
  | (name, json) :: fields => dumpString name ++ str ":" ++ json.dump ++ str "," ++ dumpFields fields

end

/-- A parser that knows one text. -/
def parserOf (json : Json) (text : Str) : Except Failure Json :=
  if text = json.dump then .ok json else .error (.runtimeError (str "parse error"))

theorem parserOf_dump (json : Json) : parserOf json json.dump = .ok json := if_pos rfl

theorem newConfig_dump (json : Json) (path : Str) :
    newConfig (parserOf json) (some json.dump) path = readJson json := by
  rw [newConfig_readJson, parserOf_dump]
  rfl

example : (Json.object [(str "port", .number 5683), (str "key", .string (str "a\"b"))]).dump =
    str "\x7b\"port\":5683,\"key\":\"a\\\"b\"\x7d" := by decide

end CoapServer.Parse.Constructors
