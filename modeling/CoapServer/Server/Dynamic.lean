import CoapServer.Server.Process
import CoapServer.Server.Requests
import CoapServer.Server.Substitute

/-! # Dynamic resources

A resource is attached to the library, which then sends the requests for its path to the handlers
registered for it. A request for a path that is not registered goes to `handleDynamicRequest`, which
looks for the first dynamic configuration whose pattern matches, creates a resource from it, attaches
it and forwards the request. -/

namespace CoapServer.Server.Dynamic

open CoapServer.Basic CoapServer.Config CoapServer.Resources.Object CoapServer.Blocks.SessionData
open CoapServer.Server.World CoapServer.Server.Requests CoapServer.Server.Substitute

variable {κ : Type}

/-! ### Attaching -/

/-- The loop of `attach` over the methods, with the handlers so far. -/
def attachMethods : List ResourceMethod → (ResourceMethodType → Bool) →
    ServerM κ (Option (ResourceMethodType → Bool))
  | [], handles => return some handles
  | m :: ms, handles =>
    match m.getMethodType with
    | .get | .post | .put => do
      writeErr [str "  - Attaching " ++ methStringify m.getMethodType ++ str " handler"]
      attachMethods ms (Function.update handles m.getMethodType true)
    | .delete | .fetch | .patch | .ipatch | .none => do
      writeErr [str "ERROR: Resource::attach: Unhandled ResourceMethodType."]
      return none

/-- `coap_add_resource`, which replaces what is registered at the path. -/
def addResource (path : Str) (reg : Registered) : ServerM κ Unit :=
  modify fun w => { w with registry := Function.update w.registry path (some reg) }

/-- **`Resource::attach`**, for the resource `r` that is at `i`, or will be: what it returns, and the
resource it leaves. A new data file may have room for some bytes only. -/
def attachUpTo (room : Option ℕ) (i : ℕ) (r : Resource) : ServerM κ (ℤ × Resource) := do
  writeErr [str "Attaching resource " ++ r.config.resourcePath]
  match ← attachMethods r.methods fun _ => false with
  | none => return (1, r)
  | some handles =>
    addResource (cStr r.config.resourcePath) { resource := i, handles }
    let r ← onFiles (r.initValueUpTo room)
    return (0, r)

/-- `Resource::attach`, where the data file has room. -/
def attach (i : ℕ) (r : Resource) : ServerM κ (ℤ × Resource) := attachUpTo none i r

/-- The loop of `init` over the resources. -/
def attachAll : List ℕ → ServerM κ ℤ
  | [] => return 0
  | i :: is => do
    let r ← getResource i
    let (ret, r) ← attach i r
    modify fun w => { w with resources := w.resources.set i r }
    if ret ≠ 0 then return 1 else attachAll is

/-- What `CoAPServer::init` does with the resources. -/
def init : ServerM κ ℤ := do attachAll (List.range (← get).resources.length)

/-! ### Requests for unknown paths -/

/-- `std::regex_match`: the groups of a match of a pattern with a whole subject, the subject first,
or the exception of `std::regex`. -/
abbrev Matcher := Str → Str → Except Failure (Option (List Str))

/-- The configuration of the resource for a URI. -/
def dynamicConfig (cfg : ResourceConfig) (uri : Str) (sm : List Str) : ResourceConfig :=
  { cfg with
    resourcePath := uri
    resourceName := regexReplace cfg.resourceName sm
    logFile := regexReplace cfg.logFile sm
    dataFile := regexReplace cfg.dataFile sm }

/-- What the substitutions write to `std::cerr`. -/
def substitutionErr (cfg : ResourceConfig) (sm : List Str) : List Str :=
  regexReplaceErr cfg.resourceName sm ++ regexReplaceErr cfg.logFile sm ++
    regexReplaceErr cfg.dataFile sm

/-- The creation of a resource: whether it could be attached. It is then the last one. -/
def createResource (config : ResourceConfig) : ServerM κ Bool := do
  let w ← get
  let r ← onFiles (create config w.logDir)
  let (ret, r) ← attach w.resources.length r
  if ret ≠ 0 then return false
  else
    modify fun w => { w with resources := w.resources ++ [r] }
    return true

variable [DecidableEq κ]

section Handler
variable (re : Matcher) (req : Request κ) (type : ResourceMethodType) (env : Env) (resp : Response)

/-- `handleDynamicRequest` on the configuration that matches. -/
def handleMatch (cfg : ResourceConfig) (uri : Str) (sm : List Str) : ServerM κ Response := do
  if ∀ c ∈ cfg.methods, c.type ≠ type then
    writeErr [str "ERROR: Bad method on dynamic resource " ++ cfg.resourcePath]
    return { resp with code := .notAllowed }
  else
    let i := (← get).resources.length
    writeErr (substitutionErr cfg sm)
    if ← createResource (dynamicConfig cfg uri sm) then
      -- the first request is forwarded by hand
      handleCoAPRequest i req type env resp
    else
      writeErr [str "ERROR: Could not attach Resource object"]
      return { resp with code := .internalError }

/-- The loop of `handleDynamicRequest` over the configurations. -/
def handleConfigs (uri : Str) : List ResourceConfig → ServerM κ Response
  | [] => do
    writeErr [str "Unhandled Dynamic URI: " ++ uri]
    return { resp with code := .notFound }
  | cfg :: cfgs =>
    match re cfg.resourcePath uri with
    | .error e => throw e
    | .ok none => handleConfigs uri cfgs
    | .ok (some sm) => handleMatch req type env resp cfg uri sm

/-- **`CoAPServer::handleDynamicRequest`**, by what `coap_get_uri_path` returns. -/
def handleDynamicRequest (uri : Option Str) : ServerM κ Response := do
  match uri with
  | none => return { resp with code := .notFound }
  | some uri => handleConfigs re req type env resp (cStr uri) (← get).dynamicResources

/-! ### The library -/

/-- The path of a request. The library writes a zero byte as `%00`. -/
structure Uri where
  path : Str
  noZero : 0 ∉ path

/-- **How the library serves a `GET`, `PUT` or `POST`**: by the handler registered for its path, where
there is none for its method with `NOT_ALLOWED`, and where the path is unknown by the handler for
unknown resources, which `init` registers if there are dynamic configurations. -/
def serve (uri : Uri) : ServerM κ Response := do
  match (← get).registry uri.path with
  | some reg =>
    if reg.handles type then handleCoAPRequest reg.resource req type env resp
    else return { resp with code := .notAllowed }
  | none =>
    if (← get).dynamicResources = [] then return { resp with code := .notFound }
    else handleDynamicRequest re req type env resp (some uri.path)

end Handler

end CoapServer.Server.Dynamic
