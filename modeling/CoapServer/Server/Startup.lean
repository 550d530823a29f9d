import CoapServer.Parse.Constructors
import CoapServer.Server.Dispatch

/-! # The start of the server

`main` reads the configuration, constructs the server and calls `init`. The constructor makes a
resource from every configuration that is not dynamic; the dynamic ones it stores as they are.
`started_layout` says what the server looks like when `init` has returned. -/

namespace CoapServer.Server.Startup

open CoapServer.Basic CoapServer.Config CoapServer.Lib.Frame CoapServer.Parse.Constructors
open CoapServer.Resources.Files CoapServer.Resources.Object CoapServer.Blocks.SessionData
open CoapServer.Queue.Sequential CoapServer.Server.World CoapServer.Server.Dynamic
open CoapServer.Server.Machine CoapServer.Server.Dispatch

variable {κ : Type}

/-- What the library and the network answer while the server starts. -/
structure Library where
  dtlsIsSupported : Bool
  tlsIsSupported : Bool
  resolveAddress : Bool
  newContext : Bool
  setupSecurity : Bool
  newEndpoint : Bool

/-- The log directory of the command line, where there is one. -/
def overrideLogDir (logDir : Str) (config : Config) : Config :=
  if logDir ≠ [] then { config with endpoint := { config.endpoint with logDir } } else config

/-! ### The constructor -/

/-- The global log file is opened. -/
def openGlobalLog (e : EndpointConfig) : FsM Unit := do
  let path := logPath e.logDir e.globalLogFile
  if !(← openAppend path) then
    throw (.runtimeError (str "Failed to open global log file `" ++ path ++ str "`"))

/-- The library supports the transport. -/
def checkTransport (lib : Library) (e : EndpointConfig) : FsM Unit :=
  if e.transport = .dtls ∧ lib.dtlsIsSupported = false then
    throw (.runtimeError (str
      "ERROR: Configured for DTLS, but libcoap was not compiled with DTLS support!"))
  else if e.transport = .tls ∧ lib.tlsIsSupported = false then
    throw (.runtimeError (str
      "ERROR: Configured for TLS, but libcoap was not compiled with TLS support!"))
  else pure ⟨⟩

/-- The loop of the constructor over the configurations, with what it has so far. -/
def addResources (logDir : Str) : List ResourceConfig → List ResourceConfig → List Resource →
    FsM (List ResourceConfig × List Resource)
  | [], dynamic, resources => return (dynamic, resources)
  | cfg :: cfgs, dynamic, resources =>
    if cfg.dynamic then addResources logDir cfgs (dynamic ++ [cfg]) resources
    else do
      let r ← create cfg logDir
      addResources logDir cfgs dynamic (resources ++ [r])

/-- **`CoAPServer::CoAPServer`.** -/
def newServer (lib : Library) (config : Config) (queue : RequestQueue RequestQueueItem) :
    FsM (CoAPServer κ) := do
  openGlobalLog config.endpoint
  checkTransport lib config.endpoint
  let (dynamicResources, resources) ← addResources config.endpoint.logDir config.resources [] []
  return {
    logDir := config.endpoint.logDir
    dynamicResources
    resources
    registry := fun _ => none
    queue
    cache := Cache.empty
    fs := ← get
    stdout := []
    stderr := [] }

/-! ### `init` -/

/-- What goes wrong before the endpoint is made. -/
def contextErr (lib : Library) (e : EndpointConfig) : List Str :=
  (if lib.resolveAddress = false then [str "ERROR: Failed to resolve address."]
    else if lib.newContext = false then [str "ERROR: Could not create CoAP context."] else []) ++
  if (e.transport = .dtls ∨ e.transport = .tls) ∧ lib.setupSecurity = false then
    [str "ERROR: Could not set up security."] else []

/-- **`CoAPServer::init`.** -/
def initServer (lib : Library) (e : EndpointConfig) : ServerM κ ℤ := do
  writeErr [str "Binding to " ++ e.address ++ str ":" ++ e.port]
  writeErr (contextErr lib e)
  if contextErr lib e ≠ [] then return 1
  else if lib.newEndpoint = false then
    writeErr [str "ERROR: Could not add CoAP endpoint."]
    return 1
  else init

/-- **The server has started**: `config` was read and its log directory overridden, the server was
constructed, and `init` has returned `0`. -/
def Started (parse : Str → Except Failure Json) (file : Option Str) (path logDir : Str)
    (lib : Library) (queue : RequestQueue RequestQueueItem) (fs : FileSystem) (config : Config)
    (w : CoAPServer κ) : Prop :=
  newConfig parse file path = .ok config ∧ ∃ wp fs',
    (newServer lib (overrideLogDir logDir config) queue).run fs = .ok wp fs' ∧
    (initServer lib (overrideLogDir logDir config).endpoint).run wp = .ok 0 w

/-! ### What is there when the server has started -/

/-- The configurations that are not dynamic. -/
def staticConfigs (config : Config) : List ResourceConfig := config.resources.filter (!·.dynamic)

/-- The dynamic configurations. -/
def dynamicConfigs (config : Config) : List ResourceConfig := config.resources.filter (·.dynamic)

theorem overrideLogDir_resources (logDir : Str) (config : Config) :
    (overrideLogDir logDir config).resources = config.resources := by
  unfold overrideLogDir
  split_ifs <;> rfl

/-- **The loop over the configurations** keeps the dynamic ones and makes resources of the others. -/
theorem addResources_spec (logDir : Str) (cfgs : List ResourceConfig) : ∀ dynamic resources,
    Yields (fun p : List ResourceConfig × List Resource =>
        p.1 = dynamic ++ cfgs.filter (·.dynamic) ∧
        p.2.map (·.config) = resources.map (·.config) ++ cfgs.filter (!·.dynamic))
      (addResources logDir cfgs dynamic resources) := by
  induction cfgs with
  | nil =>
    intro dynamic resources
    exact Yields.pure ⟨by simp, by simp⟩
  | cons cfg cfgs ih =>
    intro dynamic resources
    unfold addResources
    cases hdyn : cfg.dynamic with
    | true =>
      have hnext := ih (dynamic ++ [cfg]) resources
      simpa [hdyn] using hnext
    | false =>
      refine Yields.bind (create_spec cfg logDir) fun r hr => ?_
      have hnext := ih dynamic (resources ++ [r])
      simpa [hdyn, hr.1] using hnext

/-- **What the constructor leaves.** -/
theorem newServer_spec (lib : Library) (config : Config) (queue : RequestQueue RequestQueueItem) :
    Yields (fun w : CoAPServer κ => w.dynamicResources = dynamicConfigs config ∧
        w.resources.map (·.config) = staticConfigs config ∧ (w.registry = fun _ => none) ∧
        w.queue = queue ∧ w.logDir = config.endpoint.logDir)
      (newServer lib config queue) := by
  refine Yields.bind_any fun _ => Yields.bind_any fun _ => ?_
  refine Yields.bind (addResources_spec _ _ [] []) fun p hp => ?_
  obtain ⟨dynamic, resources⟩ := p
  obtain ⟨hdynamic, hresources⟩ := hp
  refine Yields.bind_any fun fs => Yields.pure ⟨?_, ?_, rfl, rfl, rfl⟩
  · simpa [dynamicConfigs] using hdynamic
  · simpa [staticConfigs] using hresources

/-- An `init` that returns `0` has attached the resources. -/
theorem initServer_ok {lib : Library} {e : EndpointConfig} {w w' : CoAPServer κ}
    (h : (initServer lib e).run w = .ok 0 w') : ∃ err,
    init.run { w with stderr := err } = .ok 0 w' := by
  simp only [initServer, EStateM.run_bind, writeErr_run] at h
  split_ifs at h
  · cases h
  · simp only [EStateM.run_bind, writeErr_run] at h
    cases h
  · exact ⟨_, h⟩

/-- **The layout of a server that has started.** -/
theorem started_layout {parse : Str → Except Failure Json} {file : Option Str} {path logDir : Str}
    {lib : Library} {queue : RequestQueue RequestQueueItem} {fs : FileSystem} {config : Config}
    {w : CoAPServer κ} (h : Started parse file path logDir lib queue fs config w) :
    Attached (layout w) ∧ w.dynamicResources = dynamicConfigs config ∧
      w.resources.map (·.config) = staticConfigs config := by
  obtain ⟨-, wp, fs', hnew, hinit⟩ := h
  obtain ⟨hdynamic, hstatic, hregistry, -, -⟩ := newServer_spec lib _ queue _ _ _ hnew
  obtain ⟨err, hinit⟩ := initServer_ok hinit
  obtain ⟨hatt, hdyn, hobjects⟩ := init_attached (w := { wp with stderr := err }) hregistry hinit
  have hconfigs : ∀ w : CoAPServer κ, (layout w).objects.map Prod.fst = w.resources.map (·.config) :=
    fun w => by simp [layout]
  refine ⟨hatt, ?_, ?_⟩
  · have hdyn : w.dynamicResources = wp.dynamicResources := hdyn
    rw [hdyn, hdynamic, dynamicConfigs, dynamicConfigs, overrideLogDir_resources]
  · rw [← hconfigs w, hobjects, hconfigs]
    show wp.resources.map (·.config) = _
    rw [hstatic, staticConfigs, staticConfigs, overrideLogDir_resources]

end CoapServer.Server.Startup
