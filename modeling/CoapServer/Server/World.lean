import CoapServer.Blocks.SessionData
import CoapServer.Queue.Sequential
import CoapServer.Resources.Object

/-! # The server

The state of the server: its resources, the dynamic configurations, the resources registered with
the library, the request queue, the cache of the sessions, the files and what was written to the
standard streams. A call runs in `EStateM` over it. A resource is named by its place in `resources`,
a method by its resource and its place there. -/

namespace CoapServer.Server.World

open CoapServer.Basic CoapServer.Config CoapServer.Resources.Files CoapServer.Resources.Object
open CoapServer.Blocks.SessionData CoapServer.Queue.Sequential

/-- `timeval`. -/
structure Time where
  sec : ℕ
  usec : ℕ
  deriving DecidableEq, Inhabited

/-- A pointer to a method of a resource. -/
structure MethodRef where
  resource : ℕ
  method : ℕ
  deriving DecidableEq, Inhabited

/-- **An item of the request queue.** -/
structure RequestQueueItem where
  src : MethodRef
  data : Str
  time : Time
  deriving DecidableEq, Inhabited

/-- Response codes. -/
inductive Code where
  | empty
  | ok
  | content
  | continue_
  | notFound
  | notAllowed
  | internalError
  deriving DecidableEq, Repr

/-- Message types. -/
inductive MessageType where
  | con
  | non
  | ack
  | rst
  deriving DecidableEq, Repr

/-- The options the server adds. -/
inductive OptionNumber where
  | uriPath
  | contentFormat
  | maxAge
  deriving DecidableEq, Repr

/-- **A response**, as the handlers fill it in. -/
structure Response where
  code : Code
  type : MessageType
  options : List (OptionNumber × Str)
  data : Option Str
  deriving DecidableEq

/-- `coap_add_option`. -/
def Response.addOption (resp : Response) (number : OptionNumber) (value : Str) : Response :=
  { resp with options := resp.options ++ [(number, value)] }

/-- What `coap_add_resource` registers at a path: the resource and the methods with a handler. -/
structure Registered where
  resource : ℕ
  handles : ResourceMethodType → Bool

/-- **`CoAPServer`**, with what its calls work on. -/
structure CoAPServer (κ : Type) where
  logDir : Str
  dynamicResources : List ResourceConfig
  resources : List Resource
  registry : Str → Option Registered
  queue : RequestQueue RequestQueueItem
  cache : Cache κ
  fs : FileSystem
  stdout : List Str
  stderr : List Str

/-- A call on the server. -/
abbrev ServerM (κ : Type) := EStateM Failure (CoAPServer κ)

variable {κ β : Type}

/-- A call on the queue. -/
def onQueue (m : QueueM RequestQueueItem β) : ServerM κ β := fun w =>
  match m.run w.queue with
  | .ok b q => .ok b { w with queue := q }
  | .error e q => .error e { w with queue := q }

/-- A call on the files. -/
def onFiles (m : FsM β) : ServerM κ β := fun w =>
  match m.run w.fs with
  | .ok b fs => .ok b { w with fs }
  | .error e fs => .error e { w with fs }

/-- The resource at a place. -/
def getResource (i : ℕ) : ServerM κ Resource := do
  match (← get).resources[i]? with
  | some r => return r
  | none => throw (.outOfBounds i)

/-- Lines on `std::cerr`. -/
def writeErr (lines : List Str) : ServerM κ Unit :=
  modify fun w => { w with stderr := w.stderr ++ lines }

/-- A line on `std::cout`. -/
def writeOut (line : Str) : ServerM κ Unit :=
  modify fun w => { w with stdout := w.stdout ++ [line] }

section Run
variable {w : CoAPServer κ}

theorem onQueue_ok {m : QueueM RequestQueueItem β} {b : β} {q : RequestQueue RequestQueueItem}
    (h : m.run w.queue = .ok b q) : (onQueue m).run w = .ok b { w with queue := q } := by
  simp only [onQueue, EStateM.run, EStateM.run] at h ⊢
  rw [h]

theorem onQueue_error {m : QueueM RequestQueueItem β} {e : Failure}
    {q : RequestQueue RequestQueueItem} (h : m.run w.queue = .error e q) :
    (onQueue m).run w = .error e { w with queue := q } := by
  simp only [onQueue, EStateM.run] at h ⊢
  rw [h]

theorem onFiles_ok {m : FsM β} {b : β} {fs : FileSystem} (h : m.run w.fs = .ok b fs) :
    (onFiles m).run w = .ok b { w with fs } := by
  simp only [onFiles, EStateM.run] at h ⊢
  rw [h]

theorem onFiles_error {m : FsM β} {e : Failure} {fs : FileSystem} (h : m.run w.fs = .error e fs) :
    (onFiles m).run w = .error e { w with fs } := by
  simp only [onFiles, EStateM.run] at h ⊢
  rw [h]

theorem getResource_run {i : ℕ} {r : Resource} (h : w.resources[i]? = some r) :
    (getResource i).run w = .ok r w := by
  simp only [getResource, EStateM.run_bind, EStateM.run_get, h, EStateM.run_pure]

theorem writeErr_run (lines : List Str) :
    (writeErr lines).run w = .ok ⟨⟩ { w with stderr := w.stderr ++ lines } := rfl

theorem writeOut_run (line : Str) :
    (writeOut line).run w = .ok ⟨⟩ { w with stdout := w.stdout ++ [line] } := rfl

end Run

end CoapServer.Server.World
