import CoapServer.Lib.Run
import CoapServer.Server.Creation
import CoapServer.Server.Process

/-! # The server as a machine

A step of the server is a request, a round of the queue thread, a round of the thread that polls the
data files, or anything that happens to the files from outside. All but a request that creates a
resource leave the `layout` of the server: the configurations, what is registered and the resources
with their configurations and methods. -/

namespace CoapServer.Server.Machine

open CoapServer.Basic CoapServer.Config CoapServer.Lib.Frame CoapServer.Resources.Files
open CoapServer.Resources.Formatter CoapServer.Resources.Object CoapServer.Blocks.SessionData
open CoapServer.Queue.Sequential CoapServer.Server.World CoapServer.Server.Requests
open CoapServer.Server.Process CoapServer.Server.Dynamic CoapServer.Server.Creation

variable {κ : Type} [DecidableEq κ]

/-- A poll of the resource at a place. -/
def updateAt (i : ℕ) : ServerM κ Unit := do
  let r ← getResource i
  let r ← onFiles r.valueUpdate
  modify fun w => { w with resources := w.resources.set i r }

/-- The loop of `CoAPServer::valueUpdate`. -/
def updateAll : List ℕ → ServerM κ Unit
  | [] => return
  | i :: is => do
    updateAt i
    updateAll is

/-- `CoAPServer::valueUpdate`. -/
def valueUpdate : ServerM κ Unit := do updateAll (List.range (← get).resources.length)

/-- A step of the server. -/
inductive Label (κ : Type) where
  | request (uri : Uri) (req : Request κ) (type : ResourceMethodType) (env : Env) (resp : Response)
  | consume (env : ProcEnv)
  | poll
  | files (fs : FileSystem)

/-- The state a call leaves, where it returns. -/
def after {β : Type} (m : ServerM κ β) (w : CoAPServer κ) : Option (CoAPServer κ) :=
  match m.run w with
  | .ok _ w' => some w'
  | .error _ _ => none

/-- **The step**; `none` for other methods, and where the call throws. -/
def step (re : Matcher) (w : CoAPServer κ) : Label κ → Option (CoAPServer κ)
  | .request uri req type env resp =>
    if Queueable type then after (serve re req type env resp uri) w else none
  | .consume env => after (consume env) w
  | .poll => after valueUpdate w
  | .files fs => some { w with fs }

/-! ### The layout -/

/-- What requests are dispatched by. -/
structure Layout where
  logDir : Str
  dynamicResources : List ResourceConfig
  registry : Str → Option Registered
  objects : List (ResourceConfig × List ResourceMethod)

/-- **The layout of a server.** -/
def layout (w : CoAPServer κ) : Layout :=
  ⟨w.logDir, w.dynamicResources, w.registry, w.resources.map fun r => (r.config, r.methods)⟩

section Keeps
variable {β γ : Type} {f : CoAPServer κ → γ}

omit [DecidableEq κ]

/-- **A view that shows no outputs**: neither the files nor the standard streams. -/
def Inward (f : CoAPServer κ → γ) : Prop :=
  ∀ w fs out err, f { w with fs := fs, stdout := out, stderr := err } = f w

/-- **A view that shows neither outputs nor values**: the files, the standard streams and the values
of the objects. -/
structure Steady (f : CoAPServer κ → γ) : Prop where
  outputs : ∀ w fs out err, f { w with fs := fs, stdout := out, stderr := err } = f w
  value : ∀ w (i : ℕ) (r r' : Resource), w.resources[i]? = some r → SameObject r r' →
    f { w with resources := w.resources.set i r' } = f w

/-- An object that differs in value only. -/
theorem layout_set {w : CoAPServer κ} {i : ℕ} {r r' : Resource} (hr : w.resources[i]? = some r)
    (h : SameObject r r') : layout { w with resources := w.resources.set i r' } = layout w := by
  have hi : (w.resources.map fun r => (r.config, r.methods))[i]? = some (r'.config, r'.methods) := by
    rw [List.getElem?_map, hr, Option.map_some, h.config, h.methods]
  obtain ⟨hlt, hget⟩ := List.getElem?_eq_some_iff.mp hi
  simp only [layout, List.map_set, ← hget, List.set_getElem_self]

theorem steady_layout : Steady (layout : CoAPServer κ → Layout) :=
  ⟨fun _ _ _ _ => rfl, fun _ _ _ _ => layout_set⟩

theorem onFiles_eq_ok {m : FsM β} {w w' : CoAPServer κ} {b : β}
    (h : (onFiles m).run w = .ok b w') :
    ∃ fs, m.run w.fs = .ok b fs ∧ w' = { w with fs := fs } := by
  cases hm : m.run w.fs with
  | ok b' fs =>
    rw [onFiles_ok hm] at h
    obtain ⟨rfl, rfl⟩ := EStateM.Result.ok.inj h
    exact ⟨fs, rfl, rfl⟩
  | error e fs =>
    rw [onFiles_error hm] at h
    cases h

theorem getResource_eq_ok {i : ℕ} {w w' : CoAPServer κ} {r : Resource}
    (h : (getResource i).run w = .ok r w') : w.resources[i]? = some r ∧ w' = w := by
  cases hr : w.resources[i]? with
  | none =>
    simp only [getResource, EStateM.run_bind, EStateM.run_get, hr] at h
    cases h
  | some r' =>
    rw [getResource_run hr] at h
    obtain ⟨rfl, rfl⟩ := EStateM.Result.ok.inj h
    exact ⟨rfl, rfl⟩

theorem keeps_getResource (i : ℕ) : Keeps f (getResource i : ServerM κ Resource) := by
  intro w r w' h
  rw [(getResource_eq_ok h).2]

section Inward
variable (hf : Inward f)
include hf

theorem keeps_writeErr (lines : List Str) : Keeps f (writeErr lines : ServerM κ Unit) :=
  Keeps.modify fun w => hf w _ _ _

theorem keeps_onFiles (m : FsM β) : Keeps f (onFiles m : ServerM κ β) := by
  intro w b w' h
  obtain ⟨fs, -, rfl⟩ := onFiles_eq_ok h
  exact hf w _ _ _

theorem keeps_executeCmd (r : Resource) (m : ResourceMethod) (env : ProcEnv) (call : ℕ) (data : Str) :
    Keeps f (executeCmd r m env call data : ServerM κ (ℤ × Str)) := by
  simp only [executeCmd]
  cases env.shell call m.config.cmd data r.getPath (methStringify m.getMethodType)
      (if m.config.cmdStdin then data else []) with
  | threw => exact Keeps.throw _
  | timedOut => exact Keeps.bind (keeps_writeErr hf _) fun _ => Keeps.pure _
  | exited code out => exact Keeps.pure _

section Item
variable {i : ℕ} (hset : ∀ value, Keeps f (setValueAt i value : ServerM κ Unit))
include hset

theorem keeps_serverOps (r : Resource) (m : ResourceMethod) (env : ProcEnv) :
    KeepsAll f (serverOps i r m env : ItemOps (ServerM κ)) :=
  { executeCmd := fun _ _ => keeps_executeCmd hf _ _ _ _ _
    setValue := hset
    writeOut := fun _ => Keeps.modify fun w => hf w _ _ _
    writeLog := fun _ => keeps_onFiles hf _ }

/-- An item of a resource keeps what its value does not show in. -/
theorem keeps_item {item : RequestQueueItem} (hi : item.src.resource = i) (env : ProcEnv) :
    Keeps f (handleRequestQueueItem item env : ServerM κ ℤ) := by
  subst hi
  refine Keeps.bind (keeps_getResource _) fun r => ?_
  cases r.methods[item.src.method]? with
  | none => exact Keeps.throw _
  | some m => exact keeps_handleItem (keeps_serverOps hf hset _ _ _) m _ _ _

end Item

end Inward

section Steady
variable (hf : Steady f)
include hf

/-- A call on an object that changes its value only. -/
theorem keeps_update (i : ℕ) {call : Resource → FsM Resource}
    (hcall : ∀ r, Yields (SameObject r) (call r)) :
    Keeps f (do
      let r ← getResource i
      let r ← onFiles (call r)
      modify fun w => { w with resources := w.resources.set i r } : ServerM κ Unit) := by
  intro w u w' h
  obtain ⟨r, w₁, hget, h₁⟩ := run_bind_ok h
  obtain ⟨hr, hw⟩ := getResource_eq_ok hget
  obtain ⟨r', w₂, hfile, h₂⟩ := run_bind_ok h₁
  obtain ⟨fs, hrun, rfl⟩ := onFiles_eq_ok hfile
  obtain ⟨-, rfl⟩ := EStateM.Result.ok.inj h₂
  subst hw
  exact (hf.value { w₁ with fs } i r r' hr (hcall r _ _ _ hrun)).trans (hf.outputs w₁ _ _ _)

theorem keeps_setValueAt (i : ℕ) (value : Str) : Keeps f (setValueAt i value : ServerM κ Unit) :=
  keeps_update hf i fun r => setValue_same r value

theorem keeps_updateAll (is : List ℕ) : Keeps f (updateAll is : ServerM κ Unit) := by
  induction is with
  | nil => exact Keeps.pure _
  | cons i is ih => exact Keeps.bind (keeps_update hf i valueUpdate_same) fun _ => ih

theorem keeps_valueUpdate : Keeps f (valueUpdate : ServerM κ Unit) :=
  Keeps.bind Keeps.get fun _ => keeps_updateAll hf _

theorem keeps_handleRequestQueueItem (item : RequestQueueItem) (env : ProcEnv) :
    Keeps f (handleRequestQueueItem item env : ServerM κ ℤ) :=
  keeps_item hf.outputs (keeps_setValueAt hf _) rfl env

end Steady

theorem keeps_onQueue (m : QueueM RequestQueueItem β) : Keeps layout (onQueue m : ServerM κ β) := by
  intro w b w' h
  simp only [onQueue, EStateM.run] at h
  cases hm : m w.queue with
  | ok b' q =>
    rw [hm] at h
    obtain ⟨rfl, rfl⟩ := EStateM.Result.ok.inj h
    rfl
  | error e q =>
    rw [hm] at h
    cases h

theorem keeps_consume (env : ProcEnv) : Keeps layout (consume env : ServerM κ Unit) := by
  refine Keeps.bind (keeps_onQueue _) fun n => Keeps.ite ?_ (Keeps.pure _)
  exact Keeps.bind (keeps_onQueue _) fun item =>
    Keeps.bind (keeps_handleRequestQueueItem steady_layout item env) fun _ => Keeps.pure _

theorem keeps_forward (i : ℕ) (r : Resource) (type : ResourceMethodType) (data : Str) (env : Env)
    (resp : Response) : Keeps layout (forward i r type data env resp : ServerM κ Response) := by
  unfold forward
  cases findMethod type r.methods 0 with
  | none => exact Keeps.pure _
  | some jm => exact keeps_onQueue _

end Keeps

/-- A request to a resource leaves the layout. -/
theorem keeps_handle (i : ℕ) (req : Request κ) (type : ResourceMethodType) (env : Env)
    (resp : Response) : Keeps layout (handleCoAPRequest i req type env resp) := by
  refine Keeps.bind (keeps_getResource _) fun r => Keeps.ite ?_ (keeps_forward _ _ _ _ _ _)
  refine Keeps.bind Keeps.get fun w => Keeps.bind (Keeps.modify fun _ => rfl) fun _ => ?_
  refine Keeps.bind (keeps_writeErr steady_layout.outputs _) fun _ => Keeps.ite (Keeps.pure _) ?_
  exact Keeps.ite (Keeps.pure _) (keeps_forward _ _ _ _ _ _)

end CoapServer.Server.Machine
