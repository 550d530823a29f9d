import CoapServer.Server.World
import Mathlib.Data.List.TakeWhile

/-! # Handling a request

`handleCoAPRequest` takes the body out of a `PUT` or `POST`, finds the method object and has it queue
the request and fill in the response. `handle_body` and `handle_noBody` say what comes before the
method object, `forward_full` and `forward_room` what a queue does with the request. -/

namespace CoapServer.Server.Requests

open CoapServer.Basic CoapServer.Config CoapServer.Resources.Object CoapServer.Blocks.SessionData
open CoapServer.Queue.Sequential CoapServer.Server.World

variable {κ : Type} [DecidableEq κ]

/-- What a handler finds around it: the time, and the bytes on the stack after the first 255 of its
buffer. -/
structure Env where
  now : Time
  stack : Str
  deriving DecidableEq

/-- `c_str()`: the bytes before the first zero. -/
def cStr (s : Str) : Str := s.takeWhile (· ≠ 0)

/-- `strncpy(buf, s, 255)` and then `strlen(buf)` bytes of `buf`. -/
def copied (s stack : Str) : Str :=
  let copy := (cStr s).take 255
  cStr (copy ++ List.replicate (255 - copy.length) 0 ++ stack)

/-- `coap_encode_var_safe`: an unsigned number in as few bytes as it needs. -/
def encodeVar (n : ℕ) : Str :=
  ([n / 2 ^ 24, n / 2 ^ 16, n / 2 ^ 8, n].map fun x => UInt8.ofNat x).dropWhile (· = 0)

/-- `COAP_MEDIATYPE_TEXT_PLAIN`. -/
def textPlain : ℕ := 0

/-- The response to a `GET` that was queued. -/
def contentResponse (r : Resource) (env : Env) (resp : Response) : Response :=
  { ((resp.addOption .uriPath (copied r.getPath env.stack)).addOption .contentFormat
      (encodeVar textPlain)).addOption .maxAge (encodeVar r.getMaxAge) with
    data := some r.value
    code := .content }

/-- The response to a `PUT` or `POST` that was queued. -/
def okResponse (resp : Response) : Response := { resp with code := .ok, type := .ack }

/-- **`ResourceMethod::methodHandler`**, for the method `m` of the resource `r`. -/
def methodHandler (src : MethodRef) (r : Resource) (m : ResourceMethod) (data : Str) (env : Env)
    (resp : Response) : QueueM RequestQueueItem Response := do
  match m.getMethodType with
  | .get =>
    if (← enqueue { src, data := r.value, time := env.now }) ≠ 0 then
      return { resp with code := .internalError }
    return contentResponse r env resp
  | .put | .post =>
    if (← enqueue { src, data, time := env.now }) ≠ 0 then
      return { resp with code := .internalError }
    return okResponse resp
  | .delete | .fetch | .patch | .ipatch | .none => return resp

/-- The loop over the methods of a resource, from place `j` on: the first of the type. -/
def findMethod (type : ResourceMethodType) :
    List ResourceMethod → ℕ → Option (ℕ × ResourceMethod)
  | [], _ => none
  | m :: ms, j => if m.getMethodType = type then some (j, m) else findMethod type ms (j + 1)

/-- The request goes to the method object. -/
def forward (i : ℕ) (r : Resource) (type : ResourceMethodType) (data : Str) (env : Env)
    (resp : Response) : ServerM κ Response :=
  match findMethod type r.methods 0 with
  | some (j, m) => onQueue (methodHandler { resource := i, method := j } r m data env resp)
  | none => pure resp

/-- **`Resource::handleCoAPRequest`**, for the resource at `i`. -/
def handleCoAPRequest (i : ℕ) (req : Request κ) (type : ResourceMethodType) (env : Env)
    (resp : Response) : ServerM κ Response := do
  let r ← getResource i
  if type = .put ∨ type = .post then
    let o := sessionGetData r.getPath (← get).cache req []
    modify fun w => { w with cache := o.cache }
    writeErr o.err
    if o.ret = 0 then return { resp with code := .continue_ }
    else if o.ret < 0 then return { resp with code := .internalError }
    else forward i r type o.dataOut env resp
  else forward i r type [] env resp

/-! ### Strings that end at a zero -/

theorem zero_notMem_cStr (s : Str) : 0 ∉ cStr s := by
  intro h
  have := List.mem_takeWhile_imp h
  simp at this

theorem cStr_append {s : Str} (h : 0 ∉ s) (t : Str) : cStr (s ++ t) = s ++ cStr t := by
  refine List.takeWhile_append_of_pos fun b hb => ?_
  simp only [decide_eq_true_eq]
  rintro rfl
  exact h hb

theorem cStr_eq_self {s : Str} (h : 0 ∉ s) : cStr s = s := by
  have happ := cStr_append h []
  rwa [List.append_nil, show cStr [] = [] from rfl, List.append_nil] at happ

/-! ### The method object -/

/-- The methods a request can be queued for. -/
def Queueable (type : ResourceMethodType) : Prop := type = .get ∨ type = .put ∨ type = .post

instance (type : ResourceMethodType) : Decidable (Queueable type) := by
  unfold Queueable
  infer_instance

/-- What is queued: the value for a `GET`, the data of the request otherwise. -/
def queuedData (r : Resource) (m : ResourceMethod) (data : Str) : Str :=
  if m.getMethodType = .get then r.value else data

/-- The item that is queued. -/
def queuedItem (src : MethodRef) (r : Resource) (m : ResourceMethod) (data : Str) (env : Env) :
    RequestQueueItem :=
  { src, data := queuedData r m data, time := env.now }

/-- The response to a request that was queued. -/
def accepted (r : Resource) (m : ResourceMethod) (env : Env) (resp : Response) : Response :=
  if m.getMethodType = .get then contentResponse r env resp else okResponse resp

section Method
variable {src : MethodRef} {r : Resource} {m : ResourceMethod} {data : Str} {env : Env}
  {resp : Response} {q : RequestQueue RequestQueueItem} {L : List RequestQueueItem}

/-- What the method object does, by what `enqueue` returns. -/
theorem methodHandler_run (hm : Queueable m.getMethodType) {ret : ℤ}
    {q' : RequestQueue RequestQueueItem}
    (henq : (enqueue (queuedItem src r m data env)).run q = .ok ret q') :
    (methodHandler src r m data env resp).run q =
      .ok (if ret ≠ 0 then { resp with code := .internalError } else accepted r m env resp) q' := by
  unfold methodHandler
  obtain ht | ht | ht := hm
  all_goals
    simp only [queuedItem, queuedData, ht, if_true, reduceCtorEq, if_false] at henq
    simp only [ht, EStateM.run_bind, henq, accepted, if_true, reduceCtorEq, if_false]
    by_cases hret : ret ≠ 0
    · rw [if_pos hret, if_pos hret, EStateM.run_pure]
    · rw [if_neg hret, if_neg hret, EStateM.run_pure]

/-- **A full queue** refuses the request. -/
theorem methodHandler_full (h : Represents q L) (hfull : L.length + 1 = q.maxSize)
    (hm : Queueable m.getMethodType) :
    (methodHandler src r m data env resp).run q = .ok { resp with code := .internalError } q := by
  rw [methodHandler_run hm (enqueue_full h hfull _), if_pos (by decide)]

/-- **A queue with room** gets one item. -/
theorem methodHandler_room (h : Represents q L) (hroom : L.length + 1 < q.maxSize)
    (hm : Queueable m.getMethodType) : ∃ q',
      (methodHandler src r m data env resp).run q = .ok (accepted r m env resp) q' ∧
      Represents q' (L ++ [queuedItem src r m data env]) ∧ q'.maxSize = q.maxSize := by
  obtain ⟨q', hrun, hrep, hmax⟩ := enqueue_room h hroom (queuedItem src r m data env)
  refine ⟨q', ?_, hrep, hmax⟩
  rw [methodHandler_run hm hrun, if_neg (by simp)]

end Method

/-- The method found is the first of its type. -/
theorem findMethod_eq_some {type : ResourceMethodType} {ms : List ResourceMethod} {j₀ j : ℕ}
    {m : ResourceMethod} (h : findMethod type ms j₀ = some (j, m)) :
    m.getMethodType = type ∧ j₀ ≤ j ∧ ms[j - j₀]? = some m := by
  induction ms generalizing j₀ with
  | nil => cases h
  | cons m' ms ih =>
    unfold findMethod at h
    split_ifs at h with ht
    · obtain ⟨rfl, rfl⟩ := Prod.mk.inj (Option.some.inj h)
      exact ⟨ht, le_rfl, by simp⟩
    · obtain ⟨htype, hle, hget⟩ := ih h
      refine ⟨htype, by omega, ?_⟩
      rw [show j - j₀ = (j - (j₀ + 1)) + 1 by omega, List.getElem?_cons_succ]
      exact hget

/-- A method of a type that is there is found. -/
theorem findMethod_isSome {type : ResourceMethodType} {ms : List ResourceMethod}
    (h : ∃ m ∈ ms, m.getMethodType = type) (j₀ : ℕ) : ∃ j m, findMethod type ms j₀ = some (j, m) := by
  induction ms generalizing j₀ with
  | nil => simp at h
  | cons m' ms ih =>
    unfold findMethod
    split_ifs with ht
    · exact ⟨_, _, rfl⟩
    · obtain ⟨m, hm, htype⟩ := h
      rcases List.mem_cons.mp hm with rfl | hm
      · exact absurd htype ht
      · exact ih ⟨m, hm, htype⟩ (j₀ + 1)

/-! ### The request -/

section Handle
variable {w : CoAPServer κ} {i : ℕ} {r : Resource} {req : Request κ} {type : ResourceMethodType}
  {env : Env} {resp : Response} (hr : w.resources[i]? = some r)
include hr

/-- The server after the body of a request was taken out of it. -/
def afterBody (w : CoAPServer κ) (r : Resource) (req : Request κ) : CoAPServer κ :=
  { w with
    cache := (sessionGetData r.getPath w.cache req []).cache
    stderr := w.stderr ++ (sessionGetData r.getPath w.cache req []).err }

/-- What a `PUT` or `POST` does, by what `sessionGetData` returns. -/
theorem handle_body (htype : type = .put ∨ type = .post) :
    (handleCoAPRequest i req type env resp).run w =
      if (sessionGetData r.getPath w.cache req []).ret = 0 then
        .ok { resp with code := .continue_ } (afterBody w r req)
      else if (sessionGetData r.getPath w.cache req []).ret < 0 then
        .ok { resp with code := .internalError } (afterBody w r req)
      else (forward i r type (sessionGetData r.getPath w.cache req []).dataOut env resp).run
        (afterBody w r req) := by
  simp only [handleCoAPRequest, EStateM.run_bind, getResource_run hr, if_pos htype,
    EStateM.run_get, EStateM.run_modify, writeErr_run]
  split_ifs <;> rfl

/-- What a `GET` does. -/
theorem handle_noBody (htype : ¬ (type = .put ∨ type = .post)) :
    (handleCoAPRequest i req type env resp).run w = (forward i r type [] env resp).run w := by
  simp only [handleCoAPRequest, EStateM.run_bind, getResource_run hr, if_neg htype]

end Handle

section Forward
variable {κ : Type} {w : CoAPServer κ} {j : ℕ} {r : Resource} {m : ResourceMethod}
  {type : ResourceMethodType} {L : List RequestQueueItem} (hq : Represents w.queue L)
  (htype : Queueable type) (hm : findMethod type r.methods 0 = some (j, m))
include hq htype hm

/-- A request that is forwarded is refused by a full queue. -/
theorem forward_full (hfull : L.length + 1 = w.queue.maxSize) (i : ℕ) (data : Str) (env : Env)
    (resp : Response) :
    (forward i r type data env resp).run w = .ok { resp with code := .internalError } w := by
  obtain ⟨ht, -, -⟩ := findMethod_eq_some hm
  simp only [forward, hm]
  rw [onQueue_ok (methodHandler_full hq hfull (ht ▸ htype))]

/-- A request that is forwarded is appended to a queue with room. -/
theorem forward_room (hroom : L.length + 1 < w.queue.maxSize) (i : ℕ) (data : Str) (env : Env)
    (resp : Response) : ∃ q',
      (forward i r type data env resp).run w = .ok (accepted r m env resp) { w with queue := q' } ∧
      Represents q' (L ++ [queuedItem ⟨i, j⟩ r m data env]) ∧ q'.maxSize = w.queue.maxSize := by
  obtain ⟨ht, -, -⟩ := findMethod_eq_some hm
  obtain ⟨q', hrun, hrep, hmax⟩ := methodHandler_room hq hroom (ht ▸ htype)
  refine ⟨q', ?_, hrep, hmax⟩
  simp only [forward, hm]
  rw [onQueue_ok hrun]

end Forward

end CoapServer.Server.Requests
