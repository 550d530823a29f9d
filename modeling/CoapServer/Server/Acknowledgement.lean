import CoapServer.Blocks.Holes
import CoapServer.Server.Requests

/-! # What a response says about the queue

A request that is answered with `CONTINUE` or `INTERNAL_ERROR` leaves the queue as it is, one that
is answered with `CONTENT` or `OK` is queued (`handle_handled`), in every state of the queue and of
the cache. What is queued for a `PUT` or `POST` is what `sessionGetData` delivered, so it is the
payload of the request exactly if the blocks of the body make it up
(`acknowledged_iff_complete`). -/

namespace CoapServer.Server.Acknowledgement

open CoapServer.Basic CoapServer.Config CoapServer.Resources.Object CoapServer.Blocks.SessionData
open CoapServer.Blocks.Transfers CoapServer.Blocks.Holes
open CoapServer.Queue.Sequential CoapServer.Server.World CoapServer.Server.Requests

variable {κ : Type} [DecidableEq κ]

/-- The queue refuses an item. -/
def Refuses (q : RequestQueue RequestQueueItem) : Prop :=
  ∃ item, ∃ ret ≠ 0, (enqueue item).run q = .ok ret q

/-- **What a request of a type to the resource `r` at `i` is answered with**, and what that means for
the queue. `payload` says what may be queued for a `PUT` or `POST`. -/
inductive Handled (w w' : CoAPServer κ) (i : ℕ) (r : Resource) (req : Request κ)
    (type : ResourceMethodType) (env : Env) (payload : Str → Prop) (resp : Response) : Prop
  /-- more blocks are awaited -/
  | waiting (code : resp.code = .continue_) (queue : w'.queue = w.queue)
  /-- `sessionGetData` failed, or the queue refused the item -/
  | refused (code : resp.code = .internalError) (queue : w'.queue = w.queue)
      (cause : type ≠ .get ∧ (sessionGetData r.getPath w.cache req []).ret < 0 ∨ Refuses w.queue)
  /-- one item is appended -/
  | queued (code : resp.code = if type = .get then .content else .ok) (j : ℕ) (m : ResourceMethod)
      (data : Str) (first : findMethod type r.methods 0 = some (j, m))
      (method : r.methods[j]? = some m) (of_type : m.getMethodType = type)
      (queue : Represents w'.queue (contents w.queue ++ [⟨⟨i, j⟩, data, env.now⟩]))
      (value : type = .get → data = r.value) (body : type ≠ .get → payload data)

/-- **The payload of a request** after the requests `rs`: no bytes, those of a body in one block, or as
many bytes as the body has, each received and the last one received for its position. -/
def IsPayload (rs : List (Request κ)) (req : Request κ) (data : Str) : Prop :=
  match req.body with
  | none => data = []
  | some b =>
    if b.data.length = b.total then data = b.data
    else Whole (since (received req.key (rs ++ [req]))) b.total data ∧ data.length = b.total

/-- **The response matches the queue**, and the values of the resources stay. -/
def Acknowledged (payload : Str → Prop) (w : CoAPServer κ) (i : ℕ) (r : Resource)
    (req : Request κ) (type : ResourceMethodType) (env : Env) (resp : Response) : Prop :=
  ∃ resp' w', (handleCoAPRequest i req type env resp).run w = .ok resp' w' ∧
    Handled w w' i r req type env payload resp' ∧ w'.resources = w.resources

/-- **A body that ends is complete**: where the request ends a block-wise body that has a buffer, and
the queue has room, the blocks make up the body, and the buffer has its length. -/
def EndsComplete (w : CoAPServer κ) (rs : List (Request κ)) (req : Request κ)
    (type : ResourceMethodType) : Prop :=
  type ≠ .get → ∀ b, req.body = some b → b.data.length ≠ b.total →
    b.offset + b.data.length = b.total → (appData w.cache req.key).isSome →
    (contents w.queue).length + 1 < w.queue.maxSize →
    Complete (since (received req.key (rs ++ [req]))) b.total ∧
      extent (since (received req.key (rs ++ [req]))) = b.total

section Handle
variable {w : CoAPServer κ} {i : ℕ} {r : Resource} {req : Request κ} {type : ResourceMethodType}
  {env : Env} {resp : Response} {L : List RequestQueueItem}

theorem refuses_of_full {q : RequestQueue RequestQueueItem} (h : Represents q L)
    (hfull : L.length + 1 = q.maxSize) : Refuses q :=
  ⟨default, -1, by decide, enqueue_full h hfull _⟩

/-- **A request that is forwarded** is queued or refused. -/
theorem forward_handled {w₁ : CoAPServer κ} (hsame : w₁.queue = w.queue) (hq : Represents w.queue L)
    (htype : Queueable type) (hmeth : ∃ m ∈ r.methods, m.getMethodType = type) {data : Str}
    {payload : Str → Prop}
    (hpay : type ≠ .get → L.length + 1 < w.queue.maxSize → payload data) :
    ∃ resp' w', (forward i r type data env resp).run w₁ = .ok resp' w' ∧
      Handled w w' i r req type env payload resp' ∧ w'.resources = w₁.resources := by
  obtain ⟨j, m, hm⟩ := findMethod_isSome hmeth 0
  obtain ⟨ht, -, hget⟩ := findMethod_eq_some hm
  have hq₁ : Represents w₁.queue L := hsame ▸ hq
  rcases Nat.lt_or_ge (L.length + 1) w.queue.maxSize with hroom | hfull
  · obtain ⟨q', hrun, hrep, -⟩ := forward_room hq₁ htype hm (hsame ▸ hroom) i data env resp
    refine ⟨_, _, hrun, .queued ?_ j m (queuedData r m data) hm hget ht ?_ ?_ ?_, rfl⟩
    · rw [accepted, ht]
      split_ifs <;> rfl
    · rw [hq.contents_eq]
      exact hrep
    · intro h
      rw [queuedData, ht, if_pos h]
    · intro h
      rw [queuedData, ht, if_neg h]
      exact hpay h hroom
  · have hlast : L.length + 1 = w.queue.maxSize := by
      have := hq.room
      omega
    exact ⟨_, _, forward_full hq₁ htype hm (hsame ▸ hlast) i data env resp,
      .refused rfl hsame (Or.inr (refuses_of_full hq hlast)), rfl⟩

/-- **Every request is answered as the queue is left**, whatever the states of the queue and of the
cache. What is queued for a `PUT` or `POST` is what `sessionGetData` delivered. -/
theorem handle_handled (hr : w.resources[i]? = some r) (hq : Represents w.queue L)
    (htype : Queueable type) (hmeth : ∃ m ∈ r.methods, m.getMethodType = type)
    {payload : Str → Prop}
    (hpay : type ≠ .get → L.length + 1 < w.queue.maxSize →
      (sessionGetData r.getPath w.cache req []).ret = 1 →
      payload (sessionGetData r.getPath w.cache req []).dataOut) :
    Acknowledged payload w i r req type env resp := by
  by_cases hbody : type = .put ∨ type = .post
  · have hget : type ≠ .get := by rcases hbody with rfl | rfl <;> decide
    rw [Acknowledged, handle_body hr hbody]
    rcases session_ret r.getPath w.cache req [] with hret | hret | hret
    · rw [if_neg (by rw [hret]; decide), if_pos (by rw [hret]; decide)]
      exact ⟨_, _, rfl, .refused rfl rfl (Or.inl ⟨hget, by rw [hret]; decide⟩), rfl⟩
    · rw [if_pos hret]
      exact ⟨_, _, rfl, .waiting rfl rfl, rfl⟩
    · rw [if_neg (by rw [hret]; decide), if_neg (by rw [hret]; decide)]
      have hsame : (afterBody w r req).queue = w.queue := rfl
      exact forward_handled hsame hq htype hmeth fun h hroom => hpay h hroom hret
  · have hget : type = .get := by
      rcases htype with h | h | h
      · exact h
      · exact absurd (Or.inl h) hbody
      · exact absurd (Or.inr h) hbody
    rw [Acknowledged, handle_noBody hr hbody]
    exact forward_handled rfl hq htype hmeth fun h => absurd hget h

/-- A body that is delivered is queued where there is room. -/
theorem handle_queues (hr : w.resources[i]? = some r) (hq : Represents w.queue L)
    (htype : Queueable type) (hmeth : ∃ m ∈ r.methods, m.getMethodType = type) (hget : type ≠ .get)
    (hret : (sessionGetData r.getPath w.cache req []).ret = 1)
    (hroom : L.length + 1 < w.queue.maxSize) (env : Env) (resp : Response) :
    ∃ q' j, contents q' = L ++
        [⟨⟨i, j⟩, (sessionGetData r.getPath w.cache req []).dataOut, env.now⟩] ∧
      (handleCoAPRequest i req type env resp).run w =
        .ok (okResponse resp) { afterBody w r req with queue := q' } := by
  have hbody : type = .put ∨ type = .post := htype.resolve_left hget
  obtain ⟨j, m, hm⟩ := findMethod_isSome hmeth 0
  obtain ⟨ht, -, -⟩ := findMethod_eq_some hm
  have hq₁ : Represents (afterBody w r req).queue L := hq
  obtain ⟨q', hrun, hrep, -⟩ := forward_room hq₁ htype hm hroom i
    (sessionGetData r.getPath w.cache req []).dataOut env resp
  refine ⟨q', j, ?_, ?_⟩
  · rw [hrep.contents_eq, queuedItem, queuedData, ht, if_neg hget]
  · rw [handle_body hr hbody, if_neg (by rw [hret]; decide), if_neg (by rw [hret]; decide), hrun,
      accepted, ht, if_neg hget]

/-- What is delivered at the end of a body is the payload exactly if the blocks make it up, and the
buffer has its length. -/
theorem delivered_payload_iff {path : κ → Str} {rs : List (Request κ)} {b : Block}
    (hcache : w.cache = cacheAfter path Cache.empty rs) (hb : req.body = some b)
    (hbw : b.data.length ≠ b.total) (p : Str) (hret : (sessionGetData p w.cache req []).ret = 1) :
    IsPayload rs req (sessionGetData p w.cache req []).dataOut ↔
      Complete (since (received req.key (rs ++ [req]))) b.total ∧
        extent (since (received req.key (rs ++ [req]))) = b.total := by
  obtain ⟨hret', hout, -⟩ := session_path p (path req.key) w.cache req []
  rw [hret', hcache] at hret
  rw [hout, hcache, (delivered_eq_gather path rs req b hb hbw hret).2, IsPayload, hb]
  simp only [if_neg hbw, whole_gather, length_gather]

/-- What is queued is the payload, if the body is complete where it ends. -/
theorem isPayload_of_endsComplete {path : κ → Str} {rs : List (Request κ)}
    (hcache : w.cache = cacheAfter path Cache.empty rs) (hq : Represents w.queue L)
    (hget : type ≠ .get) (hroom : L.length + 1 < w.queue.maxSize)
    (hret : (sessionGetData r.getPath w.cache req []).ret = 1)
    (hends : EndsComplete w rs req type) :
    IsPayload rs req (sessionGetData r.getPath w.cache req []).dataOut := by
  by_cases hsingle : ∀ b, req.body = some b → b.data.length = b.total
  · rw [session_single hsingle, IsPayload]
    cases hb : req.body with
    | none => rfl
    | some b => simp [hsingle b hb]
  · push Not at hsingle
    obtain ⟨b, hb, hbw⟩ := hsingle
    obtain ⟨hend, hsome⟩ := (session_ends_iff hb hbw).mp hret
    exact (delivered_payload_iff hcache hb hbw _ hret).mpr
      (hends hget b hb hbw hend hsome (by rwa [hq.contents_eq]))

/-- A body that is acknowledged as its payload is complete. -/
theorem endsComplete_of_acknowledged (path : κ → Str) {rs : List (Request κ)}
    (hcache : w.cache = cacheAfter path Cache.empty rs) (hq : Represents w.queue L)
    (hr : w.resources[i]? = some r) (htype : Queueable type)
    (hmeth : ∃ m ∈ r.methods, m.getMethodType = type)
    (h : Acknowledged (IsPayload rs req) w i r req type env resp) : EndsComplete w rs req type := by
  obtain ⟨resp', w', hrun, hhandled, -⟩ := h
  intro hget b hb hbw hend hsome hroom
  rw [hq.contents_eq] at hroom
  have hret : (sessionGetData r.getPath w.cache req []).ret = 1 :=
    (session_ends_iff hb hbw).mpr ⟨hend, hsome⟩
  -- the request is queued with what `sessionGetData` delivered
  obtain ⟨q', j, hcontents, hrun'⟩ := handle_queues hr hq htype hmeth hget hret hroom env resp
  obtain ⟨rfl, rfl⟩ := EStateM.Result.ok.inj (hrun.symm.trans hrun')
  cases hhandled with
  | waiting hcode _ => simp [okResponse] at hcode
  | refused hcode _ _ => simp [okResponse] at hcode
  | queued _ j' m data _ _ _ hqueue _ hbody =>
    have hdata : (sessionGetData r.getPath w.cache req []).dataOut = data := by
      have hsame := hcontents.symm.trans hqueue.contents_eq
      rw [hq.contents_eq] at hsame
      have hlast := List.append_cancel_left hsame
      simp only [List.cons.injEq, RequestQueueItem.mk.injEq] at hlast
      exact hlast.1.2.1
    have hpay := hbody hget
    rw [← hdata] at hpay
    exact (delivered_payload_iff hcache hb hbw _ hret).mp hpay

/-- **The acknowledgement matches the queue exactly if a body that ends is complete.** The queue is
any that represents a list, the cache any that requests `rs` leave. -/
theorem acknowledged_iff_complete (path : κ → Str) (rs : List (Request κ))
    (hcache : w.cache = cacheAfter path Cache.empty rs) (hq : Represents w.queue L)
    (hr : w.resources[i]? = some r) (htype : Queueable type)
    (hmeth : ∃ m ∈ r.methods, m.getMethodType = type) :
    Acknowledged (IsPayload rs req) w i r req type env resp ↔ EndsComplete w rs req type :=
  ⟨endsComplete_of_acknowledged path hcache hq hr htype hmeth, fun hends =>
    handle_handled hr hq htype hmeth fun hget hroom hret =>
      isPayload_of_endsComplete hcache hq hget hroom hret hends⟩

end Handle

/-- A resource with a `PUT` method. -/
def putResource : Resource :=
  { config := { resourcePath := str "example/res1" }
    methods := [{ config := { type := .put, store := true }, fmts := [] }]
    value := str "12345"
    logFile := none
    dataFilePath := []
    dataFileWriteTime := 0 }

/-- A server with that resource, an empty queue of two slots and the given cache. -/
def putServer (cache : Cache ℕ) : CoAPServer ℕ :=
  { logDir := []
    dynamicResources := []
    resources := [putResource]
    registry := fun _ => none
    queue := { maxSize := 2, items := [default, default], start := 0, end_ := 0 }
    cache
    fs := { files := fun _ => none, clock := 0, writable := fun _ => true
            creatable := fun _ => true, opened := [], created := [] }
    stdout := []
    stderr := [] }

/-- The empty queue of that server. -/
theorem putServer_queue (cache : Cache ℕ) : Represents (putServer cache).queue [] := by
  have hnew : new 2 = some (putServer cache).queue := rfl
  exact (new_represents (by decide) hnew).1

theorem acknowledged_iff_complete_put :
    Acknowledged (IsPayload [firstByte] lastBytes)
        (putServer (cacheAfter (fun _ => []) Cache.empty [firstByte])) 0 putResource lastBytes .put
        ⟨⟨0, 0⟩, []⟩ ⟨.empty, .con, [], none⟩ ↔
      EndsComplete (putServer (cacheAfter (fun _ => []) Cache.empty [firstByte])) [firstByte]
        lastBytes .put :=
  acknowledged_iff_complete (fun _ => []) [firstByte] rfl (putServer_queue _) rfl (by decide)
    ⟨_, List.mem_singleton_self _, rfl⟩

/-- The first and the third byte of three are acknowledged and queued as `1 0 3`. -/
theorem incomplete_body_is_acknowledged : ¬ ∀ (path : ℕ → Str) (rs : List (Request ℕ))
    (w : CoAPServer ℕ) (L : List RequestQueueItem) (i : ℕ) (r : Resource) (req : Request ℕ)
    (type : ResourceMethodType) (env : Env) (resp : Response),
    w.cache = cacheAfter path Cache.empty rs → Represents w.queue L → w.resources[i]? = some r →
    Queueable type → (∃ m ∈ r.methods, m.getMethodType = type) →
    Acknowledged (IsPayload rs req) w i r req type env resp := by
  intro h
  have hack := h (fun _ => []) [firstByte]
    (putServer (cacheAfter (fun _ => []) Cache.empty [firstByte])) [] 0 putResource thirdByte .put
    ⟨⟨0, 0⟩, []⟩ ⟨.empty, .con, [], none⟩ rfl (putServer_queue _) rfl (Or.inr (Or.inl rfl))
    ⟨_, List.mem_singleton_self _, rfl⟩
  have hcomplete := endsComplete_of_acknowledged (fun _ => []) rfl (putServer_queue _) rfl
    (Or.inr (Or.inl rfl))
    ⟨_, List.mem_singleton_self _, rfl⟩ hack
  have hmissing := (hcomplete (by decide) _ rfl (by decide) (by decide) (by decide) (by decide)).1.1 1
    (by decide)
  exact absurd hmissing (by decide)

end CoapServer.Server.Acknowledgement
