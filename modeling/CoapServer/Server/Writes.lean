import CoapServer.Lib.Run
import CoapServer.Server.Acknowledgement
import CoapServer.Server.Process

/-! # The last acknowledged write wins

Requests are handled by one thread and take effect when another has processed their items. A step is
a request to one of the resources, or one round of the loop of `_requestQueueThread`; `acked` records
the payload of the last `PUT` or `POST` to a storing method of each resource that was answered with
success.

The invariant `Inv` says that the items still queued, applied in order to the value of a resource,
yield what `acked` has for it. A request that is accepted adds its item at the end of the queue and
its payload to `acked`; processing the first item does to the value what applying it says. It holds
for resources without a data file whose `GET` methods do not store (`Plain`). -/

namespace CoapServer.Server.Writes

open CoapServer.Basic CoapServer.Config CoapServer.Lib.Run CoapServer.Resources.Object
open CoapServer.Blocks.SessionData CoapServer.Queue.Sequential
open CoapServer.Server.World CoapServer.Server.Requests CoapServer.Server.Process
open CoapServer.Server.Acknowledgement

variable {κ : Type} [DecidableEq κ]

/-- The server, and the payload of the last write to each resource that was acknowledged, or its
value at the start. -/
structure State (κ : Type) where
  server : CoAPServer κ
  acked : ℕ → Str

/-- A step: a request to the resource at `i`, or a round of the queue thread. -/
inductive Label (κ : Type) where
  | request (i : ℕ) (req : Request κ) (type : ResourceMethodType) (env : Env) (resp : Response)
  | consume (env : ProcEnv)

/-- The payload of a request to the resource `r`. -/
def payload (w : CoAPServer κ) (r : Resource) (req : Request κ) : Str :=
  (sessionGetData r.getPath w.cache req []).dataOut

/-- **The step**; `none` where the library has no handler for the request, or the call throws. -/
def step (s : State κ) : Label κ → Option (State κ)
  | .request i req type env resp =>
    match s.server.resources[i]? with
    | none => none
    | some r =>
      match findMethod type r.methods 0 with
      | none => none
      | some (_, m) =>
        if Queueable type then
          match (handleCoAPRequest i req type env resp).run s.server with
          | .ok resp' w => some {
              server := w
              acked := if Stores m ∧ resp'.code = .ok then
                Function.update s.acked i (payload s.server r req) else s.acked }
          | .error _ _ => none
        else none
  | .consume env =>
    match (consume env).run s.server with
    | .ok _ w => some { s with server := w }
    | .error _ _ => none

/-- Items are processed one after the other. -/
def processAll (env : ProcEnv) : List RequestQueueItem → ServerM κ Unit
  | [] => return
  | item :: items => do
    let _ ← handleRequestQueueItem item env
    processAll env items

/-! ### Applying items to a value -/

/-- A resource without a data file whose `GET` methods do not store. -/
structure Plain (r : Resource) : Prop where
  noFile : r.dataFilePath = []
  get : ∀ m ∈ r.methods, m.getMethodType = .get → m.config.store = false

/-- The method an item comes from. -/
def methodAt (rs : List Resource) (src : MethodRef) : Option ResourceMethod :=
  rs[src.resource]?.bind fun r => r.methods[src.method]?

/-- **What an item does to the value** of the resource at `i`. -/
def applyItem (rs : List Resource) (i : ℕ) (value : Str) (item : RequestQueueItem) : Str :=
  match methodAt rs item.src with
  | some m => if item.src.resource = i ∧ Stores m then item.data else value
  | none => value

/-- The value of the resource at `i`. -/
def valueAt (w : CoAPServer κ) (i : ℕ) : Option Str := w.resources[i]?.map Resource.value

/-- Two lists of resources that differ in values only. -/
def SameMethods (rs rs' : List Resource) : Prop := ∀ src, methodAt rs' src = methodAt rs src

theorem applyItem_congr {rs rs' : List Resource} (h : SameMethods rs rs') :
    applyItem rs' = applyItem rs := by
  funext i value item
  rw [applyItem, applyItem, h]

theorem methodAt_eq_some {rs : List Resource} {src : MethodRef} {m : ResourceMethod} :
    methodAt rs src = some m ↔
      ∃ r, rs[src.resource]? = some r ∧ r.methods[src.method]? = some m :=
  Option.bind_eq_some_iff

/-- A new value leaves the methods. -/
theorem sameMethods_set {rs : List Resource} {k : ℕ} {r r' : Resource} (hr : rs[k]? = some r)
    (hsame : SameObject r r') : SameMethods rs (rs.set k r') := by
  intro src
  unfold methodAt
  rw [List.getElem?_set]
  by_cases hk : k = src.resource
  · subst hk
    have hlt : src.resource < rs.length := (List.getElem?_eq_some_iff.mp hr).1
    rw [if_pos rfl, if_pos hlt, hr, Option.bind_some, Option.bind_some, hsame.methods]
  · rw [if_neg hk]

/-- **The invariant**, with the items of the queue. -/
structure Inv (s : State κ) (L : List RequestQueueItem) : Prop where
  queue : Represents s.server.queue L
  plain : ∀ r ∈ s.server.resources, Plain r
  sources : ∀ item ∈ L, ∃ m, methodAt s.server.resources item.src = some m
  acked : ∀ i value, valueAt s.server i = some value →
    L.foldl (applyItem s.server.resources i) value = s.acked i

/-! ### Processing an item -/

section Item
variable {w : CoAPServer κ} {item : RequestQueueItem} {m : ResourceMethod} {env : ProcEnv}
  (henv : env.Launches) (hplain : ∀ r ∈ w.resources, Plain r)
  (hm : methodAt w.resources item.src = some m)
include henv hplain hm

omit [DecidableEq κ] in
/-- **Processing an item** applies it to the values of the resources, and leaves the queue. -/
theorem process_applies : ∃ w', (handleRequestQueueItem item env).run w = .ok 0 w' ∧
    w'.queue = w.queue ∧ SameMethods w.resources w'.resources ∧ (∀ r ∈ w'.resources, Plain r) ∧
    ∀ i, valueAt w' i = (valueAt w i).map fun value => applyItem w.resources i value item := by
  obtain ⟨r, hr, hget⟩ := methodAt_eq_some.mp hm
  have hpr := hplain r (List.mem_of_getElem? hr)
  obtain ⟨w', hrun, houts⟩ := handleRequestQueueItem_run henv hr hpr.noFile
    (hpr.get m (List.mem_of_getElem? hget)) hget
  have hres : w'.resources = storeItem w r m item := houts.resources
  refine ⟨w', hrun, ?_, ?_, ?_, ?_⟩
  · obtain ⟨fs, out, err, rfl⟩ := houts
    rfl
  · rw [hres, storeItem]
    split_ifs
    · exact sameMethods_set hr (newValue_same r _)
    · exact fun _ => rfl
  · intro r' hr'
    rw [hres, storeItem] at hr'
    split_ifs at hr'
    · rcases List.mem_or_eq_of_mem_set hr' with hr' | rfl
      · exact hplain r' hr'
      · have hsame := newValue_same r item.data
        exact ⟨hsame.dataFilePath.trans hpr.noFile, by rw [hsame.methods]; exact hpr.get⟩
    · exact hplain r' hr'
  · intro i
    simp only [valueAt, hres, storeItem, applyItem, hm, Option.map_map]
    by_cases hstores : Stores m
    · rw [if_pos hstores, List.getElem?_set]
      by_cases hi : item.src.resource = i
      · subst hi
        have hlt : item.src.resource < w.resources.length := (List.getElem?_eq_some_iff.mp hr).1
        simp [hlt, hstores]
      · simp [hi, Function.comp_def]
    · simp [hstores, Function.comp_def]

end Item

omit [DecidableEq κ] in
/-- **Processing items one after the other** applies them in order. -/
theorem processAll_applies {env : ProcEnv} (henv : env.Launches) (items : List RequestQueueItem) :
    ∀ {w : CoAPServer κ}, (∀ r ∈ w.resources, Plain r) →
      (∀ item ∈ items, ∃ m, methodAt w.resources item.src = some m) →
      ∃ w', (processAll env items).run w = .ok ⟨⟩ w' ∧
        ∀ i, valueAt w' i = (valueAt w i).map fun value =>
          items.foldl (applyItem w.resources i) value := by
  induction items with
  | nil => exact fun _ _ => ⟨_, rfl, fun i => by simp⟩
  | cons item items ih =>
    intro w hplain hsrc
    obtain ⟨m, hm⟩ := hsrc item (List.mem_cons_self ..)
    obtain ⟨w₁, hrun₁, -, hsame, hplain₁, hval₁⟩ := process_applies henv hplain hm
    obtain ⟨w', hrun', hval'⟩ := ih hplain₁ fun item' hitem' => by
      obtain ⟨m', hm'⟩ := hsrc item' (List.mem_cons_of_mem _ hitem')
      exact ⟨m', (hsame _).trans hm'⟩
    refine ⟨w', ?_, fun i => ?_⟩
    · simp only [processAll, EStateM.run_bind, hrun₁, hrun']
    · rw [hval', hval₁, applyItem_congr hsame, Option.map_map]
      rfl

/-! ### The steps -/

/-- A request step, taken apart. -/
theorem step_request {s s' : State κ} {i : ℕ} {req : Request κ} {type : ResourceMethodType}
    {env : Env} {resp : Response} (h : step s (.request i req type env resp) = some s') :
    ∃ r j m resp' w', s.server.resources[i]? = some r ∧
      findMethod type r.methods 0 = some (j, m) ∧ Queueable type ∧
      (handleCoAPRequest i req type env resp).run s.server = .ok resp' w' ∧
      s' = { server := w', acked := if Stores m ∧ resp'.code = .ok then
        Function.update s.acked i (payload s.server r req) else s.acked } := by
  simp only [step] at h
  split at h
  · cases h
  · split at h
    · cases h
    · split at h
      · split at h
        · exact ⟨_, _, _, _, _, ‹_›, ‹_›, ‹_›, ‹_›, (Option.some.inj h).symm⟩
        · cases h
      · cases h

/-- **A request** keeps the invariant, and the resources. -/
theorem request_inv {s s' : State κ} {L : List RequestQueueItem} (h : Inv s L) {i : ℕ}
    {req : Request κ} {type : ResourceMethodType} {env : Env} {resp : Response}
    (hs : step s (.request i req type env resp) = some s') :
    s'.server.resources = s.server.resources ∧ ∃ L', Inv s' L' := by
  obtain ⟨r, j, m, resp', w', hr, hfind, htype, hrun, rfl⟩ := step_request hs
  obtain ⟨hmt, -, hmem⟩ := findMethod_eq_some hfind
  have hmeth : methodAt s.server.resources ⟨i, j⟩ = some m := methodAt_eq_some.mpr ⟨r, hr, hmem⟩
  obtain ⟨resp'', w'', hrun', hhandled, hres⟩ : Acknowledged (· = payload s.server r req) s.server i
      r req type env resp :=
    handle_handled hr h.queue htype ⟨m, List.mem_of_getElem? hmem, hmt⟩ fun _ _ _ => rfl
  obtain ⟨rfl, rfl⟩ := EStateM.Result.ok.inj (hrun.symm.trans hrun')
  refine ⟨hres, ?_⟩
  -- a request that is not queued is not acknowledged
  have hkeep : resp'.code ≠ .ok → w'.queue = s.server.queue →
      Inv ⟨w', if Stores m ∧ resp'.code = .ok then
        Function.update s.acked i (payload s.server r req) else s.acked⟩ L := by
    intro hcode hqueue
    rw [if_neg fun hack => hcode hack.2]
    exact ⟨hqueue ▸ h.queue, hres ▸ h.plain, hres ▸ h.sources, by
      simpa only [valueAt, hres] using h.acked⟩
  cases hhandled with
  | waiting hcode hqueue => exact ⟨L, hkeep (by rw [hcode]; decide) hqueue⟩
  | refused hcode hqueue _ => exact ⟨L, hkeep (by rw [hcode]; decide) hqueue⟩
  | queued hcode j' m' data hfirst _ _ hqueue _ hbody =>
    obtain ⟨rfl, rfl⟩ := Prod.mk.inj (Option.some.inj (hfind.symm.trans hfirst))
    rw [h.queue.contents_eq] at hqueue
    refine ⟨_, hqueue, hres ▸ h.plain, ?_, ?_⟩
    · intro item hitem
      rw [hres]
      rcases List.mem_append.mp hitem with hitem | hitem
      · exact h.sources item hitem
      · rw [List.mem_singleton.mp hitem]
        exact ⟨m, hmeth⟩
    · intro k value hvalue
      simp only [valueAt, hres] at hvalue
      have hk := h.acked k value hvalue
      simp only [hres, List.foldl_append, List.foldl_cons, List.foldl_nil, hk, applyItem, hmeth]
      by_cases hstores : Stores m
      · have hget : type ≠ .get := by
          rw [← hmt]
          rcases hstores.1 with ht | ht <;> rw [ht] <;> decide
        rw [if_neg hget] at hcode
        have hacked : Stores m ∧ resp'.code = .ok := ⟨hstores, hcode⟩
        rw [if_pos hacked, hbody hget, Function.update_apply]
        by_cases hik : i = k
        · rw [if_pos ⟨hik, hstores⟩, if_pos hik.symm]
        · rw [if_neg fun hboth => hik hboth.1, if_neg fun hki => hik hki.symm]
      · have hacked : ¬ (Stores m ∧ resp'.code = .ok) := fun hboth => hstores hboth.1
        rw [if_neg hacked, if_neg fun hboth => hstores hboth.2]

omit [DecidableEq κ] in
/-- An empty queue leaves nothing to do. -/
theorem consume_nil {w : CoAPServer κ} (hq : Represents w.queue []) (env : ProcEnv) :
    (consume env).run w = .ok ⟨⟩ w := by
  simp [consume, EStateM.run_bind, onQueue_ok (count_run hq)]

omit [DecidableEq κ] in
/-- The first item of the queue is taken and processed. -/
theorem consume_cons {w : CoAPServer κ} {item : RequestQueueItem} {L : List RequestQueueItem}
    (hq : Represents w.queue (item :: L)) {m : ResourceMethod} {env : ProcEnv}
    (henv : env.Launches) (hplain : ∀ r ∈ w.resources, Plain r)
    (hm : methodAt w.resources item.src = some m) : ∃ w',
      (consume env).run w = .ok ⟨⟩ w' ∧ Represents w'.queue L ∧
      SameMethods w.resources w'.resources ∧ (∀ r ∈ w'.resources, Plain r) ∧
      ∀ i, valueAt w' i = (valueAt w i).map fun value => applyItem w.resources i value item := by
  obtain ⟨q, hrun, hrep, -⟩ := dequeue_cons hq
  have hproc := process_applies (w := { w with queue := q }) henv hplain hm
  obtain ⟨w', hrun', hqueue, hrest⟩ := hproc
  refine ⟨w', ?_, hqueue ▸ hrep, hrest⟩
  simp only [consume, EStateM.run_bind, onQueue_ok (count_run hq), List.length_cons, ne_eq,
    Nat.succ_ne_zero, not_false_eq_true, if_true, onQueue_ok hrun, hrun', EStateM.run_pure]

/-- **A round of the queue thread** finds the queue empty, or applies its first item. -/
theorem consume_inv {s s' : State κ} {L : List RequestQueueItem} (h : Inv s L) {env : ProcEnv}
    (henv : env.Launches) (hs : step s (.consume env) = some s') :
    (L = [] ∧ s' = s) ∨ ∃ item rest m, L = item :: rest ∧ Inv s' rest ∧
      methodAt s.server.resources item.src = some m ∧
      ∀ i, valueAt s'.server i =
        (valueAt s.server i).map fun value => applyItem s.server.resources i value item := by
  cases L with
  | nil =>
    simp only [step, consume_nil h.queue env] at hs
    exact Or.inl ⟨rfl, (Option.some.inj hs).symm⟩
  | cons item rest =>
    obtain ⟨m, hm⟩ := h.sources item (List.mem_cons_self ..)
    obtain ⟨w', hrun, hqueue, hsame, hplain, hval⟩ := consume_cons h.queue henv h.plain hm
    simp only [step, hrun] at hs
    obtain rfl := Option.some.inj hs
    refine Or.inr ⟨item, rest, m, rfl, ⟨hqueue, hplain, ?_, ?_⟩, hm, hval⟩
    · intro item' hitem'
      obtain ⟨m', hm'⟩ := h.sources item' (List.mem_cons_of_mem _ hitem')
      exact ⟨m', (hsame _).trans hm'⟩
    · intro i value hvalue
      rw [hval, Option.map_eq_some_iff] at hvalue
      obtain ⟨value₀, hvalue₀, rfl⟩ := hvalue
      rw [applyItem_congr hsame]
      exact h.acked i value₀ hvalue₀

/-! ### Runs -/

/-- Commands can be launched. -/
def Launching (_ : State κ) : Label κ → Prop
  | .request .. => True
  | .consume env => env.Launches

/-- The server before the first request. -/
def start (w : CoAPServer κ) : State κ :=
  { server := w, acked := fun i => (valueAt w i).getD [] }

/-- **Along a run** the invariant holds, and the resources are there. -/
theorem run_inv {w : CoAPServer κ} (hq : Represents w.queue []) (hplain : ∀ r ∈ w.resources, Plain r)
    {s : State κ} (hrun : Runs step Launching (start w) s) :
    (∃ L, Inv s L) ∧ ∀ i, (valueAt s.server i).isSome = (valueAt w i).isSome := by
  refine Runs.invariant (P := fun s : State κ => (∃ L, Inv s L) ∧
    ∀ i, (valueAt s.server i).isSome = (valueAt w i).isSome) ?_ hrun
    ⟨⟨[], hq, hplain, by simp, ?_⟩, fun _ => rfl⟩
  · rintro s l s' ⟨⟨L, h⟩, hsome⟩ hl hs
    cases l with
    | request i req type env resp =>
      obtain ⟨hres, h'⟩ := request_inv h hs
      exact ⟨h', fun k => by rw [← hsome, valueAt, valueAt, hres]⟩
    | consume env =>
      obtain ⟨-, rfl⟩ | ⟨item, rest, m, -, h', -, hval⟩ := consume_inv h hl hs
      · exact ⟨⟨L, h⟩, hsome⟩
      · exact ⟨⟨rest, h'⟩, fun k => by rw [hval, Option.isSome_map, hsome]⟩
  · intro i value hvalue
    have hv : valueAt w i = some value := hvalue
    show value = (valueAt w i).getD []
    rw [hv, Option.getD_some]

/-- **The last acknowledged write wins.** In every state that requests and rounds of the queue thread
lead to, processing the items still queued gives each resource the payload of the last `PUT` or
`POST` to a storing method of it that was answered with success, or its first value where there is
none. A step changes the value of a resource only by taking the item of such a request to it from the
queue. -/
theorem last_write_wins {w : CoAPServer κ} (hq : Represents w.queue [])
    (hplain : ∀ r ∈ w.resources, Plain r) {s : State κ}
    (hrun : Runs step Launching (start w) s) :
    (∀ env : ProcEnv, env.Launches → ∃ w',
      (processAll env (contents s.server.queue)).run s.server = .ok ⟨⟩ w' ∧
      ∀ i r, w.resources[i]? = some r → valueAt w' i = some (s.acked i)) ∧
    ∀ l s', Launching s l → step s l = some s' → ∀ i, valueAt s'.server i ≠ valueAt s.server i →
      ∃ env item rest m, l = .consume env ∧ contents s.server.queue = item :: rest ∧
        item.src.resource = i ∧ methodAt s.server.resources item.src = some m ∧ Stores m ∧
        valueAt s'.server i = some item.data := by
  obtain ⟨⟨L, h⟩, hsome⟩ := run_inv hq hplain hrun
  constructor
  · intro env henv
    obtain ⟨w', hrun', hval⟩ := processAll_applies henv L h.plain h.sources
    rw [h.queue.contents_eq]
    refine ⟨w', hrun', fun i r hr => ?_⟩
    have hi : (valueAt s.server i).isSome := by
      rw [hsome, valueAt, hr]
      rfl
    obtain ⟨value, hvalue⟩ := Option.isSome_iff_exists.mp hi
    rw [hval, hvalue, Option.map_some, h.acked i value hvalue]
  · intro l s' hl hs i hne
    cases l with
    | request k req type env resp =>
      obtain ⟨hres, -⟩ := request_inv h hs
      exact absurd (by rw [valueAt, valueAt, hres]) hne
    | consume env =>
      obtain ⟨-, rfl⟩ | ⟨item, rest, m, rfl, h', hm, hval⟩ := consume_inv h hl hs
      · exact absurd rfl hne
      · refine ⟨env, item, rest, m, rfl, h.queue.contents_eq, ?_⟩
        have hi := hval i
        simp only [applyItem, hm] at hi
        by_cases happ : item.src.resource = i ∧ Stores m
        · simp only [if_pos happ] at hi
          obtain ⟨r, hr, -⟩ := methodAt_eq_some.mp hm
          refine ⟨happ.1, hm, happ.2, ?_⟩
          rw [hi, valueAt, ← happ.1, hr]
          rfl
        · simp only [if_neg happ, Option.map_id'] at hi
          exact absurd hi hne

/-- Commands that exit at once. -/
def quiet : ProcEnv :=
  { localtime := fun _ => Timestamps.epoch, shell := fun _ _ _ _ _ _ => .exited 0 [] }

/-- A request with one byte. -/
def putByte : Request ℕ := ⟨0, some ⟨[7], 0, 1, by decide, by decide⟩, true⟩

theorem last_write_wins_put : ∃ s, Runs step Launching (start (putServer Cache.empty)) s ∧
    valueAt s.server 0 = some (str "12345") ∧ ∃ w',
      (processAll quiet (contents s.server.queue)).run s.server = .ok ⟨⟩ w' ∧
      valueAt w' 0 = some [7] := by
  obtain ⟨s, hs, hvalue, hacked⟩ : ∃ s,
      step (start (putServer Cache.empty))
        (.request 0 putByte .put ⟨⟨0, 0⟩, []⟩ ⟨.empty, .con, [], none⟩) = some s ∧
      valueAt s.server 0 = some (str "12345") ∧ s.acked 0 = [7] := ⟨_, rfl, rfl, rfl⟩
  have hrun : Runs step Launching (start (putServer Cache.empty)) s := 
    (Runs.refl _).snoc (by trivial) hs
  have hplain : ∀ r ∈ (putServer Cache.empty).resources, Plain r := by
    intro r hr
    obtain rfl := List.mem_singleton.mp hr
    exact ⟨rfl, by simp [putResource, ResourceMethod.getMethodType]⟩
  obtain ⟨w', hw', hval⟩ := (last_write_wins (putServer_queue _) hplain hrun).1 quiet
    fun _ _ _ _ _ _ => by simp [quiet]
  exact ⟨s, hrun, hvalue, w', hw', by rw [hval 0 putResource rfl, hacked]⟩

end CoapServer.Server.Writes
