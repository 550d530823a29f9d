import CoapServer.Resources.Escapes
import CoapServer.Server.Machine
import CoapServer.Server.Writes

/-! # Reading a resource

The item of a `GET` carries the value at the time of the request. A `GET` method that stores sets the
value to the text of its first formatter when the item is processed, so reading a resource may change
its value, and undo what was written since. A round of the queue thread leaves what was `kept`, the
value that the last item other than a `GET` without a command left, if and only if the text it stores
is the value that is there (`reads_are_safe`). -/

namespace CoapServer.Server.Safe

open CoapServer.Basic CoapServer.Config CoapServer.Lib.Frame CoapServer.Lib.Run
open CoapServer.Resources.Files CoapServer.Resources.Formatter CoapServer.Resources.Object
open CoapServer.Resources.Escapes (decode_eq_self_iff)
open CoapServer.Blocks.SessionData CoapServer.Queue.Sequential CoapServer.Server.World
open CoapServer.Server.Requests CoapServer.Server.Process CoapServer.Server.Acknowledgement
open CoapServer.Server.Machine

variable {κ : Type}

/-- A `GET` method without a command. -/
def Reading (m : ResourceMethod) : Prop := m.getMethodType = .get ∧ m.config.cmd = []

instance (m : ResourceMethod) : Decidable (Reading m) := by
  unfold Reading
  infer_instance

/-- **What a `GET` without a command stores**, if anything. -/
def storedText (m : ResourceMethod) (data : Str) : Option Str :=
  if m.config.store then m.fmts.head?.map (·.decode data) else none

/-- The item that the queue thread takes next, and its method. -/
def nextItem (w : CoAPServer κ) : Option (RequestQueueItem × ResourceMethod) := do
  let item ← (contents w.queue).head?
  let m ← Writes.methodAt w.resources item.src
  return (item, m)

/-- The server, and the value of each resource that the last item other than a `GET` without a
command left. -/
structure State (κ : Type) extends Writes.State κ where
  kept : ℕ → Option Str

/-- What is kept after a round of the queue thread. -/
def keptAfter (w w' : CoAPServer κ) (kept : ℕ → Option Str) : ℕ → Option Str :=
  match nextItem w with
  | none => kept
  | some (item, m) =>
    if Reading m then kept
    else Function.update kept item.src.resource (Writes.valueAt w' item.src.resource)

/-- **The step**, with what is kept. -/
def step [DecidableEq κ] (s : State κ) (l : Writes.Label κ) : Option (State κ) :=
  (Writes.step s.toState l).map fun t =>
    { t with
      kept := match l with
        | .request .. => s.kept
        | .consume _ => keptAfter s.server t.server s.kept }

/-- **The step stores no other value**: what a `GET` without a command stores is the value that is
there. -/
def Harmless (s : State κ) : Writes.Label κ → Prop
  | .request .. => True
  | .consume _ => ∀ item m, nextItem s.server = some (item, m) → Reading m →
      ∀ text, storedText m item.data = some text →
        Writes.valueAt s.server item.src.resource = some text

/-- A server, before anything was read. -/
def start (w : CoAPServer κ) : State κ :=
  { Writes.start w with kept := Writes.valueAt w }

/-! ### What is set -/

theorem setValue_value (r : Resource) (value : Str) :
    Yields (fun r' => r'.value = value) (r.setValue value) :=
  Yields.ite (Yields.bind_any fun _ => Yields.bind_any fun _ =>
    Yields.pure (notifyObservers_value _)) (Yields.pure (notifyObservers_value _))

/-- `setValue`, where it returns. -/
theorem setValueAt_ok {w w' : CoAPServer κ} {i : ℕ} {value : Str} {u : Unit}
    (h : (setValueAt i value).run w = .ok u w') (j : ℕ) :
    Writes.valueAt w' j = if j = i then some value else Writes.valueAt w j := by
  obtain ⟨r, w₁, hget, h₁⟩ := run_bind_ok h
  obtain ⟨hr, rfl⟩ := getResource_eq_ok hget
  obtain ⟨r', w₂, hfile, h₂⟩ := run_bind_ok h₁
  obtain ⟨fs, hrun, rfl⟩ := onFiles_eq_ok hfile
  obtain ⟨-, rfl⟩ := EStateM.Result.ok.inj h₂
  have hlt : i < w₁.resources.length := (List.getElem?_eq_some_iff.mp hr).1
  simp only [Writes.valueAt, List.getElem?_set]
  by_cases hj : i = j
  · subst hj
    rw [if_pos rfl, if_pos hlt, if_pos rfl, Option.map_some, setValue_value r value _ _ _ hrun]
  · rw [if_neg hj, if_neg (Ne.symm hj)]

/-- An item leaves the values of the other resources. -/
theorem item_others {w w' : CoAPServer κ} {item : RequestQueueItem} {env : ProcEnv} {ret : ℤ}
    (h : (handleRequestQueueItem item env).run w = .ok ret w') {j : ℕ}
    (hj : j ≠ item.src.resource) : Writes.valueAt w' j = Writes.valueAt w j := by
  have hset : ∀ value, Keeps (fun w : CoAPServer κ => Writes.valueAt w j)
      (setValueAt item.src.resource value) := by
    intro value w u w' h
    exact (setValueAt_ok h j).trans (if_neg hj)
  exact keeps_item (fun _ _ _ _ => rfl) hset rfl env _ _ _ h

/-! ### A `GET` without a command -/

section Item
variable {M : Type → Type} [Monad M] [LawfulMonad M] (ops : ItemOps M) {m : ResourceMethod}

/-- Without a command, the formatters after the first only format. -/
theorem formatLoop_rest (hcmd : m.config.cmd = []) (data : Str) (fmts : List Format) :
    ∀ (k : ℕ) (sss : List Str), formatLoop ops m data fmts (k + 1) sss =
      pure (sss ++ fmts.map (·.decode data)) := by
  induction fmts with
  | nil =>
    intro k sss
    rw [formatLoop, List.map_nil, List.append_nil]
  | cons fmt fmts ih =>
    intro k sss
    have hnot : ¬ (m.getMethodType = .get ∧ m.config.store = true ∧ k + 1 = 0) :=
      fun h => absurd h.2.2 (Nat.succ_ne_zero k)
    simp only [formatLoop, formatItem, storeFirst, if_neg hnot, hcmd, ne_eq, not_true_eq_false,
      if_false, pure_bind, ih, List.append_assoc, List.singleton_append, List.map_cons]

/-- **A `GET` without a command** stores the text of the first formatter, if it stores. -/
theorem processItem_reading (hm : Reading m) (data : Str) : processItem ops m data = (do
      (storedText m data).elim (pure ⟨⟩) ops.setValue
      return m.fmts.map (·.decode data)) := by
  obtain ⟨hget, hcmd⟩ := hm
  rw [processItem_get ops m hget, storedText]
  cases m.fmts with
  | nil => simp [formatLoop]
  | cons fmt fmts =>
    by_cases hstore : m.config.store = true
    · simp [formatLoop, formatItem, storeFirst, hcmd, hget, hstore, formatLoop_rest ops hcmd]
    · simp [formatLoop, formatItem, storeFirst, hcmd, hstore, formatLoop_rest ops hcmd]

end Item

/-- An item that is processed has a method. -/
theorem item_method {w w' : CoAPServer κ} {item : RequestQueueItem} {env : ProcEnv} {ret : ℤ}
    (h : (handleRequestQueueItem item env).run w = .ok ret w') : ∃ r m,
      Writes.methodAt w.resources item.src = some m ∧
      (handleItem (serverOps item.src.resource r m env) m (env.timestamp item.time) r.getPath
        item.data).run w = .ok ret w' := by
  obtain ⟨r, w₁, hget, h₁⟩ := run_bind_ok h
  obtain ⟨hr, rfl⟩ := getResource_eq_ok hget
  cases hm : r.methods[item.src.method]? with
  | none =>
    rw [hm] at h₁
    cases h₁
  | some m =>
    rw [hm] at h₁
    exact ⟨r, m, Writes.methodAt_eq_some.mpr ⟨r, hr, hm⟩, h₁⟩

/-- **What processing the item of a `GET` does** to the value of its resource. -/
theorem item_reading {w w' : CoAPServer κ} {item : RequestQueueItem} {m : ResourceMethod}
    {env : ProcEnv} {ret : ℤ} (h : (handleRequestQueueItem item env).run w = .ok ret w')
    (hmeth : Writes.methodAt w.resources item.src = some m) (hm : Reading m) :
    Writes.valueAt w' item.src.resource =
      (storedText m item.data).or (Writes.valueAt w item.src.resource) := by
  obtain ⟨r, m', hmeth', hrun⟩ := item_method h
  obtain rfl := Option.some.inj (hmeth.symm.trans hmeth')
  obtain ⟨sss, w₁, h₁, h₂⟩ := run_bind_ok hrun
  obtain ⟨u, w₂, h₃, h₄⟩ := run_bind_ok h₂
  obtain ⟨-, rfl⟩ := EStateM.Result.ok.inj h₄
  obtain ⟨w₃, hlines, houts⟩ := writeValues_run item.src.resource r m env
    (linePrefix m (env.timestamp item.time) r.getPath) sss w₁
  obtain ⟨-, rfl⟩ := EStateM.Result.ok.inj (hlines.symm.trans h₃)
  have hvalue : Writes.valueAt w₃ item.src.resource = Writes.valueAt w₁ item.src.resource := by
    rw [Writes.valueAt, Writes.valueAt, houts.resources]
  rw [processItem_reading _ hm] at h₁
  obtain ⟨v, w₄, hstore, h₅⟩ := run_bind_ok h₁
  obtain ⟨-, rfl⟩ := EStateM.Result.ok.inj h₅
  rw [hvalue]
  cases htext : storedText m item.data with
  | none =>
    rw [htext] at hstore
    obtain ⟨-, rfl⟩ := EStateM.Result.ok.inj hstore
    rfl
  | some text =>
    rw [htext] at hstore
    exact (setValueAt_ok hstore _).trans (if_pos rfl)

/-- **A value that is still there** stays if and only if nothing is stored, or it is written as it is:
by `STRING`, with all of it printable. -/
theorem harmless_fresh {s : State κ} {item : RequestQueueItem} {m : ResourceMethod}
    (hnext : nextItem s.server = some (item, m)) (hm : Reading m)
    (hfresh : Writes.valueAt s.server item.src.resource = some item.data) (env : ProcEnv) :
    Harmless s (.consume env) ↔ (m.config.store = true → ∀ fmt ∈ m.fmts.head?,
      item.data = [] ∨ fmt = .text ∧ ∀ ch ∈ item.data, isPrint ch) := by
  have hstored : (∀ text, storedText m item.data = some text → item.data = text) ↔
      (m.config.store = true → ∀ fmt ∈ m.fmts.head?, fmt.decode item.data = item.data) := by
    unfold storedText
    by_cases hstore : m.config.store = true
    · cases m.fmts.head? with
      | none => simp
      | some fmt => simp [hstore, eq_comm]
    · simp [hstore]
  simp only [← decode_eq_self_iff, ← hstored, Harmless, hnext, Option.some.injEq, Prod.mk.injEq]
  constructor
  · intro h text htext
    exact Option.some.inj (hfresh.symm.trans (h item m ⟨rfl, rfl⟩ hm text htext))
  · rintro h _ _ ⟨rfl, rfl⟩ - text htext
    rw [hfresh, h text htext]

/-! ### The steps -/

section Steps
variable [DecidableEq κ] {s s' : State κ} {L : List RequestQueueItem}
  (hq : Represents s.server.queue L)
include hq

/-- **A request** leaves the values, and the queue in order. -/
theorem step_request {i : ℕ} {req : Request κ} {type : ResourceMethodType} {env : Env}
    {resp : Response} (hs : step s (.request i req type env resp) = some s') :
    s'.server.resources = s.server.resources ∧ s'.kept = s.kept ∧
      ∃ L', Represents s'.server.queue L' := by
  obtain ⟨t, ht, rfl⟩ := Option.map_eq_some_iff.mp hs
  obtain ⟨r, j, m, resp', w', hr, hfind, htype, hrun, rfl⟩ := Writes.step_request ht
  obtain ⟨hmt, -, hmem⟩ := findMethod_eq_some hfind
  obtain ⟨resp'', w'', hrun', hhandled, hres⟩ : Acknowledged (fun _ => True) s.server i r req type
      env resp := handle_handled hr hq htype ⟨m, List.mem_of_getElem? hmem, hmt⟩ fun _ _ _ => trivial
  obtain ⟨rfl, rfl⟩ := EStateM.Result.ok.inj (hrun.symm.trans hrun')
  refine ⟨hres, rfl, ?_⟩
  cases hhandled with
  | waiting _ hqueue => exact ⟨L, hqueue ▸ hq⟩
  | refused _ hqueue _ => exact ⟨L, hqueue ▸ hq⟩
  | queued _ _ _ _ _ _ _ hqueue _ _ => exact ⟨_, hqueue⟩

omit [DecidableEq κ] in
/-- A round of the queue thread finds the queue empty, or takes the first item. -/
theorem consume_ok {w' : CoAPServer κ} {env : ProcEnv} {u : Unit}
    (h : (consume env).run s.server = .ok u w') : (L = [] ∧ w' = s.server) ∨
      ∃ item rest q ret, L = item :: rest ∧ Represents q rest ∧
        (handleRequestQueueItem item env).run { s.server with queue := q } = .ok ret w' := by
  cases L with
  | nil =>
    rw [Writes.consume_nil hq env] at h
    exact Or.inl ⟨rfl, (EStateM.Result.ok.inj h).2.symm⟩
  | cons item rest =>
    obtain ⟨q, hrun, hrep, -⟩ := dequeue_cons hq
    simp only [consume, EStateM.run_bind, onQueue_ok (count_run hq), List.length_cons, ne_eq,
      Nat.succ_ne_zero, not_false_eq_true, if_true, onQueue_ok hrun] at h
    refine Or.inr ⟨item, rest, q, ?_⟩
    cases hitem : (handleRequestQueueItem item env).run { s.server with queue := q } with
    | error e w₁ =>
      rw [hitem] at h
      cases h
    | ok ret w₁ =>
      rw [hitem] at h
      obtain ⟨-, rfl⟩ := EStateM.Result.ok.inj h
      exact ⟨ret, rfl, hrep, rfl⟩

omit [DecidableEq κ] hq in
/-- An item that leaves the values of the other resources, and as a `GET` without a command stores
at most its text, keeps the values if and only if it stores no other value. -/
theorem keeps_iff_harmless {w' : CoAPServer κ} {env : ProcEnv} {item : RequestQueueItem}
    {m : ResourceMethod} (hnext : nextItem s.server = some (item, m))
    (hothers : ∀ i, i ≠ item.src.resource → Writes.valueAt w' i = Writes.valueAt s.server i)
    (hread : Reading m → Writes.valueAt w' item.src.resource =
      (storedText m item.data).or (Writes.valueAt s.server item.src.resource))
    (hvalues : ∀ i, Writes.valueAt s.server i = s.kept i) :
    (∀ i, Writes.valueAt w' i = keptAfter s.server w' s.kept i) ↔ Harmless s (.consume env) := by
  simp only [Harmless, hnext, Option.some.injEq, Prod.mk.injEq, keptAfter]
  by_cases hm : Reading m
  · rw [if_pos hm]
    constructor
    · rintro hkept _ _ ⟨rfl, rfl⟩ - text htext
      rw [hvalues, ← hkept, hread hm, htext, Option.some_or]
    · intro hharmless i
      by_cases hi : i = item.src.resource
      · subst hi
        rw [hread hm, ← hvalues]
        cases htext : storedText m item.data with
        | none => exact Option.none_or
        | some text => exact (hharmless item m ⟨rfl, rfl⟩ hm text htext).symm
      · rw [hothers i hi, hvalues]
  · rw [if_neg hm]
    refine iff_of_true (fun i => ?_) ?_
    · by_cases hi : i = item.src.resource
      · subst hi
        rw [Function.update_self]
      · rw [Function.update_of_ne hi, hothers i hi, hvalues]
    · rintro _ _ ⟨rfl, rfl⟩ hm'
      exact absurd hm' hm

/-- **A round of the queue thread**: where the values are those kept, they are afterwards if and only
if the round stores no other value. -/
theorem step_consume {env : ProcEnv} (hs : step s (.consume env) = some s') :
    (∃ L', Represents s'.server.queue L') ∧
    ((∀ i, Writes.valueAt s.server i = s.kept i) →
      ((∀ i, Writes.valueAt s'.server i = s'.kept i) ↔ Harmless s (.consume env))) := by
  obtain ⟨t, ht, rfl⟩ := Option.map_eq_some_iff.mp hs
  obtain ⟨w', hrun, rfl⟩ : ∃ w', (consume env).run s.server = .ok ⟨⟩ w' ∧
      t = { s.toState with server := w' } := by
    simp only [Writes.step] at ht
    split at ht
    · exact ⟨_, ‹_›, (Option.some.inj ht).symm⟩
    · cases ht
  obtain ⟨rfl, rfl⟩ | ⟨item, rest, q, ret, rfl, hrep, hitem⟩ := consume_ok hq hrun
  · have hnext : nextItem s.server = none := by simp [nextItem, hq.contents_eq]
    have hkept : ∀ w, keptAfter s.server w s.kept = s.kept := fun w => by simp [keptAfter, hnext]
    refine ⟨⟨[], hq⟩, fun hvalues => iff_of_true ?_ ?_⟩
    · simpa only [hkept] using hvalues
    · intro item m h
      rw [hnext] at h
      cases h
  · obtain ⟨r, m, hmeth, -⟩ := item_method hitem
    have hnext : nextItem s.server = some (item, m) := by
      have hmeth' : Writes.methodAt s.server.resources item.src = some m := hmeth
      simp [nextItem, hq.contents_eq, hmeth']
    have hqueue : w'.queue = q :=
      keeps_handleRequestQueueItem (f := CoAPServer.queue)
        ⟨fun _ _ _ _ => rfl, fun _ _ _ _ _ _ => rfl⟩ item env _ _ _ hitem
    have hothers : ∀ i, i ≠ item.src.resource →
        Writes.valueAt w' i = Writes.valueAt s.server i := fun i hi => item_others hitem hi
    have hread : Reading m → Writes.valueAt w' item.src.resource =
        (storedText m item.data).or (Writes.valueAt s.server item.src.resource) :=
      fun hm => (item_reading hitem hmeth hm).trans rfl
    exact ⟨⟨rest, hqueue ▸ hrep⟩, keeps_iff_harmless hnext hothers hread⟩

end Steps

/-! ### Runs -/

section Run
variable [DecidableEq κ]

/-- The values are those that were kept, and the queue is in order. -/
def Inv (s : State κ) : Prop :=
  (∃ L, Represents s.server.queue L) ∧ ∀ i, Writes.valueAt s.server i = s.kept i

/-- **A step keeps the invariant** if and only if it stores no other value. -/
theorem step_inv_iff {s s' : State κ} {l : Writes.Label κ} (h : Inv s) (hs : step s l = some s') :
    Inv s' ↔ Harmless s l := by
  obtain ⟨⟨L, hq⟩, hvalues⟩ := h
  cases l with
  | request i req type env resp =>
    obtain ⟨hres, hkept, hq'⟩ := step_request hq hs
    refine iff_of_true ⟨hq', fun j => ?_⟩ trivial
    rw [hkept, ← hvalues, Writes.valueAt, Writes.valueAt, hres]
  | consume env =>
    obtain ⟨hq', hiff⟩ := step_consume hq hs
    rw [← hiff hvalues]
    exact and_iff_right hq'

/-- **A `GET` reads the value.** -/
theorem get_reads {w w' : CoAPServer κ} {L : List RequestQueueItem} (hq : Represents w.queue L)
    {i : ℕ} {req : Request κ} {env : Env} {resp resp' : Response} (hresp : resp.code ≠ .content)
    (hrun : (handleCoAPRequest i req .get env resp).run w = .ok resp' w')
    (hcode : resp'.code = .content) : resp'.data = Writes.valueAt w i := by
  obtain ⟨r, w₁, hget, h₁⟩ := run_bind_ok hrun
  obtain ⟨hr, -⟩ := getResource_eq_ok hget
  rw [handle_noBody hr (by decide)] at hrun
  cases hm : findMethod .get r.methods 0 with
  | none =>
    simp only [forward, hm] at hrun
    obtain ⟨rfl, -⟩ := EStateM.Result.ok.inj hrun
    exact absurd hcode hresp
  | some jm =>
    obtain ⟨j, m⟩ := jm
    rcases Nat.lt_or_ge (L.length + 1) w.queue.maxSize with hroom | hfull
    · obtain ⟨q', hrun', -, -⟩ := forward_room hq (Or.inl rfl) hm hroom i [] env resp
      obtain ⟨rfl, -⟩ := EStateM.Result.ok.inj (hrun'.symm.trans hrun)
      rw [accepted, if_pos (findMethod_eq_some hm).1, Writes.valueAt, hr]
      rfl
    · have hlast : L.length + 1 = w.queue.maxSize := by
        have := hq.room
        omega
      obtain ⟨rfl, -⟩ := EStateM.Result.ok.inj
        ((forward_full hq (Or.inl rfl) hm hlast i [] env resp).symm.trans hrun)
      cases hcode

/-- **Reading is safe where no other value is stored.** In a run of requests and rounds of the queue
thread in which every `GET` without a command that stores finds the text that it stores as the value,
the values are those that the other items left, and are what a `GET` reads. A round that finds
another value does not keep them. -/
theorem reads_are_safe {w : CoAPServer κ} {L : List RequestQueueItem} (hq : Represents w.queue L)
    {s : State κ} (hrun : Runs step Harmless (start w) s) :
    (∀ i, Writes.valueAt s.server i = s.kept i) ∧
    (∀ i req env resp resp' w', resp.code ≠ .content →
      (handleCoAPRequest i req .get env resp).run s.server = .ok resp' w' →
      resp'.code = .content → resp'.data = s.kept i) ∧
    ∀ l s', step s l = some s' →
      ((∀ i, Writes.valueAt s'.server i = s'.kept i) ↔ Harmless s l) := by
  have hinv : Inv s := Runs.invariant (P := Inv)
    (fun s l s' h hl hs => (step_inv_iff h hs).mpr hl) hrun ⟨⟨L, hq⟩, fun _ => rfl⟩
  obtain ⟨⟨L', hq'⟩, hvalues⟩ := hinv
  refine ⟨hvalues, fun i req env resp resp' w' hresp hget hcode => ?_, fun l s' hs => ?_⟩
  · rw [get_reads hq' hresp hget hcode, hvalues]
  · rw [← step_inv_iff ⟨⟨L', hq'⟩, hvalues⟩ hs]
    refine (and_iff_right ?_).symm
    cases l with
    | request i req type env resp => exact (step_request hq' hs).2.2
    | consume env => exact (step_consume hq' hs).1

end Run

/-- A resource that is read and written. -/
def readResource : Resource :=
  { putResource with
    methods := [{ config := { type := .get, store := true }, fmts := [.text] },
      { config := { type := .put, store := true }, fmts := [] }] }

/-- A server with that resource and an empty queue. -/
def readServer : CoAPServer ℕ :=
  { putServer Cache.empty with
    resources := [readResource]
    queue := { maxSize := 4, items := List.replicate 4 default, start := 0, end_ := 0 } }

theorem readServer_queue : Represents readServer.queue [] := by
  have hnew : new 4 = some readServer.queue := rfl
  exact (new_represents (by decide) hnew).1

/-- A `GET` of that resource. -/
def readLabel : Writes.Label ℕ :=
  .request 0 ⟨0, none, true⟩ .get ⟨⟨0, 0⟩, []⟩ ⟨.empty, .con, [], none⟩

/-- A `PUT` of one byte to it. -/
def writeLabel : Writes.Label ℕ :=
  .request 0 Writes.putByte .put ⟨⟨0, 0⟩, []⟩ ⟨.empty, .con, [], none⟩

/-- What is seen of a run: the value and what is kept, and the next item. -/
def seen (s : State ℕ) : Option Str × Option Str × Option (RequestQueueItem × ResourceMethod) :=
  (Writes.valueAt s.server 0, s.kept 0, nextItem s.server)

theorem reads_are_safe_get : ∃ s, Runs step Harmless (start readServer) s ∧
    nextItem s.server = none ∧ ∀ i, Writes.valueAt s.server i = s.kept i := by
  have hread : ((step (start readServer) readLabel).map seen) =
      some (some (str "12345"), some (str "12345"), some (⟨⟨0, 0⟩, str "12345", ⟨0, 0⟩⟩,
        { config := { type := .get, store := true }, fmts := [.text] })) := by decide +kernel
  have hprocessed : (([readLabel, .consume Writes.quiet].foldlM step (start readServer)).map seen) =
      some (some (str "12345"), some (str "12345"), none) := by decide +kernel
  obtain ⟨s₁, hs₁, hseen₁⟩ := Option.map_eq_some_iff.mp hread
  obtain ⟨s, hs, hseen⟩ := Option.map_eq_some_iff.mp hprocessed
  have hs : step s₁ (.consume Writes.quiet) = some s := by
    simpa only [List.foldlM_cons, List.foldlM_nil, hs₁, Option.bind_eq_bind, Option.bind_some,
      Option.pure_def, Option.bind_fun_some] using hs
  simp only [seen, Prod.mk.injEq] at hseen₁ hseen
  have hharmless : Harmless s₁ (.consume Writes.quiet) := by
    intro item m hitem _ text htext
    obtain ⟨rfl, rfl⟩ := Prod.mk.inj (Option.some.inj (hseen₁.2.2.symm.trans hitem))
    exact hseen₁.1.trans htext
  have hrun : Runs step Harmless (start readServer) s :=
    ((Runs.refl _).snoc (by trivial) hs₁).snoc hharmless hs
  exact ⟨s, hrun, hseen.2.2, (reads_are_safe readServer_queue hrun).1⟩

/-- A byte is written, the resource is read before the item is processed, and processing the `GET`
brings the old value back. -/
theorem read_undoes_write : ¬ ∀ (w : CoAPServer ℕ) (L : List RequestQueueItem),
    Represents w.queue L → ∀ s, Reach step (start w) s →
      ∀ i, Writes.valueAt s.server i = s.kept i := by
  intro h
  have hrun : (([writeLabel, readLabel, .consume Writes.quiet, .consume Writes.quiet].foldlM step
      (start readServer)).map seen) = some (some (str "12345"), some [7], none) := by decide +kernel
  obtain ⟨s, hs, hseen⟩ := Option.map_eq_some_iff.mp hrun
  simp only [seen, Prod.mk.injEq] at hseen
  have hsame := h readServer [] readServer_queue s (reach_of_foldlM _ hs) 0
  rw [hseen.1, hseen.2.1] at hsame
  exact absurd hsame (by decide)

end CoapServer.Server.Safe
