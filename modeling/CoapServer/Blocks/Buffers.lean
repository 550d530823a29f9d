import CoapServer.Blocks.SessionData
import CoapServer.Lib.Frame
import CoapServer.Lib.Memory
import CoapServer.Lib.Trace

/-! # The buffers of block-wise bodies

`sessionGetData` keeps the buffer of a body on the heap: the application data of the cache entry is a
pointer to it, made with `new` at the first block and given up with `delete` at the last one; what is
left is freed by the callback where the library drops the entry. Here the function is taken with its
pointers, where an access to a buffer that is not there, or a second `delete`, is a fault.

The invariant is that the entries own the buffers (`Owned`). With it the function does on the heap
what `SessionData.sessionGetData` does on values (`session_refines`), so no sequence of requests and
dropped entries ever faults or leaks (`buffers_sound`). -/

namespace CoapServer.Blocks.Buffers

open CoapServer.Basic CoapServer.Lib.Frame CoapServer.Lib.Memory CoapServer.Lib.Splice
open CoapServer.Lib.Trace CoapServer.Blocks.SessionData

variable {κ : Type} [DecidableEq κ]

/-- An entry of the cache: a pointer to its application data, and whether `_cache_free_app_data` is
its callback. -/
structure Entry where
  appData : Option ℕ
  callback : Bool

/-- **The cache and the heap.** -/
structure Store (κ : Type) where
  heap : Heap Str
  cache : κ → Option Entry

/-- A call on them. -/
abbrev BufM (κ : Type) := EStateM Fault (Store κ)

/-- Neither entries nor buffers. -/
def Store.empty : Store κ := { heap := Heap.empty, cache := fun _ => none }

/-! ### The function -/

/-- `new std::vector<std::byte>`. -/
def newBuffer : BufM κ ℕ := do
  let s ← get
  set { s with heap := s.heap.new [] }
  return s.heap.fresh

def readBuffer (p : ℕ) : BufM κ Str := do
  match (← get).heap.read p with
  | .ok buf => return buf
  | .error e => throw e

def writeBuffer (p : ℕ) (buf : Str) : BufM κ Unit := do
  match (← get).heap.write p buf with
  | .ok heap => modify fun s => { s with heap }
  | .error e => throw e

/-- `delete`. -/
def deleteBuffer (p : ℕ) : BufM κ Unit := do
  match (← get).heap.delete p with
  | .ok heap => modify fun s => { s with heap }
  | .error e => throw e

/-- `coap_cache_get_app_data`. -/
def getAppData (k : κ) : BufM κ (Option ℕ) := do return ((← get).cache k).bind Entry.appData

/-- `coap_new_cache_entry`, where there is the memory, and `coap_cache_set_app_data`, which overwrites
what was stored. -/
def setEntry (k : κ) (e : Entry) : BufM κ Unit :=
  modify fun s => { s with cache := Function.update s.cache k (some e) }

/-- A new buffer becomes the application data of the entry. -/
def makeBuffer (k : κ) : BufM κ Unit := do
  let dataSoFar ← newBuffer
  setEntry k { appData := some dataSoFar, callback := true }

/-- The entry of the block: found, or created; `none`, or a message where that fails. -/
def openEntry (path : Str) (req : Request κ) (b : Block) : BufM κ (Option Str) := do
  match (← get).cache req.key with
  | none =>
    if b.offset ≠ 0 then return some (entryNull path)
    else if req.newEntry then
      setEntry req.key { appData := none, callback := false }
      makeBuffer req.key
      return none
    else return some (entryFailed path)
  | some _ =>
    if b.offset = 0 then
      match ← getAppData req.key with
      | some dataSoFar => writeBuffer dataSoFar []
      | none => makeBuffer req.key
      return none
    else return none

/-- The data of the block goes into the buffer. -/
def insertBlock (path : Str) (k : κ) (b : Block) : BufM κ (Option Str) := do
  if b.data = [] then return none
  else
    match ← getAppData k with
    | none => return some (dataNull path)
    | some dataSoFar =>
      let buf ← readBuffer dataSoFar
      writeBuffer dataSoFar (splice 0 b.total b.offset b.data buf)
      return none

/-- What a call leaves besides the store: what it returns, `dataOut`, and lines on `std::cerr`. -/
structure Reply where
  ret : ℤ
  dataOut : Str
  err : List Str
  deriving DecidableEq

/-- The buffer is handed over. -/
def closeEntry (path : Str) (k : κ) : BufM κ Reply := do
  let dataSoFar ← getAppData k
  setEntry k { appData := none, callback := false }
  match dataSoFar with
  | none => return { ret := -1, dataOut := [], err := [dataNull path] }
  | some p =>
    let dataOut ← readBuffer p
    deleteBuffer p
    return { ret := 1, dataOut, err := [] }

/-- **`Resource::sessionGetData`**, with its pointers. `dataOut` is empty before the call. -/
def sessionGetData (path : Str) (req : Request κ) : BufM κ Reply := do
  match req.body with
  | none => return { ret := 1, dataOut := [], err := [] }
  | some b =>
    if b.data.length ≠ b.total then
      match ← openEntry path req b with
      | some msg => return { ret := -1, dataOut := [], err := [msg] }
      | none =>
        match ← insertBlock path req.key b with
        | some msg => return { ret := -1, dataOut := [], err := [msg] }
        | none =>
          if b.offset + b.data.length = b.total then closeEntry path req.key
          else return { ret := 0, dataOut := [], err := [] }
    else return { ret := 1, dataOut := b.data, err := [] }

/-- The callback of an entry, where it has one: `_cache_free_app_data`. Deleting a null pointer does
nothing. -/
def freeAppData (e : Entry) : BufM κ Unit :=
  match e.appData with
  | some p => if e.callback then deleteBuffer p else pure ⟨⟩
  | none => pure ⟨⟩

/-- The library drops an entry. -/
def dropEntry (k : κ) : BufM κ Unit := do
  match (← get).cache k with
  | none => return
  | some e =>
    freeAppData e
    modify fun s => { s with cache := Function.update s.cache k none }

/-! ### Ownership -/

/-- The pointers that the entries hold. -/
def held (s : Store κ) (k : κ) : Option ℕ := (s.cache k).bind Entry.appData

/-- **The entries own the buffers**, and those with a buffer have the callback. -/
structure Owned (s : Store κ) : Prop where
  owns : Owns (held s) s.heap
  callback : ∀ k e, s.cache k = some e → e.appData ≠ none → e.callback = true

/-- **The cache by value.** -/
def contents (s : Store κ) : Cache κ :=
  fun k => (s.cache k).map fun e => { appData := e.appData.bind s.heap.cells }

/-- **A call does on values** what `f` says, and keeps the entries the owners. -/
def Refines {β : Type} (m : BufM κ β) (s : Store κ) (b : β) (c : Cache κ) : Prop :=
  ∃ s', m.run s = .ok b s' ∧ Owned s' ∧ contents s' = c

section Store
variable {s : Store κ} {k : κ}

omit [DecidableEq κ]

theorem owned_empty : Owned (Store.empty : Store κ) :=
  ⟨owns_empty, fun k e h => by cases h⟩

theorem appData_contents (s : Store κ) (k : κ) :
    appData (contents s) k = view (held s) s.heap k := by
  unfold appData contents view held
  cases s.cache k <;> rfl

theorem readBuffer_run {p : ℕ} {buf : Str} (h : s.heap.read p = .ok buf) :
    (readBuffer p).run s = .ok buf s := by
  simp only [readBuffer, EStateM.run_bind, EStateM.run_get, h, EStateM.run_pure]

theorem writeBuffer_run {p : ℕ} {buf : Str} {heap : Heap Str} (h : s.heap.write p buf = .ok heap) :
    (writeBuffer p buf).run s = .ok ⟨⟩ { s with heap } := by
  simp only [writeBuffer, EStateM.run_bind, EStateM.run_get, h, EStateM.run_modify]

theorem deleteBuffer_run {p : ℕ} {heap : Heap Str} (h : s.heap.delete p = .ok heap) :
    (deleteBuffer p).run s = .ok ⟨⟩ { s with heap } := by
  simp only [deleteBuffer, EStateM.run_bind, EStateM.run_get, h, EStateM.run_modify]

end Store

section Entry
variable {s s' : Store κ} {k : κ}

/-- A store that differs in an entry and what it points to. -/
theorem contents_set {e : Entry} {v : Option Str}
    (hcache : s'.cache = Function.update s.cache k (some e))
    (hview : view (held s') s'.heap = Function.update (view (held s) s.heap) k v) :
    contents s' = setAppData (contents s) k v := by
  funext j
  have hj := congrFun hview j
  by_cases hjk : j = k
  · subst hjk
    rw [Function.update_self] at hj
    simp only [view, held, hcache, Function.update_self, Option.bind_some] at hj
    simp only [contents, setAppData, hcache, Function.update_self, Option.map_some, hj]
  · rw [Function.update_of_ne hjk] at hj
    simp only [view, held, hcache, Function.update_of_ne hjk] at hj
    simp only [contents, setAppData, hcache, Function.update_of_ne hjk]
    cases hs : s.cache j with
    | none => rfl
    | some e' =>
      simp only [hs, Option.bind_some] at hj
      simp only [Option.map_some, hj]

theorem held_set {e : Entry} (hcache : s'.cache = Function.update s.cache k (some e)) :
    held s' = Function.update (held s) k e.appData := by
  funext j
  by_cases hjk : j = k
  · subst hjk
    simp only [held, hcache, Function.update_self, Option.bind_some]
  · simp only [held, hcache, Function.update_of_ne hjk]

theorem callback_set {e : Entry} (h : Owned s)
    (hcache : s'.cache = Function.update s.cache k (some e))
    (he : e.appData ≠ none → e.callback = true) :
    ∀ j e', s'.cache j = some e' → e'.appData ≠ none → e'.callback = true := by
  intro j e' hj
  rw [hcache] at hj
  by_cases hjk : j = k
  · subst hjk
    rw [Function.update_self] at hj
    obtain rfl := Option.some.inj hj
    exact he
  · rw [Function.update_of_ne hjk] at hj
    exact h.callback j e' hj

/-- **A new buffer** for an entry without one. -/
theorem new_refines (h : Owned s) (hk : held s k = none) :
    Refines (makeBuffer k : BufM κ Unit) s ⟨⟩ (setAppData (contents s) k (some [])) := by
  obtain ⟨howns, hview⟩ := h.owns.new hk []
  let e : Entry := { appData := some s.heap.fresh, callback := true }
  let s' : Store κ := { heap := s.heap.new [], cache := Function.update s.cache k (some e) }
  have hheld : held s' = Function.update (held s) k (some s.heap.fresh) :=
    held_set (s := s) (e := e) rfl
  refine ⟨s', rfl, ⟨?_, callback_set h rfl fun _ => rfl⟩, contents_set rfl ?_⟩
  · rw [hheld]
    exact howns
  · rw [hheld]
    exact hview

omit [DecidableEq κ] in
theorem cache_of_held {p : ℕ} (hk : held s k = some p) :
    ∃ e, s.cache k = some e ∧ e.appData = some p := Option.bind_eq_some_iff.mp hk

/-- **Another content** for the buffer of an entry. -/
theorem write_refines (h : Owned s) {p : ℕ} (hk : held s k = some p) (buf : Str) :
    Refines (writeBuffer p buf : BufM κ Unit) s ⟨⟩ (setAppData (contents s) k (some buf)) := by
  obtain ⟨e, he, -⟩ := cache_of_held hk
  obtain ⟨howns, hview⟩ := h.owns.put hk buf
  refine ⟨_, writeBuffer_run (h.owns.write_eq hk buf), ⟨howns, h.callback⟩, ?_⟩
  have hsame : s.cache = Function.update s.cache k (some e) :=
    (Function.update_eq_self_iff.mpr he.symm).symm
  exact contents_set (s := s) (e := e) hsame hview

/-- An entry without a buffer is created, or loses what it had. -/
theorem setEntry_none (h : Owned s) (hk : held s k = none) :
    Refines (setEntry k { appData := none, callback := false } : BufM κ Unit) s ⟨⟩
      (setAppData (contents s) k none) := by
  let e : Entry := { appData := none, callback := false }
  let s' : Store κ := { s with cache := Function.update s.cache k (some e) }
  have hheld : held s' = held s := by
    rw [held_set (s := s) (k := k) (e := e) rfl]
    exact Function.update_eq_self_iff.mpr hk.symm
  refine ⟨s', rfl, ⟨?_, callback_set h rfl fun hne => absurd rfl hne⟩, contents_set rfl ?_⟩
  · rw [hheld]
    exact h.owns
  · rw [hheld]
    refine (Function.update_eq_self_iff.mpr ?_).symm
    rw [view, hk, Option.bind_none]

/-- **A buffer is deleted**, and its entry has none. -/
theorem deleted (h : Owned s) {p : ℕ} (hk : held s k = some p)
    (hheap : s'.heap = s.heap.drop p)
    (hcache : s'.cache = Function.update s.cache k (some { appData := none, callback := false })) :
    Owned s' ∧ contents s' = setAppData (contents s) k none := by
  obtain ⟨howns, hview⟩ := h.owns.drop hk
  have hheld : held s' = Function.update (held s) k none := held_set hcache
  refine ⟨⟨?_, callback_set h hcache fun hne => absurd rfl hne⟩, contents_set hcache ?_⟩
  · rw [hheld, hheap]
    exact howns
  · rw [hheld, hheap]
    exact hview

/-- **An entry is dropped** with the buffer it had. -/
theorem dropped (h : Owned s) {heap : Heap Str}
    (howns : Owns (Function.update (held s) k none) heap)
    (hview : view (Function.update (held s) k none) heap =
      Function.update (view (held s) s.heap) k none)
    (hheap : s'.heap = heap) (hcache : s'.cache = Function.update s.cache k none) :
    Owned s' ∧ contents s' = Function.update (contents s) k none := by
  have hheld : held s' = Function.update (held s) k none := by
    funext j
    by_cases hjk : j = k
    · subst hjk
      simp only [held, hcache, Function.update_self, Option.bind_none]
    · simp only [held, hcache, Function.update_of_ne hjk]
  refine ⟨⟨?_, fun j e hj => ?_⟩, ?_⟩
  · rw [hheld, hheap]
    exact howns
  · rw [hcache] at hj
    by_cases hjk : j = k
    · subst hjk
      rw [Function.update_self] at hj
      cases hj
    · rw [Function.update_of_ne hjk] at hj
      exact h.callback j e hj
  · funext j
    by_cases hjk : j = k
    · subst hjk
      simp only [contents, hcache, Function.update_self, Option.map_none]
    · have hj := congrFun hview j
      simp only [view, Function.update_of_ne hjk] at hj
      simp only [contents, hcache, Function.update_of_ne hjk, hheap]
      cases hs : s.cache j with
      | none => rfl
      | some e =>
        simp only [held, hs, Option.bind_some] at hj
        simp only [Option.map_some, hj]

end Entry

/-! ### The refinement -/

section Refine
variable {s : Store κ} {β γ : Type} {m : BufM κ β} {f : β → BufM κ γ} {b : β} {c : Cache κ}

omit [DecidableEq κ] in
theorem Refines.pure (h : Owned s) (b : β) : Refines (pure b) s b (contents s) := ⟨s, rfl, h, rfl⟩

omit [DecidableEq κ] in
/-- A call after another. -/
theorem Refines.bind (h : Refines m s b c) {g : γ} {c' : Cache κ}
    (hf : ∀ s', Owned s' → contents s' = c → Refines (f b) s' g c') : Refines (m >>= f) s g c' := by
  obtain ⟨s', hrun, howned, hc⟩ := h
  obtain ⟨s'', hrun', h'⟩ := hf s' howned hc
  exact ⟨s'', by rw [EStateM.run_bind, hrun]; exact hrun', h'⟩

omit [DecidableEq κ] in
theorem Refines.get {f : Store κ → BufM κ γ} {g : γ} (hf : Refines (f s) s g c) :
    Refines (MonadState.get >>= f) s g c := hf

omit [DecidableEq κ] in
theorem Refines.getAppData {k : κ} {f : Option ℕ → BufM κ γ} {g : γ}
    (hf : Refines (f (held s k)) s g c) : Refines (getAppData k >>= f) s g c := hf

omit [DecidableEq κ] in
theorem Refines.read {p : ℕ} {buf : Str} (hread : s.heap.read p = .ok buf) {f : Str → BufM κ γ}
    {g : γ} (hf : Refines (f buf) s g c) : Refines (readBuffer p >>= f) s g c := by
  obtain ⟨s', hrun, h⟩ := hf
  exact ⟨s', by rw [EStateM.run_bind, readBuffer_run hread]; exact hrun, h⟩

/-- A check by value: the message of a failure, which leaves the cache as it was, and the cache. -/
def checked (c : Cache κ) : Except Str (Cache κ) → Option Str × Cache κ
  | .error msg => (some msg, c)
  | .ok c' => (none, c')

variable (path : Str) (req : Request κ) (blk : Block) (h : Owned s)
include h

/-- The entry is opened as it is by value. -/
theorem openEntry_refines : Refines (openEntry path req blk) s
    (checked (contents s) (SessionData.openEntry path (contents s) req blk)).1
    (checked (contents s) (SessionData.openEntry path (contents s) req blk)).2 := by
  unfold openEntry SessionData.openEntry
  refine Refines.get ?_
  cases hs : s.cache req.key with
  | none =>
    have hc : contents s req.key = none := by rw [contents, hs, Option.map_none]
    have hk : held s req.key = none := by rw [held, hs, Option.bind_none]
    simp only [hc]
    split_ifs
    · exact Refines.pure h _
    · refine Refines.bind (setEntry_none h hk) fun s₁ h₁ hc₁ => ?_
      have hk₁ : held s₁ req.key = none := by
        cases hheld : held s₁ req.key with
        | none => rfl
        | some p =>
          obtain ⟨buf, -, hview⟩ := h₁.owns.read hheld
          rw [← appData_contents, hc₁, appData_setAppData] at hview
          cases hview
      refine Refines.bind (new_refines h₁ hk₁) fun s₂ h₂ hc₂ => ?_
      rw [hc₁, setAppData_setAppData] at hc₂
      rw [checked, ← hc₂]
      exact Refines.pure h₂ _
    · exact Refines.pure h _
  | some e =>
    have hc : ∃ e', contents s req.key = some e' := ⟨_, by rw [contents, hs, Option.map_some]⟩
    obtain ⟨e', hc⟩ := hc
    simp only [hc]
    split_ifs
    · refine Refines.getAppData ?_
      cases hk : held s req.key with
      | some p =>
        refine Refines.bind (write_refines h hk []) fun s₁ h₁ hc₁ => ?_
        rw [checked, ← hc₁]
        exact Refines.pure h₁ _
      | none =>
        refine Refines.bind (new_refines h hk) fun s₁ h₁ hc₁ => ?_
        rw [checked, ← hc₁]
        exact Refines.pure h₁ _
    · exact Refines.pure h _

/-- The data goes in as it does by value. -/
theorem insertBlock_refines (k : κ) : Refines (insertBlock path k blk) s
    (checked (contents s) (SessionData.insertBlock path (contents s) k blk)).1
    (checked (contents s) (SessionData.insertBlock path (contents s) k blk)).2 := by
  unfold insertBlock SessionData.insertBlock
  split_ifs
  · exact Refines.pure h _
  · refine Refines.getAppData ?_
    rw [appData_contents]
    cases hk : held s k with
    | none =>
      rw [view, hk]
      exact Refines.pure h _
    | some p =>
      obtain ⟨buf, hread, hview⟩ := h.owns.read hk
      rw [hview]
      refine Refines.read hread (Refines.bind (write_refines h hk _) fun s₁ h₁ hc₁ => ?_)
      rw [checked, ← hc₁]
      exact Refines.pure h₁ _

/-- The outcome of a call by value. -/
def reply (o : Outcome κ) : Reply := { ret := o.ret, dataOut := o.dataOut, err := o.err }

/-- The buffer is handed over as it is by value, and deleted. -/
theorem closeEntry_refines (k : κ) : Refines (closeEntry path k) s
    (reply (SessionData.closeEntry path (contents s) k))
    (SessionData.closeEntry path (contents s) k).cache := by
  unfold closeEntry SessionData.closeEntry
  refine Refines.getAppData ?_
  rw [appData_contents]
  cases hk : held s k with
  | none =>
    refine Refines.bind (setEntry_none h hk) fun s₁ h₁ hc₁ => ?_
    rw [view, hk, Option.bind_none, ← hc₁]
    exact Refines.pure h₁ _
  | some p =>
    obtain ⟨buf, hread, hview⟩ := h.owns.read hk
    have hdel := h.owns.delete_eq hk
    rw [hview]
    let e : Entry := { appData := none, callback := false }
    let s₁ : Store κ := { s with cache := Function.update s.cache k (some e) }
    let s' : Store κ := { s₁ with heap := s.heap.drop p }
    have hdone : Owned s' ∧ contents s' = setAppData (contents s) k none := deleted h hk rfl rfl
    obtain ⟨howned, hc⟩ := hdone
    refine ⟨s', ?_, howned, hc⟩
    have hset : (setEntry k e : BufM κ Unit).run s = .ok ⟨⟩ s₁ := rfl
    have hread₁ : (readBuffer p : BufM κ Str).run s₁ = .ok buf s₁ := readBuffer_run hread
    have hdel₁ : (deleteBuffer p : BufM κ Unit).run s₁ = .ok ⟨⟩ s' := deleteBuffer_run hdel
    rw [EStateM.run_bind, hset]
    simp only [EStateM.run_bind, hread₁, hdel₁, EStateM.run_pure, reply]

/-- **The function does on the heap what it does by value.** -/
theorem session_refines : Refines (sessionGetData path req) s
    (reply (SessionData.sessionGetData path (contents s) req []))
    (SessionData.sessionGetData path (contents s) req []).cache := by
  unfold sessionGetData SessionData.sessionGetData
  cases req.body with
  | none => exact Refines.pure h _
  | some b =>
    by_cases hbw : b.data.length ≠ b.total
    · simp only [if_pos hbw]
      refine Refines.bind (openEntry_refines path req b h) fun s₁ h₁ hc₁ => ?_
      cases hopen : SessionData.openEntry path (contents s) req b with
      | error msg =>
        have hsame : contents s₁ = contents s := by rw [hc₁, hopen, checked]
        simp only [checked, reply]
        rw [← hsame]
        exact Refines.pure h₁ _
      | ok c₁ =>
        rw [hopen, checked] at hc₁
        subst hc₁
        refine Refines.bind (insertBlock_refines path b h₁ req.key) fun s₂ h₂ hc₂ => ?_
        cases hinsert : SessionData.insertBlock path (contents s₁) req.key b with
        | error msg =>
          have hsame : contents s₂ = contents s₁ := by rw [hc₂, hinsert, checked]
          simp only [checked, reply, hinsert]
          rw [← hsame]
          exact Refines.pure h₂ _
        | ok c₂ =>
          rw [hinsert, checked] at hc₂
          subst hc₂
          by_cases hlast : b.offset + b.data.length = b.total
          · simp only [checked, hinsert, if_pos hlast]
            exact closeEntry_refines path h₂ req.key
          · simp only [checked, hinsert, if_neg hlast]
            exact Refines.pure h₂ _
    · simp only [if_neg hbw]
      exact Refines.pure h _

/-- **An entry is dropped as it is by value**, and what it had is deleted. -/
theorem dropEntry_refines (k : κ) :
    Refines (dropEntry k) s ⟨⟩ (Function.update (contents s) k none) := by
  unfold dropEntry
  refine Refines.get ?_
  cases hs : s.cache k with
  | none =>
    have hc : Function.update (contents s) k none = contents s :=
      Function.update_eq_self_iff.mpr (by rw [contents, hs, Option.map_none])
    rw [hc]
    exact Refines.pure h _
  | some e =>
    let s₁ : Store κ := { s with cache := Function.update s.cache k none }
    cases hp : e.appData with
    | none =>
      have hk : held s k = none := by rw [held, hs, Option.bind_some, hp]
      have hsame : Function.update (held s) k none = held s := Function.update_eq_self_iff.mpr hk.symm
      have howns : Owns (Function.update (held s) k none) s.heap := by
        rw [hsame]
        exact h.owns
      have hview : view (Function.update (held s) k none) s.heap =
          Function.update (view (held s) s.heap) k none := by
        rw [hsame]
        exact (Function.update_eq_self_iff.mpr (by rw [view, hk, Option.bind_none])).symm
      have hdone : Owned s₁ ∧ contents s₁ = Function.update (contents s) k none :=
        dropped h howns hview rfl rfl
      obtain ⟨howned, hc⟩ := hdone
      refine ⟨s₁, ?_, howned, hc⟩
      simp only [freeAppData, hp]
      rfl
    | some p =>
      have hk : held s k = some p := by rw [held, hs, Option.bind_some, hp]
      have hcall : e.callback = true := h.callback k e hs (by rw [hp]; exact Option.some_ne_none p)
      obtain ⟨howns, hview⟩ := h.owns.drop hk
      let s' : Store κ := { s₁ with heap := s.heap.drop p }
      have hdone : Owned s' ∧ contents s' = Function.update (contents s) k none :=
        dropped h howns hview rfl rfl
      obtain ⟨howned, hc⟩ := hdone
      refine ⟨s', ?_, howned, hc⟩
      simp only [freeAppData, hp, if_pos hcall, EStateM.run_bind,
        deleteBuffer_run (h.owns.delete_eq hk)]
      rfl

end Refine

/-! ### Runs -/

/-- What happens to the cache: a request with its path, or the library drops an entry. -/
inductive Call (κ : Type) where
  | request (path : Str) (req : Request κ)
  | drop (k : κ)

/-- A call; it replies if it is a request. -/
def Call.run : Call κ → BufM κ (Option Reply)
  | .request path req => do return some (← sessionGetData path req)
  | .drop k => do
    dropEntry k
    return none

/-- **A step on the heap**; `none` where it faults. -/
def step (s : Store κ) (call : Call κ) : Option (Store κ) :=
  match call.run.run s with
  | .ok _ s' => some s'
  | .error _ _ => none

/-- The reply of a step, if it is a request. -/
def replies (s : Store κ) (call : Call κ) : List Reply :=
  match call.run.run s with
  | .ok r _ => r.toList
  | .error _ _ => []

/-- A step by value. -/
def valueStep (c : Cache κ) : Call κ → Option (Cache κ)
  | .request path req => some (SessionData.sessionGetData path c req []).cache
  | .drop k => some (Function.update c k none)

def valueReplies (c : Cache κ) : Call κ → List Reply
  | .request path req => [reply (SessionData.sessionGetData path c req [])]
  | .drop _ => []

/-- **A step on the heap does not fault**, and does what it does by value. -/
theorem step_refines {s : Store κ} (h : Owned s) (call : Call κ) : ∃ s',
    step s call = some s' ∧ Owned s' ∧ valueStep (contents s) call = some (contents s') ∧
      replies s call = valueReplies (contents s) call := by
  cases call with
  | request path req =>
    obtain ⟨s', hrun, howned, hc⟩ := session_refines path req h
    have hcall : (Call.request path req).run.run s =
        .ok (some (reply (SessionData.sessionGetData path (contents s) req []))) s' := by
      simp only [Call.run, EStateM.run_bind, hrun, EStateM.run_pure]
    exact ⟨s', by simp only [step, hcall], howned, by rw [valueStep, hc],
      by simp only [replies, hcall, valueReplies, Option.toList_some]⟩
  | drop k =>
    obtain ⟨s', hrun, howned, hc⟩ := dropEntry_refines h k
    have hcall : (Call.drop k).run.run s = .ok none s' := by
      simp only [Call.run, EStateM.run_bind, hrun, EStateM.run_pure]
    exact ⟨s', by simp only [step, hcall], howned, by rw [valueStep, hc],
      by simp only [replies, hcall, valueReplies, Option.toList_none]⟩

/-- The calls one after another. -/
theorem play_refines (calls : List (Call κ)) : ∀ {s : Store κ}, Owned s → ∃ rs s',
    play step replies calls s = some (rs, s') ∧
    play valueStep valueReplies calls (contents s) = some (rs, contents s') ∧ Owned s' := by
  induction calls with
  | nil => exact fun {s} h => ⟨[], s, rfl, rfl, h⟩
  | cons call calls ih =>
    intro s h
    obtain ⟨s₁, hstep, h₁, hvalue, hreplies⟩ := step_refines h call
    obtain ⟨rs, s', hplay, hplay', h'⟩ := ih h₁
    refine ⟨replies s call ++ rs, s', ?_, ?_, h'⟩
    · simp only [play, hstep, Option.bind_some, hplay, Option.map_some]
    · simp only [play, hvalue, Option.bind_some, hplay', Option.map_some, hreplies]

/-- **The buffers are sound**: whatever requests come under whatever keys, and whenever the library
drops entries, no call touches a buffer that is not there or deletes one twice; the replies are those
of the function on values; each buffer belongs to one entry, and where all entries are gone no buffer
is left. -/
theorem buffers_sound (calls : List (Call κ)) : ∃ rs s,
    play step replies calls Store.empty = some (rs, s) ∧
    play valueStep valueReplies calls Cache.empty = some (rs, contents s) ∧
    (∀ p, (s.heap.cells p).isSome ↔ ∃ k, held s k = some p) ∧
    (∀ k k' p, held s k = some p → held s k' = some p → k = k') ∧
    ((∀ k, s.cache k = none) → ∀ p, s.heap.cells p = none) := by
  have hempty : contents (Store.empty : Store κ) = Cache.empty := rfl
  obtain ⟨rs, s, hplay, hvalue, howned⟩ := play_refines calls (owned_empty (κ := κ))
  rw [hempty] at hvalue
  refine ⟨rs, s, hplay, hvalue, fun p => ⟨howned.owns.owned p, fun ⟨k, hk⟩ => howned.owns.live k p hk⟩,
    howned.owns.single, fun hnone p => ?_⟩
  cases hp : s.heap.cells p with
  | none => rfl
  | some buf =>
    obtain ⟨k, hk⟩ := howned.owns.owned p (by rw [hp]; rfl)
    rw [held, hnone k] at hk
    cases hk

end CoapServer.Blocks.Buffers
