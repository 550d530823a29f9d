import CoapServer.Basic
import CoapServer.Lib.Splice
import Mathlib.Data.Int.Notation
import Mathlib.Logic.Function.Basic

/-! # Receiving a request body

`sessionGetData` takes the body out of a request. A body that comes in several blocks is gathered in
a buffer that is kept as the application data of a cache entry of the session; the entry is found by
a key, which is the same for all blocks of one body. `nextBuffer` is what a block makes of the
buffer: `session_buffer` and `session_noBuffer` say how a call on a block goes in terms of it,
`session_frame` that the entries under other keys stay, and `session_congr` that they do not
matter. -/

namespace CoapServer.Blocks.SessionData

open CoapServer.Basic CoapServer.Lib.Splice

/-- **A block**, as `coap_get_data_large` reports it: `size` bytes of `data`, at `offset` in a body
of `total` bytes. -/
structure Block where
  data : Str
  offset : ℕ
  total : ℕ
  fits : offset + data.length ≤ total
  total_le : total ≤ ptrdiffMax
  deriving DecidableEq

/-- An entry of the cache, with its application data. -/
structure CacheEntry where
  appData : Option Str
  deriving DecidableEq

/-- The cache of the sessions. -/
abbrev Cache (κ : Type) := κ → Option CacheEntry

/-- The cache without entries. -/
def Cache.empty {κ : Type} : Cache κ := fun _ => none

/-- **What `sessionGetData` reads of a request**: the key of its cache entry, its body, if it has one,
and whether `coap_new_cache_entry` has the memory for an entry. -/
structure Request (κ : Type) where
  key : κ
  body : Option Block
  newEntry : Bool

/-- What a call of `sessionGetData` leaves: what it returns, `dataOut`, the cache, and the lines it
writes to `std::cerr`. -/
structure Outcome (κ : Type) where
  ret : ℤ
  dataOut : Str
  cache : Cache κ
  err : List Str

variable {κ : Type} [DecidableEq κ]

/-- `coap_cache_get_app_data`. -/
def appData (c : Cache κ) (k : κ) : Option Str := (c k).bind CacheEntry.appData

/-- `coap_cache_set_app_data`. -/
def setAppData (c : Cache κ) (k : κ) (data : Option Str) : Cache κ :=
  Function.update c k (some { appData := data })

def entryNull (path : Str) : Str :=
  str "CoAP cache entry NULL on non-first block for '" ++ path ++ str "'!"

def entryFailed (path : Str) : Str :=
  str "Could not create CoAP cache entry for '" ++ path ++ str "'!"

def dataNull (path : Str) : Str := str "data_so_far NULL on block for '" ++ path ++ str "'!"

/-- The entry of the block: found, or created for a block at offset `0`, which starts a buffer. -/
def openEntry (path : Str) (c : Cache κ) (req : Request κ) (b : Block) : Except Str (Cache κ) :=
  match c req.key with
  | none =>
    if b.offset ≠ 0 then .error (entryNull path)
    else if req.newEntry then .ok (setAppData c req.key (some []))
    else .error (entryFailed path)
  | some _ =>
    -- the old buffer is cleared, or a new one is made where there is none
    if b.offset = 0 then .ok (setAppData c req.key (some [])) else .ok c

/-- The data of the block goes into the buffer. -/
def insertBlock (path : Str) (c : Cache κ) (k : κ) (b : Block) : Except Str (Cache κ) :=
  if b.data = [] then .ok c
  else match appData c k with
    | none => .error (dataNull path)
    | some buf => .ok (setAppData c k (some (splice 0 b.total b.offset b.data buf)))

/-- The buffer is handed over. -/
def closeEntry (path : Str) (c : Cache κ) (k : κ) : Outcome κ :=
  match appData c k with
  | none => { ret := -1, dataOut := [], cache := setAppData c k none, err := [dataNull path] }
  | some buf => { ret := 1, dataOut := buf, cache := setAppData c k none, err := [] }

/-- **`Resource::sessionGetData`**, for the resource at `path`. -/
def sessionGetData (path : Str) (c : Cache κ) (req : Request κ) (dataOut : Str) : Outcome κ :=
  match req.body with
  | none => { ret := 1, dataOut := [], cache := c, err := [] }
  | some b =>
    if b.data.length ≠ b.total then
      match openEntry path c req b with
      | .error msg => { ret := -1, dataOut, cache := c, err := [msg] }
      | .ok c₁ =>
        match insertBlock path c₁ req.key b with
        | .error msg => { ret := -1, dataOut, cache := c₁, err := [msg] }
        | .ok c₂ =>
          if b.offset + b.data.length = b.total then closeEntry path c₂ req.key
          else { ret := 0, dataOut, cache := c₂, err := [] }
    else { ret := 1, dataOut := b.data, cache := c, err := [] }

/-! ### What a block makes of the buffer -/

/-- The buffer after a block. -/
def nextBuffer (buf : Option Str) (b : Block) : Option Str :=
  let buf := if b.offset = 0 then some [] else buf
  if b.data = [] then buf else buf.map (splice 0 b.total b.offset b.data)

/-- The block has an entry, or is one that creates it. -/
def Admitted (c : Cache κ) (req : Request κ) (b : Block) : Prop :=
  (c req.key).isSome ∨ (b.offset = 0 ∧ req.newEntry = true)

section Session
variable {path : Str} {c : Cache κ} {req : Request κ} {b : Block} {out : Str}

@[simp] theorem appData_setAppData (k : κ) (data : Option Str) :
    appData (setAppData c k data) k = data := by
  simp [appData, setAppData]

@[simp] theorem setAppData_setAppData (k : κ) (data data' : Option Str) :
    setAppData (setAppData c k data) k data' = setAppData c k data' := by
  simp [setAppData]

theorem setAppData_of_ne {k k' : κ} (h : k' ≠ k) (data : Option Str) :
    setAppData c k data k' = c k' :=
  Function.update_of_ne h _ _

/-- Storing what is stored changes nothing. -/
theorem setAppData_appData {k : κ} (h : (c k).isSome) : setAppData c k (appData c k) = c := by
  obtain ⟨e, he⟩ := Option.isSome_iff_exists.mp h
  rw [setAppData, appData, he]
  exact Function.update_eq_self_iff.mpr he.symm

/-- Opening the entry of a block that has one or creates it. -/
theorem openEntry_admitted (h : Admitted c req b) : openEntry path c req b =
    .ok (setAppData c req.key (if b.offset = 0 then some [] else appData c req.key)) := by
  unfold openEntry
  cases he : c req.key with
  | none =>
    obtain hsome | ⟨hoff, hnew⟩ := h
    · rw [he] at hsome
      cases hsome
    · simp [hoff, hnew]
  | some e =>
    by_cases hoff : b.offset = 0
    · simp [hoff]
    · have hsome : (c req.key).isSome := by rw [he]; rfl
      simp only [hoff, if_false, setAppData_appData hsome]

/-- A block without an entry that creates none is refused. -/
theorem session_refused (hb : req.body = some b) (hbw : b.data.length ≠ b.total)
    (h : ¬ Admitted c req b) : ∃ msg, sessionGetData path c req out =
      { ret := -1, dataOut := out, cache := c, err := [msg] } := by
  have hnone : c req.key = none := by
    cases he : c req.key with
    | none => rfl
    | some e => exact absurd (Or.inl (by rw [he]; rfl)) h
  by_cases hoff : b.offset = 0
  · have hnew : req.newEntry = false := by
      cases hn : req.newEntry with
      | false => rfl
      | true => exact absurd (Or.inr ⟨hoff, hn⟩) h
    exact ⟨_, by simp only [sessionGetData, hb, openEntry, hnone, hoff, hnew]; simp [hbw]; rfl⟩
  · exact ⟨_, by simp only [sessionGetData, hb, openEntry, hnone]; simp [hbw, hoff]; rfl⟩

/-- **A block with a buffer**: the call waits for more blocks, or hands the buffer over at the last
one. -/
theorem session_buffer (hb : req.body = some b) (hbw : b.data.length ≠ b.total)
    (h : Admitted c req b) {buf : Str} (hbuf : nextBuffer (appData c req.key) b = some buf) :
    sessionGetData path c req out =
      if b.offset + b.data.length = b.total then
        { ret := 1, dataOut := buf, cache := setAppData c req.key none, err := [] }
      else { ret := 0, dataOut := out, cache := setAppData c req.key (some buf), err := [] } := by
  simp only [sessionGetData, hb, if_pos hbw, openEntry_admitted h, insertBlock,
    appData_setAppData]
  unfold nextBuffer at hbuf
  by_cases hdata : b.data = []
  · simp only [hdata, if_true] at hbuf
    simp only [if_pos hdata, hbuf, closeEntry, appData_setAppData, setAppData_setAppData]
  · simp only [hdata, if_false, Option.map_eq_some_iff] at hbuf
    obtain ⟨buf', hbuf', rfl⟩ := hbuf
    simp only [if_neg hdata, hbuf', closeEntry, appData_setAppData, setAppData_setAppData]

/-- **A block without a buffer** never ends a body. -/
theorem session_noBuffer (hb : req.body = some b) (hbw : b.data.length ≠ b.total)
    (h : Admitted c req b) (hbuf : nextBuffer (appData c req.key) b = none) :
    sessionGetData path c req out =
      if b.data = [] then
        if b.offset + b.data.length = b.total then
          { ret := -1, dataOut := [], cache := setAppData c req.key none, err := [dataNull path] }
        else { ret := 0, dataOut := out, cache := setAppData c req.key none, err := [] }
      else
        { ret := -1, dataOut := out, cache := setAppData c req.key none, err := [dataNull path] } := by
  unfold nextBuffer at hbuf
  have hbase : (if b.offset = 0 then some [] else appData c req.key) = none := by
    by_cases hdata : b.data = []
    · simpa only [hdata, if_true] using hbuf
    · simpa only [hdata, if_false, Option.map_eq_none_iff] using hbuf
  simp only [sessionGetData, hb, if_pos hbw, openEntry_admitted h, insertBlock, hbase,
    appData_setAppData]
  by_cases hdata : b.data = []
  · by_cases hlast : b.offset + b.data.length = b.total
    · simp only [if_pos hdata, if_pos hlast, closeEntry, appData_setAppData, setAppData_setAppData]
    · simp only [if_pos hdata, if_neg hlast]
  · simp only [if_neg hdata]

/-- A body that comes in one piece is taken as it is. -/
theorem session_single (h : ∀ b, req.body = some b → b.data.length = b.total) :
    sessionGetData path c req out =
      { ret := 1, dataOut := (req.body.map Block.data).getD [], cache := c, err := [] } := by
  unfold sessionGetData
  cases hb : req.body with
  | none => rfl
  | some b => simp only [h b hb, ne_eq, not_true_eq_false, if_false, Option.map_some,
      Option.getD_some]

omit [DecidableEq κ] in
/-- The ways a call can go. -/
theorem session_cases (c : Cache κ) (req : Request κ) :
    (∀ b, req.body = some b → b.data.length = b.total) ∨
    ∃ b, req.body = some b ∧ b.data.length ≠ b.total ∧
      (¬ Admitted c req b ∨ Admitted c req b ∧ nextBuffer (appData c req.key) b = none ∨
        Admitted c req b ∧ ∃ buf, nextBuffer (appData c req.key) b = some buf) := by
  by_cases h : ∀ b, req.body = some b → b.data.length = b.total
  · exact Or.inl h
  · push Not at h
    obtain ⟨b, hb, hbw⟩ := h
    refine Or.inr ⟨b, hb, hbw, ?_⟩
    by_cases ha : Admitted c req b
    · cases hn : nextBuffer (appData c req.key) b with
      | none => exact Or.inr (Or.inl ⟨ha, rfl⟩)
      | some buf => exact Or.inr (Or.inr ⟨ha, buf, rfl⟩)
    · exact Or.inl ha

/-- **Isolation**: the entries under other keys stay. -/
theorem session_frame {k : κ} (h : k ≠ req.key) : (sessionGetData path c req out).cache k = c k := by
  obtain hs | ⟨b, hb, hbw, ha | ⟨ha, hn⟩ | ⟨ha, buf, hn⟩⟩ := session_cases c req
  · rw [session_single hs]
  · obtain ⟨msg, hmsg⟩ := session_refused hb hbw ha
    rw [hmsg]
  · rw [session_noBuffer hb hbw ha hn]
    split_ifs <;> exact setAppData_of_ne h _
  · rw [session_buffer hb hbw ha hn]
    split_ifs <;> exact setAppData_of_ne h _

/-- **A call depends on its own entry only.** -/
theorem session_congr {c' : Cache κ} (h : c req.key = c' req.key) (path out : Str) :
    (sessionGetData path c req out).ret = (sessionGetData path c' req out).ret ∧
    (sessionGetData path c req out).dataOut = (sessionGetData path c' req out).dataOut ∧
    (sessionGetData path c req out).cache req.key =
      (sessionGetData path c' req out).cache req.key := by
  have happ : appData c req.key = appData c' req.key := by rw [appData, appData, h]
  have hadm : ∀ b, Admitted c req b ↔ Admitted c' req b := fun b => by rw [Admitted, Admitted, h]
  have hset : ∀ d, setAppData c req.key d req.key = setAppData c' req.key d req.key := by
    simp [setAppData]
  obtain hs | ⟨b, hb, hbw, ha | ⟨ha, hn⟩ | ⟨ha, buf, hn⟩⟩ := session_cases c req
  · rw [session_single hs, session_single hs]
    exact ⟨rfl, rfl, h⟩
  · obtain ⟨msg, hmsg⟩ : ∃ msg, sessionGetData path c req out = ⟨-1, out, c, [msg]⟩ :=
      session_refused hb hbw ha
    obtain ⟨msg', hmsg'⟩ : ∃ msg, sessionGetData path c' req out = ⟨-1, out, c', [msg]⟩ :=
      session_refused hb hbw ((hadm b).not.mp ha)
    rw [hmsg, hmsg']
    exact ⟨rfl, rfl, h⟩
  · rw [session_noBuffer hb hbw ha hn, session_noBuffer hb hbw ((hadm b).mp ha) (happ ▸ hn)]
    split_ifs <;> exact ⟨rfl, rfl, hset _⟩
  · rw [session_buffer hb hbw ha hn, session_buffer hb hbw ((hadm b).mp ha) (happ ▸ hn)]
    split_ifs <;> exact ⟨rfl, rfl, hset _⟩

/-- The path of the resource is for the messages only. -/
theorem session_path (p p' : Str) (c : Cache κ) (req : Request κ) (out : Str) :
    (sessionGetData p c req out).ret = (sessionGetData p' c req out).ret ∧
    (sessionGetData p c req out).dataOut = (sessionGetData p' c req out).dataOut ∧
    (sessionGetData p c req out).cache = (sessionGetData p' c req out).cache := by
  obtain hs | ⟨b, hb, hbw, ha | ⟨ha, hn⟩ | ⟨ha, buf, hn⟩⟩ := session_cases c req
  · rw [session_single hs, session_single hs]
    exact ⟨rfl, rfl, rfl⟩
  · obtain ⟨msg, hmsg⟩ : ∃ msg, sessionGetData p c req out = ⟨-1, out, c, [msg]⟩ :=
      session_refused hb hbw ha
    obtain ⟨msg', hmsg'⟩ : ∃ msg, sessionGetData p' c req out = ⟨-1, out, c, [msg]⟩ :=
      session_refused hb hbw ha
    rw [hmsg, hmsg']
    exact ⟨rfl, rfl, rfl⟩
  · rw [session_noBuffer hb hbw ha hn, session_noBuffer hb hbw ha hn]
    split_ifs <;> exact ⟨rfl, rfl, rfl⟩
  · rw [session_buffer hb hbw ha hn, session_buffer hb hbw ha hn]
    exact ⟨rfl, rfl, rfl⟩

/-- The values a call can return. -/
theorem session_ret (path : Str) (c : Cache κ) (req : Request κ) (out : Str) :
    (sessionGetData path c req out).ret = -1 ∨ (sessionGetData path c req out).ret = 0 ∨
      (sessionGetData path c req out).ret = 1 := by
  obtain hs | ⟨b, hb, hbw, ha | ⟨ha, hn⟩ | ⟨ha, buf, hn⟩⟩ := session_cases c req
  · rw [session_single hs]
    exact Or.inr (Or.inr rfl)
  · obtain ⟨msg, hmsg⟩ : ∃ msg, sessionGetData path c req out = ⟨-1, out, c, [msg]⟩ :=
      session_refused hb hbw ha
    rw [hmsg]
    exact Or.inl rfl
  · rw [session_noBuffer hb hbw ha hn]
    split_ifs
    exacts [Or.inl rfl, Or.inr (Or.inl rfl), Or.inl rfl]
  · rw [session_buffer hb hbw ha hn]
    split_ifs
    exacts [Or.inr (Or.inr rfl), Or.inr (Or.inl rfl)]

/-- **When a block ends a body**: it ends at its own total, and there is a buffer. -/
theorem session_ends_iff (hb : req.body = some b) (hbw : b.data.length ≠ b.total) :
    (sessionGetData path c req out).ret = 1 ↔
      b.offset + b.data.length = b.total ∧ (appData c req.key).isSome := by
  obtain hs | ⟨b', hb', -, hcases⟩ := session_cases c req
  · exact absurd (hs b hb) hbw
  · obtain rfl : b = b' := Option.some.inj (hb.symm.trans hb')
    -- the block that ends a body does not start one
    have hnext : b.offset + b.data.length = b.total →
        ((nextBuffer (appData c req.key) b).isSome ↔ (appData c req.key).isSome) := by
      intro hend
      have hoff : b.offset ≠ 0 := by omega
      simp only [nextBuffer, if_neg hoff]
      split_ifs
      · rfl
      · rw [Option.isSome_map]
    obtain ha | ⟨ha, hn⟩ | ⟨ha, buf, hn⟩ := hcases
    · obtain ⟨msg, hmsg⟩ : ∃ msg, sessionGetData path c req out = ⟨-1, out, c, [msg]⟩ :=
        session_refused hb hbw ha
      rw [hmsg]
      refine ⟨fun h => by simp at h, fun ⟨_, hsome⟩ => absurd (Or.inl ?_) ha⟩
      cases he : c req.key with
      | none => simp [appData, he] at hsome
      | some e => rfl
    · rw [session_noBuffer hb hbw ha hn]
      rw [hn] at hnext
      refine ⟨fun h => ?_, fun ⟨hend, hsome⟩ => ?_⟩
      · split_ifs at h <;> simp at h
      · simpa using (hnext hend).mpr hsome
    · rw [session_buffer hb hbw ha hn]
      rw [hn] at hnext
      split_ifs with hend
      · exact ⟨fun _ => ⟨hend, (hnext hend).mp rfl⟩, fun _ => rfl⟩
      · exact ⟨fun h => by simp at h, fun h => absurd h.1 hend⟩

end Session

end CoapServer.Blocks.SessionData
