import CoapServer.Blocks.Transfers
import Mathlib.Data.List.Induction

/-! # Bodies with holes

Only the block at hand decides whether a body is complete: it is when the block ends at its own
`total`. The buffer holds `0` where no block has put anything, and where a block with a smaller
`total` has cut it off.

The buffer of a key is `gather` of the blocks received since the last one at offset `0` (`since`,
`appData_eq_gather`), so `dataOut` is that too. `getElem?_gather` says what `gather` holds at each
position: `held`, which is the byte most recently received for it exactly where that is `Kept`.
`whole_iff_complete` is the result: `dataOut` is the body exactly if every position was received and
kept. -/

namespace CoapServer.Blocks.Holes

open CoapServer.Basic CoapServer.Lib.Splice CoapServer.Blocks.SessionData
open CoapServer.Blocks.Transfers

variable {κ : Type} [DecidableEq κ]

/-! ### The blocks of a body -/

/-- The blocks received under a key, but for those that are bodies of their own. -/
def received (k : κ) (rs : List (Request κ)) : List Block :=
  (rs.filter (·.key = k)).filterMap fun r => r.body.filter fun b => b.data.length ≠ b.total

/-- A block at offset `0` starts again. -/
def sinceStep (bs : List Block) (b : Block) : List Block := if b.offset = 0 then [b] else bs ++ [b]

/-- **The blocks since the last one at offset `0`**, which is the first of them. -/
def since (bs : List Block) : List Block := bs.foldl sinceStep []

/-- The byte a block carries for position `i`. -/
def byteAt (b : Block) (i : ℕ) : Option Byte := if b.offset ≤ i then b.data[i - b.offset]? else none

/-- The byte most recently carried for position `i`. -/
def lastByte (bs : List Block) (i : ℕ) : Option Byte :=
  bs.foldl (fun x b => (byteAt b i).or x) none

/-- **The body is delivered whole**: every position of it was received, and what is delivered is what
was received last. -/
def Whole (bs : List Block) (total : ℕ) (out : Str) : Prop :=
  (∀ i < total, ∃ b ∈ bs, (byteAt b i).isSome) ∧ ∀ i < out.length, out[i]? = lastByte bs i

instance (bs : List Block) (total : ℕ) (out : Str) : Decidable (Whole bs total out) := by
  unfold Whole
  infer_instance

/-- Position `i` is cut off by a block after the last one that carries it. -/
def cut (bs : List Block) (i : ℕ) : Bool :=
  bs.foldl (fun x b =>
    if (byteAt b i).isSome then false else if b.data = [] ∨ i < b.total then x else true) false

/-- The byte received for position `i` is not lost: it is not cut off, or was `0`. -/
def Kept (bs : List Block) (i : ℕ) : Prop := ∃ x, lastByte bs i = some x ∧ (cut bs i = false ∨ x = 0)

/-- The length of the buffer: the `total` of the last block with data. -/
def extent (bs : List Block) : ℕ := bs.foldl (fun n b => if b.data = [] then n else b.total) 0

/-- **The blocks make up the body**: no position is in none of them, and none is lost. -/
def Complete (bs : List Block) (total : ℕ) : Prop :=
  (∀ i < total, ∃ b ∈ bs, b.offset ≤ i ∧ i < b.offset + b.data.length) ∧
    ∀ i < extent bs, Kept bs i

/-! ### The buffer -/

/-- The buffer after a block. -/
def gatherStep (buf : Str) (b : Block) : Str :=
  if b.data = [] then buf else splice 0 b.total b.offset b.data buf

/-- **The buffer after blocks.** -/
def gather (bs : List Block) : Str := bs.foldl gatherStep []

/-- The byte the buffer holds at position `i`, `0` outside of it. -/
def held (bs : List Block) (i : ℕ) : Byte := (gather bs)[i]?.getD 0

section Blocks
variable (bs : List Block) (b : Block) (i : ℕ)

theorem since_snoc : since (bs ++ [b]) = sinceStep (since bs) b := by
  simp [since]

theorem gather_snoc : gather (bs ++ [b]) = gatherStep (gather bs) b := by
  simp [gather]

theorem lastByte_snoc : lastByte (bs ++ [b]) i = (byteAt b i).or (lastByte bs i) := by
  simp [lastByte]

theorem cut_snoc : cut (bs ++ [b]) i =
    if (byteAt b i).isSome then false else if b.data = [] ∨ i < b.total then cut bs i else true := by
  simp [cut]

theorem extent_snoc : extent (bs ++ [b]) = if b.data = [] then extent bs else b.total := by
  simp [extent]

theorem length_gather : (gather bs).length = extent bs := by
  induction bs using List.reverseRecOn with
  | nil => rfl
  | append_singleton bs b ih =>
    rw [gather_snoc, extent_snoc, gatherStep]
    split_ifs
    · exact ih
    · exact length_splice b.fits

theorem byteAt_isSome : (byteAt b i).isSome ↔ b.offset ≤ i ∧ i < b.offset + b.data.length := by
  unfold byteAt
  split_ifs with h
  · rw [Option.isSome_iff_ne_none, ne_eq, List.getElem?_eq_none_iff]
    omega
  · simp [h]

theorem byteAt_nil (h : b.data = []) : byteAt b i = none := by
  simp [byteAt, h]

/-- **What a block makes of a position.** -/
theorem held_snoc : held (bs ++ [b]) i =
    match byteAt b i with
    | some x => x
    | none => if b.data = [] ∨ i < b.total then held bs i else 0 := by
  rw [held, gather_snoc, gatherStep]
  by_cases hdata : b.data = []
  · rw [if_pos hdata, byteAt_nil b i hdata]
    simp [hdata, held]
  · rw [if_neg hdata, getElem?_splice b.fits, byteAt]
    by_cases hin : b.offset ≤ i ∧ i < b.offset + b.data.length
    · rw [if_pos hin, if_pos hin.1, List.getElem?_eq_getElem (by omega)]
      rfl
    · have hnone : (if b.offset ≤ i then b.data[i - b.offset]? else none) = none := by
        split_ifs with hle
        · exact List.getElem?_eq_none (by omega)
        · rfl
      rw [if_neg hin, hnone]
      by_cases hlt : i < b.total
      · simp [hlt, held]
      · simp [hlt, hdata]

/-- **The buffer holds the byte received last** where that is kept, and only there. -/
theorem held_iff : some (held bs i) = lastByte bs i ↔ Kept bs i := by
  induction bs using List.reverseRecOn with
  | nil => simp [lastByte, Kept]
  | append_singleton bs b ih =>
    rw [held_snoc, lastByte_snoc, Kept, lastByte_snoc, cut_snoc]
    cases hb : byteAt b i with
    | some x => simp
    | none =>
      simp only [Option.none_or, Option.isSome_none, Bool.false_eq_true, if_false]
      by_cases hin : b.data = [] ∨ i < b.total
      · rw [if_pos hin, if_pos hin]
        exact ih
      · rw [if_neg hin, if_neg hin]
        constructor
        · intro h
          exact ⟨0, h.symm, Or.inr rfl⟩
        · rintro ⟨x, hx, hcut | rfl⟩
          · cases hcut
          · exact hx.symm

end Blocks

/-- **A gathered body is whole** exactly if its blocks make it up. -/
theorem whole_gather (bs : List Block) (total : ℕ) :
    Whole bs total (gather bs) ↔ Complete bs total := by
  have hat : ∀ i < (gather bs).length, (gather bs)[i]? = lastByte bs i ↔ Kept bs i := by
    intro i hi
    rw [← held_iff, held, List.getElem?_eq_getElem hi, Option.getD_some]
  unfold Whole Complete
  simp only [byteAt_isSome, ← length_gather]
  exact and_congr_right' (forall₂_congr hat)

/-! ### The buffer of a key -/

section Run
variable {k : κ} {rs : List (Request κ)} {r : Request κ} {b : Block}

theorem received_snoc_of_ne (h : r.key ≠ k) : received k (rs ++ [r]) = received k rs := by
  simp [received, h]

theorem received_snoc_single (h : ∀ b, r.body = some b → b.data.length = b.total) :
    received k (rs ++ [r]) = received k rs := by
  have hnone : (r.body.filter fun b => b.data.length ≠ b.total) = none := by
    cases hb : r.body with
    | none => rfl
    | some b => simp [h b hb]
  by_cases hk : r.key = k
  · simp only [received, List.filter_append, List.filterMap_append, List.filter_cons, hk, decide_true,
      if_true, List.filter_nil, List.filterMap_cons, hnone, List.filterMap_nil, List.append_nil]
  · exact received_snoc_of_ne hk

theorem received_snoc (hb : r.body = some b) (hbw : b.data.length ≠ b.total) :
    received r.key (rs ++ [r]) = received r.key rs ++ [b] := by
  have hsome : (r.body.filter fun b => b.data.length ≠ b.total) = some b := by
    rw [hb, Option.filter_some, if_pos (by simpa using hbw)]
  simp only [received, List.filter_append, List.filterMap_append, List.filter_cons, decide_true,
    if_true, List.filter_nil, List.filterMap_cons, hsome, List.filterMap_nil]

end Run

theorem cacheAfter_snoc (path : κ → Str) (c : Cache κ) (rs : List (Request κ)) (r : Request κ) :
    cacheAfter path c (rs ++ [r]) =
      (sessionGetData (path r.key) (cacheAfter path c rs) r []).cache := by
  induction rs generalizing c with
  | nil => rfl
  | cons r' rs ih => exact ih _

/-- The buffer of a key is what was gathered since the last block at offset `0`. -/
def Gathered (buf : Option Str) (bs : List Block) : Prop :=
  ∀ x, buf = some x → x = gather (since bs) ∧ (since bs).head?.map Block.offset = some 0

/-- A block goes on with what was gathered, or starts again. -/
theorem Gathered.next {buf : Option Str} {bs : List Block} (h : Gathered buf bs) (b : Block) :
    Gathered (nextBuffer buf b) (bs ++ [b]) := by
  intro x hx
  rw [since_snoc, sinceStep]
  unfold nextBuffer at hx
  by_cases hoff : b.offset = 0
  · simp only [if_pos hoff, Option.map_some] at hx
    rw [if_pos hoff]
    refine ⟨?_, by simp [hoff]⟩
    simp only [gather, List.foldl_cons, List.foldl_nil, gatherStep]
    split_ifs at hx ⊢ <;> exact (Option.some.inj hx).symm
  · simp only [if_neg hoff] at hx
    rw [if_neg hoff, gather_snoc, gatherStep]
    obtain ⟨y, rfl⟩ : ∃ y, buf = some y := by
      cases buf with
      | none => simp at hx
      | some y => exact ⟨y, rfl⟩
    obtain ⟨rfl, hhead⟩ := h y rfl
    refine ⟨?_, ?_⟩
    · rw [Option.map_some] at hx
      split_ifs at hx ⊢ with hdata <;> exact (Option.some.inj hx).symm
    · cases hs : since bs with
      | nil => simp [hs] at hhead
      | cons b' bs' => simpa [hs] using hhead

/-- **Along a run** the buffer of each key is what was gathered. -/
theorem appData_eq_gather (path : κ → Str) (rs : List (Request κ)) (k : κ) :
    Gathered (appData (cacheAfter path Cache.empty rs) k) (received k rs) := by
  induction rs using List.reverseRecOn with
  | nil =>
    intro x hx
    cases hx
  | append_singleton rs r ih =>
    rw [cacheAfter_snoc]
    by_cases hk : k = r.key
    · subst hk
      obtain hs | ⟨b, hb, hbw, ha | ⟨ha, hn⟩ | ⟨ha, buf, hn⟩⟩ :=
        session_cases (cacheAfter path Cache.empty rs) r
      · rw [session_single hs, received_snoc_single hs]
        exact ih
      · obtain ⟨msg, hmsg⟩ : ∃ msg, sessionGetData (path r.key) (cacheAfter path Cache.empty rs) r [] =
            ⟨-1, [], cacheAfter path Cache.empty rs, [msg]⟩ := session_refused hb hbw ha
        have hnone : cacheAfter path Cache.empty rs r.key = none :=
          Option.not_isSome_iff_eq_none.mp fun h => ha (Or.inl h)
        intro x hx
        simp [hmsg, appData, hnone] at hx
      · intro x hx
        rw [session_noBuffer hb hbw ha hn] at hx
        split_ifs at hx <;> simp at hx
      · rw [session_buffer hb hbw ha hn, received_snoc hb hbw]
        have hnext := ih.next b
        rw [hn] at hnext
        split_ifs
        · intro x hx
          simp at hx
        · simpa using hnext
    · have hframe : (sessionGetData (path r.key) (cacheAfter path Cache.empty rs) r []).cache k =
          cacheAfter path Cache.empty rs k := session_frame hk
      rw [received_snoc_of_ne (Ne.symm hk), appData, hframe]
      exact ih

/-- **What is delivered** at the end of a block-wise body is what was gathered since the last block at
offset `0`. -/
theorem delivered_eq_gather (path : κ → Str) (rs : List (Request κ)) (r : Request κ) (b : Block)
    (hb : r.body = some b) (hbw : b.data.length ≠ b.total)
    (hret : (sessionGetData (path r.key) (cacheAfter path Cache.empty rs) r []).ret = 1) :
    (since (received r.key (rs ++ [r]))).head?.map Block.offset = some 0 ∧
    (sessionGetData (path r.key) (cacheAfter path Cache.empty rs) r []).dataOut =
      gather (since (received r.key (rs ++ [r]))) := by
  have hg := (appData_eq_gather path rs r.key).next b
  rw [← received_snoc hb hbw] at hg
  obtain hs | ⟨b', hb', -, hcases⟩ := session_cases (cacheAfter path Cache.empty rs) r
  · exact absurd (hs b hb) hbw
  · obtain rfl : b = b' := Option.some.inj (hb.symm.trans hb')
    obtain ha | ⟨ha, hn⟩ | ⟨ha, buf, hn⟩ := hcases
    · obtain ⟨msg, hmsg⟩ : ∃ msg, sessionGetData (path r.key) (cacheAfter path Cache.empty rs) r [] =
          ⟨-1, [], cacheAfter path Cache.empty rs, [msg]⟩ := session_refused hb hbw ha
      simp [hmsg] at hret
    · rw [session_noBuffer hb hbw ha hn] at hret
      split_ifs at hret <;> simp at hret
    · obtain ⟨rfl, hhead⟩ := hg buf hn
      refine ⟨hhead, ?_⟩
      rw [session_buffer hb hbw ha hn] at hret ⊢
      split_ifs at hret ⊢ with hend
      · rfl
      · simp at hret

/-- **A delivered body is whole exactly if its blocks make it up.** The blocks are those received
under the key since the last one at offset `0`, up to the one that ends the body. -/
theorem whole_iff_complete (path : κ → Str) (rs : List (Request κ)) (r : Request κ) (b : Block)
    (hb : r.body = some b) (hbw : b.data.length ≠ b.total)
    (hret : (sessionGetData (path r.key) (cacheAfter path Cache.empty rs) r []).ret = 1) :
    (since (received r.key (rs ++ [r]))).head?.map Block.offset = some 0 ∧
    (Whole (since (received r.key (rs ++ [r]))) b.total
        (sessionGetData (path r.key) (cacheAfter path Cache.empty rs) r []).dataOut ↔
      Complete (since (received r.key (rs ++ [r]))) b.total) := by
  obtain ⟨hhead, hout⟩ := delivered_eq_gather path rs r b hb hbw hret
  rw [hout]
  exact ⟨hhead, whole_gather _ _⟩

/-- The first of three bytes. -/
def firstByte : Request ℕ := ⟨0, some ⟨[1], 0, 3, by decide, three_le_ptrdiffMax⟩, true⟩

/-- The last of three bytes. -/
def thirdByte : Request ℕ := ⟨0, some ⟨[3], 2, 3, by decide, three_le_ptrdiffMax⟩, true⟩

/-- The block with the last two of three bytes. -/
def lastBytes : Request ℕ := ⟨0, some ⟨[2, 3], 1, 3, by decide, three_le_ptrdiffMax⟩, true⟩

theorem whole_iff_complete_two :
    (since (received 0 ([firstByte] ++ [lastBytes]))).head?.map Block.offset = some 0 ∧
    (Whole (since (received 0 ([firstByte] ++ [lastBytes]))) 3 [1, 2, 3] ↔
      Complete (since (received 0 ([firstByte] ++ [lastBytes]))) 3) :=
  whole_iff_complete (fun _ => []) [firstByte] lastBytes _ rfl (by decide) (by decide)

/-- The second of three bytes never arrives, and `0` is delivered in its place. -/
theorem hole_is_delivered : ¬ ∀ (path : ℕ → Str) (rs : List (Request ℕ)) (r : Request ℕ) (b : Block),
    r.body = some b → b.data.length ≠ b.total →
    (sessionGetData (path r.key) (cacheAfter path Cache.empty rs) r []).ret = 1 →
    Whole (since (received r.key (rs ++ [r]))) b.total
      (sessionGetData (path r.key) (cacheAfter path Cache.empty rs) r []).dataOut := by
  intro h
  exact absurd (h (fun _ => []) [firstByte] thirdByte _ rfl (by decide) (by decide)) (by decide)

end CoapServer.Blocks.Holes
