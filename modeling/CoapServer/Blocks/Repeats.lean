import CoapServer.Blocks.Holes

/-! # Repeated blocks

A body is sent in order, and before its last block any block that was delivered may be delivered
again (`Repeats`). Nothing tells the repetition from a block of a new body: one at offset `0` clears
the buffer, and one with a smaller `total` cuts it off.

The calls before the last block all wait for more (`receive_delivered`), and the last one hands over
`gather` of the blocks since the last one at offset `0`. As all blocks are pieces of one payload,
that holds the byte of the payload at each position that `Survives`, and `0` elsewhere
(`held_since`). So the payload is delivered exactly if its bytes survive (`repeats_harmless_iff`). -/

namespace CoapServer.Blocks.Repeats

open CoapServer.Basic CoapServer.Lib.Splice CoapServer.Blocks.SessionData
open CoapServer.Blocks.Transfers CoapServer.Blocks.Holes

variable {κ : Type} [DecidableEq κ]

/-! ### Deliveries -/

/-- The blocks follow one another from `off` on. -/
def InOrder : ℕ → List Block → Prop
  | _, [] => True
  | off, b :: bs => b.offset = off ∧ InOrder (off + b.data.length) bs

/-- **The blocks in order, with repetitions**: the next one, or one that was delivered before. -/
inductive Delivered : List Block → List Block → Prop where
  | nil : Delivered [] []
  | next {sent ds : List Block} (h : Delivered sent ds) (b : Block) :
    Delivered (sent ++ [b]) (ds ++ [b])
  | again {sent ds : List Block} (h : Delivered sent ds) {b : Block} (hb : b ∈ sent) :
    Delivered sent (ds ++ [b])

/-- **A body with repeated blocks**: the blocks that wait for more, the last one, and what is
delivered before the last one. -/
structure RepeatedTransfer where
  body : List Block
  last : Block
  delivered : List Block
  inOrder : InOrder 0 (body ++ [last])
  waits : ∀ b ∈ body, b.offset + b.data.length ≠ b.total
  ends : last.offset + last.data.length = last.total
  repeats : Delivered body delivered

/-- The payload. -/
def RepeatedTransfer.payload (t : RepeatedTransfer) : Str :=
  ((t.body ++ [t.last]).map Block.data).flatten

/-- All deliveries. -/
def RepeatedTransfer.blocks (t : RepeatedTransfer) : List Block := t.delivered ++ [t.last]

/-- **What the deliveries are to be answered with**: wait at each, the payload at the last. -/
def RepeatedTransfer.answers (t : RepeatedTransfer) : List (ℤ × Str) :=
  t.delivered.map (fun _ => (0, [])) ++ [(1, t.payload)]

/-! ### What survives -/

/-- A delivery carries position `i`, and no later one clears the buffer or cuts it off before `i`. -/
def Survives (bs : List Block) (i : ℕ) : Prop :=
  ∃ pre b post, bs = pre ++ b :: post ∧ (byteAt b i).isSome ∧
    ∀ b' ∈ post, b'.offset ≠ 0 ∧ (b'.data = [] ∨ i < b'.total)

/-- **The payload survives its repetitions**: every byte of it but zeros, and its length. -/
structure RepeatedTransfer.Intact (t : RepeatedTransfer) : Prop where
  bytes : ∀ i x, t.payload[i]? = some x → x ≠ 0 → Survives t.blocks i
  length : extent (since t.blocks) = t.payload.length

/-- There is an entry for the first block, or memory for one. -/
def Opens (c : Cache κ) (k : κ) (rs : List (Request κ)) : Prop :=
  (c k).isSome ∨ ∀ r ∈ (rs.filter (·.key = k)).head?, r.newEntry = true

theorem survives_snoc {bs : List Block} {b : Block} {i : ℕ} : Survives (bs ++ [b]) i ↔
    (byteAt b i).isSome ∨ Survives bs i ∧ b.offset ≠ 0 ∧ (b.data = [] ∨ i < b.total) := by
  constructor
  · rintro ⟨pre, b₁, post, heq, hb₁, hpost⟩
    rcases List.eq_nil_or_concat post with rfl | ⟨post, b₂, rfl⟩
    · obtain ⟨-, rfl⟩ := List.append_singleton_inj.mp heq
      exact Or.inl hb₁
    · have heq : bs ++ [b] = (pre ++ b₁ :: post) ++ [b₂] := by simpa using heq
      obtain ⟨rfl, rfl⟩ := List.append_singleton_inj.mp heq
      refine Or.inr ⟨⟨pre, b₁, post, rfl, hb₁, fun b' hb' => ?_⟩, ?_⟩
      · exact hpost b' (by simp [hb'])
      · exact hpost b (by simp)
  · rintro (hb | ⟨⟨pre, b₁, post, rfl, hb₁, hpost⟩, hlast⟩)
    · exact ⟨bs, b, [], rfl, hb, by simp⟩
    · refine ⟨pre, b₁, post ++ [b], by simp, hb₁, fun b' hb' => ?_⟩
      rcases List.mem_append.mp hb' with hb' | hb'
      · exact hpost b' hb'
      · obtain rfl := List.mem_singleton.mp hb'
        exact hlast

/-- A block is a piece of `p`. -/
def Piece (p : Str) (b : Block) : Prop := ∀ i x, byteAt b i = some x → p[i]? = some x

section Held
variable {p : Str} {bs : List Block} (h : ∀ b ∈ bs, Piece p b) (i : ℕ)
include h

open Classical in
/-- **The buffer holds the payload where it survives**, and `0` elsewhere. -/
theorem held_since : held (since bs) i = if Survives bs i then p[i]?.getD 0 else 0 := by
  induction bs using List.reverseRecOn with
  | nil =>
    rw [if_neg (by rintro ⟨pre, b, post, heq, -⟩; simp at heq)]
    rfl
  | append_singleton bs b ih =>
    have ih := ih fun b' hb' => h b' (by simp [hb'])
    have hheld : held (since (bs ++ [b])) i = (byteAt b i).getD
        (if b.offset ≠ 0 ∧ (b.data = [] ∨ i < b.total) then held (since bs) i else 0) := by
      rw [since_snoc, sinceStep]
      by_cases hoff : b.offset = 0
      · have hstart : held ([] ++ [b]) i = _ := held_snoc [] b i
        have hnil : held [] i = 0 := rfl
        rw [if_pos hoff, ← List.nil_append [b], hstart, hnil]
        cases byteAt b i with
        | some x => rfl
        | none => simp [hoff]
      · rw [if_neg hoff, held_snoc]
        cases byteAt b i with
        | some x => rfl
        | none => simp [hoff]
    rw [hheld]
    cases hb : byteAt b i with
    | some x =>
      have hx : p[i]? = some x := h b (by simp) i x hb
      rw [if_pos (survives_snoc.mpr (Or.inl (by rw [hb]; rfl))), hx]
      rfl
    | none =>
      have hiff : Survives (bs ++ [b]) i ↔
          Survives bs i ∧ b.offset ≠ 0 ∧ (b.data = [] ∨ i < b.total) := by
        rw [survives_snoc, hb]
        simp
      by_cases hkeep : b.offset ≠ 0 ∧ (b.data = [] ∨ i < b.total)
      · simp only [if_pos hkeep, ih, hiff, and_iff_left hkeep, Option.getD_none]
      · rw [if_neg hkeep, if_neg fun hs => hkeep (hiff.mp hs).2, Option.getD_none]

/-- **What is gathered is the payload** exactly if its bytes survive, and its length. -/
theorem gather_eq_iff : gather (since bs) = p ↔
    (∀ i x, p[i]? = some x → x ≠ 0 → Survives bs i) ∧ extent (since bs) = p.length := by
  classical
  rw [← length_gather]
  constructor
  · intro heq
    refine ⟨fun i x hx hne => ?_, by rw [heq]⟩
    by_contra hs
    have hheld := held_since h i
    rw [if_neg hs, held, heq, hx] at hheld
    exact hne hheld
  · rintro ⟨hbytes, hlen⟩
    refine List.ext_getElem hlen fun i h₁ h₂ => ?_
    have hp : p[i]? = some p[i] := List.getElem?_eq_getElem h₂
    have hheld := held_since h i
    rw [held, List.getElem?_eq_getElem h₁, Option.getD_some, hp] at hheld
    rw [hheld]
    by_cases hs : Survives bs i
    · rw [if_pos hs]
      rfl
    · rw [if_neg hs]
      by_contra hne
      exact hs (hbytes i _ hp (Ne.symm hne))

end Held

/-! ### The deliveries of a payload -/

/-- A delivery is of a block that was sent. -/
theorem Delivered.mem {sent ds : List Block} (h : Delivered sent ds) : ∀ b ∈ ds, b ∈ sent := by
  induction h with
  | nil => simp
  | next h b ih =>
    intro b' hb'
    rcases List.mem_append.mp hb' with hb' | hb'
    · exact List.mem_append_left _ (ih b' hb')
    · exact List.mem_append_right _ hb'
  | again h hb ih =>
    intro b' hb'
    rcases List.mem_append.mp hb' with hb' | hb'
    · exact ih b' hb'
    · obtain rfl := List.mem_singleton.mp hb'
      exact hb

/-- The first delivery is of the first block. -/
theorem Delivered.head {sent ds : List Block} (h : Delivered sent ds) : ds.head? = sent.head? := by
  induction h with
  | nil => rfl
  | next h b ih => rw [List.head?_append, List.head?_append, ih]
  | again h hb ih =>
    rw [List.head?_append, ih]
    obtain ⟨b', hb'⟩ := Option.ne_none_iff_exists'.mp
      (List.head?_eq_none_iff.not.mpr (List.ne_nil_of_mem hb))
    rw [hb']
    rfl

/-- Blocks in order are pieces of what they carry together. -/
theorem inOrder_pieces : ∀ {bs : List Block} {pre : Str}, InOrder pre.length bs →
    ∀ b ∈ bs, Piece (pre ++ (bs.map Block.data).flatten) b
  | [], _, _, b, hb => absurd hb List.not_mem_nil
  | b₁ :: bs, pre, ⟨hoff, hrest⟩, b, hb => by
    rw [List.map_cons, List.flatten_cons, ← List.append_assoc]
    rcases List.mem_cons.mp hb with rfl | hb
    · intro i x hx
      unfold byteAt at hx
      split_ifs at hx with hle
      obtain ⟨hlt, -⟩ := List.getElem?_eq_some_iff.mp hx
      rw [List.getElem?_append_left (by rw [List.length_append]; omega),
        List.getElem?_append_right (by omega), ← hoff]
      exact hx
    · rw [← List.length_append] at hrest
      exact inOrder_pieces hrest b hb

section Transfer
variable (t : RepeatedTransfer)

theorem RepeatedTransfer.pieces : ∀ b ∈ t.blocks, Piece t.payload b := by
  have hpieces : ∀ b ∈ t.body ++ [t.last], Piece t.payload b :=
    @inOrder_pieces _ [] t.inOrder
  intro b hb
  rcases List.mem_append.mp hb with hb | hb
  · exact hpieces b (List.mem_append_left _ (t.repeats.mem b hb))
  · exact hpieces b (List.mem_append_right _ hb)

/-- The first of all deliveries is at offset `0`. -/
theorem RepeatedTransfer.starts : ∀ b ∈ t.blocks.head?, b.offset = 0 := by
  have hhead : t.blocks.head? = (t.body ++ [t.last]).head? := by
    rw [RepeatedTransfer.blocks, List.head?_append, List.head?_append, t.repeats.head]
  have horder := t.inOrder
  rw [hhead]
  cases hbs : t.body ++ [t.last] with
  | nil => simp
  | cons b bs =>
    rw [hbs] at horder
    rintro b' ⟨⟩
    exact horder.1

end Transfer

/-! ### The calls -/

/-- The buffer of a key is what was gathered. -/
def Holds (c : Cache κ) (k : κ) (bs : List Block) : Prop :=
  bs ≠ [] → appData c k = some (gather (since bs))

omit [DecidableEq κ] in
/-- **A delivery** goes on with what was gathered, or starts again. -/
theorem Holds.next {c : Cache κ} {k : κ} {bs : List Block} (h : Holds c k bs) {b : Block}
    (hstart : bs = [] → b.offset = 0) :
    nextBuffer (appData c k) b = some (gather (since (bs ++ [b]))) := by
  rw [since_snoc, sinceStep]
  unfold nextBuffer
  by_cases hoff : b.offset = 0
  · rw [if_pos hoff, if_pos hoff]
    simp only [gather, List.foldl_cons, List.foldl_nil, gatherStep]
    split_ifs
    · rfl
    · rfl
  · have hne : bs ≠ [] := fun hnil => hoff (hstart hnil)
    rw [if_neg hoff, if_neg hoff, h hne, gather_snoc, gatherStep]
    split_ifs
    · rfl
    · rfl

/-- **The deliveries that wait for more**, one after the other. -/
theorem receive_delivered (path : κ → Str) {k : κ} {rs : List (Request κ)} :
    ∀ {ds bs : List Block} {c : Cache κ}, (∀ r ∈ rs, r.key = k) →
      rs.map Request.body = ds.map some → Holds c k bs →
      (bs = [] → ∀ b ∈ ds.head?, b.offset = 0) →
      (bs = [] → (c k).isSome ∨ ∀ r ∈ rs.head?, r.newEntry = true) →
      (∀ b ∈ ds, b.offset + b.data.length ≠ b.total) →
      answersOf k (receive path c rs) = ds.map (fun _ => (0, [])) ∧
        Holds (cacheAfter path c rs) k (bs ++ ds) := by
  induction rs with
  | nil =>
    intro ds bs c _ hbodies hholds _ _ _
    obtain rfl : ds = [] := by simpa using hbodies
    exact ⟨rfl, by simpa [cacheAfter] using hholds⟩
  | cons r rs ih =>
    intro ds bs c hkeys hbodies hholds hstart hopens hwaits
    cases ds with
    | nil => simp at hbodies
    | cons b ds =>
      obtain ⟨hb, hbodies⟩ := List.cons.inj hbodies
      obtain rfl := hkeys r (List.mem_cons_self ..)
      have hoff : bs = [] → b.offset = 0 := fun hnil => hstart hnil b rfl
      have hwait := hwaits b (List.mem_cons_self ..)
      have hbw : b.data.length ≠ b.total := by
        have hfits := b.fits
        omega
      have hadm : Admitted c r b := by
        by_cases hnil : bs = []
        · rcases hopens hnil with hsome | hnew
          · exact Or.inl hsome
          · exact Or.inr ⟨hoff hnil, hnew r rfl⟩
        · have hbuf := hholds hnil
          refine Or.inl (Option.isSome_iff_ne_none.mpr fun hnone => ?_)
          simp [appData, hnone] at hbuf
      have hsession := @session_buffer κ _ (path r.key) c r b [] hb hbw hadm _ (hholds.next hoff)
      rw [if_neg hwait] at hsession
      have hholds' : Holds (sessionGetData (path r.key) c r []).cache r.key (bs ++ [b]) := by
        intro _
        rw [hsession]
        exact appData_setAppData _ _
      obtain ⟨hans, hfinal⟩ := ih (fun r' hr' => hkeys r' (List.mem_cons_of_mem _ hr')) hbodies
        hholds' (fun hnil => by simp at hnil) (fun hnil => by simp at hnil)
        fun b' hb' => hwaits b' (List.mem_cons_of_mem _ hb')
      constructor
      · simp only [receive, answersOf, List.filter_cons, decide_true, if_true, List.map_cons]
        rw [hsession] at hans ⊢
        exact congrArg _ hans
      · rw [List.append_assoc] at hfinal
        exact hfinal

/-- What is gathered where the last block is the whole body. -/
theorem gather_whole {b : Block} (h : b.data.length = b.total) : gather [b] = b.data := by
  simp only [gather, List.foldl_cons, List.foldl_nil, gatherStep]
  split_ifs with hdata
  · exact hdata.symm
  · have hoff : b.offset = ([] : Str).length := by
      have hfits := b.fits
      rw [List.length_nil]
      omega
    rw [hoff, splice_last List.prefix_rfl (by rw [List.length_nil, Nat.zero_add, h])]
    rfl

/-- **The last block** returns what was gathered. -/
theorem receive_last {c : Cache κ} {r : Request κ} {b : Block} {ds : List Block}
    (hb : r.body = some b) (hends : b.offset + b.data.length = b.total)
    (hstart : ds = [] → b.offset = 0) (hholds : Holds c r.key ds) (p : Str) :
    (sessionGetData p c r []).ret = 1 ∧
      (sessionGetData p c r []).dataOut = gather (since (ds ++ [b])) := by
  by_cases hbw : b.data.length = b.total
  · have hoff : b.offset = 0 := by omega
    have hsingle : ∀ b', r.body = some b' → b'.data.length = b'.total := by
      rw [hb]
      rintro _ ⟨⟩
      exact hbw
    rw [session_single hsingle, since_snoc, sinceStep, if_pos hoff, gather_whole hbw, hb]
    exact ⟨rfl, rfl⟩
  · have hne : ds ≠ [] := by
      intro hnil
      have hoff := hstart hnil
      omega
    have hadm : Admitted c r b := by
      have hbuf := hholds hne
      refine Or.inl (Option.isSome_iff_ne_none.mpr fun hnone => ?_)
      simp [appData, hnone] at hbuf
    rw [session_buffer hb hbw hadm (hholds.next hstart), if_pos hends]
    exact ⟨rfl, rfl⟩

/-- A first block without an entry, and without memory for one. -/
theorem receive_refused (path : κ → Str) {c : Cache κ} {r : Request κ} {b : Block}
    {rs : List (Request κ)} (hb : r.body = some b) (hbw : b.data.length ≠ b.total)
    (hnone : c r.key = none) (hnew : r.newEntry = false) :
    (answersOf r.key (receive path c (r :: rs))).head? = some (-1, []) := by
  have hadm : ¬ Admitted c r b := by
    rintro (hsome | ⟨-, hmem⟩)
    · rw [hnone] at hsome
      cases hsome
    · rw [hnew] at hmem
      cases hmem
  obtain ⟨msg, hmsg⟩ : ∃ msg, sessionGetData (path r.key) c r [] = ⟨-1, [], c, [msg]⟩ :=
    session_refused hb hbw hadm
  simp only [receive, hmsg, answersOf, List.filter_cons, decide_true, if_true, List.map_cons,
    List.head?_cons]

section Main
variable {path : κ → Str} {c : Cache κ} {k : κ} {rs : List (Request κ)} (t : RepeatedTransfer)

/-- The answers, where there is an entry for the first block. -/
theorem receive_blocks (hkeys : ∀ r ∈ rs, r.key = k)
    (hbodies : rs.map Request.body = t.blocks.map some)
    (hopens : t.delivered ≠ [] → (c k).isSome ∨ ∀ r ∈ rs.head?, r.newEntry = true) :
    answersOf k (receive path c rs) =
      t.delivered.map (fun _ => (0, [])) ++ [(1, gather (since t.blocks))] := by
  rw [RepeatedTransfer.blocks, List.map_append] at hbodies
  obtain ⟨rs₁, rs₂, rfl, h₁, h₂⟩ := List.map_eq_append_iff.mp hbodies
  obtain ⟨r, rfl, hb⟩ : ∃ r, rs₂ = [r] ∧ r.body = some t.last := by
    obtain ⟨r, rest, rfl, hb, hrest⟩ := List.map_eq_cons_iff.mp h₂
    obtain rfl : rest = [] := by simpa using hrest
    exact ⟨r, rfl, hb⟩
  obtain rfl := hkeys r (by simp)
  have hhead : ∀ b ∈ t.delivered.head?, b.offset = 0 := by
    intro b hb
    refine t.starts b ?_
    rw [RepeatedTransfer.blocks, List.head?_append, Option.mem_def.mp hb]
    rfl
  have hmem : t.delivered = [] ∨ (c r.key).isSome ∨ ∀ r' ∈ rs₁.head?, r'.newEntry = true := by
    by_cases hnil : t.delivered = []
    · exact Or.inl hnil
    · refine Or.inr ((hopens hnil).imp_right fun h r' hr' => h r' ?_)
      rw [List.head?_append, Option.mem_def.mp hr']
      rfl
  have hopens₁ : (c r.key).isSome ∨ ∀ r' ∈ rs₁.head?, r'.newEntry = true := by
    rcases hmem with hnil | h
    · rw [hnil] at h₁
      obtain rfl : rs₁ = [] := by simpa using h₁
      exact Or.inr (by simp)
    · exact h
  obtain ⟨hans, hholds⟩ := @receive_delivered κ _ path _ _ _ [] c
    (fun r' hr' => hkeys r' (List.mem_append_left _ hr')) h₁ (fun h => absurd rfl h)
    (fun _ => hhead) (fun _ => hopens₁) fun b hb => t.waits b (t.repeats.mem b hb)
  rw [List.nil_append] at hholds
  have hstart : t.delivered = [] → t.last.offset = 0 := by
    intro hnil
    refine t.starts t.last ?_
    rw [RepeatedTransfer.blocks, hnil]
    rfl
  obtain ⟨hret, hout⟩ := receive_last hb t.ends hstart hholds (path r.key)
  rw [receive_append, answersOf_append, hans]
  simp only [receive, answersOf, List.filter_cons, decide_true, if_true, List.filter_nil,
    List.map_cons, List.map_nil, hret, hout, RepeatedTransfer.blocks]

/-- **Repetitions are harmless exactly where the payload survives them.** The requests under the key
carry a body in order, with repetitions before its last block, among requests under other keys in
any order. All but the last are answered with `0`, and the last with the payload, if and only if
there is an entry for the first block or memory for one, every byte of the payload but zeros
survives, and the last block with data has the length of the payload for its total. -/
theorem repeats_harmless_iff
    (hbodies : (rs.filter (·.key = k)).map Request.body = t.blocks.map some) :
    answersOf k (receive path c rs) = t.answers ↔
      (t.delivered ≠ [] → Opens c k rs) ∧ t.Intact := by
  have hkeys : ∀ r ∈ rs.filter (·.key = k), r.key = k :=
    fun r hr => of_decide_eq_true (List.mem_filter.mp hr).2
  have hintact : gather (since t.blocks) = t.payload ↔ t.Intact :=
    (gather_eq_iff t.pieces).trans ⟨fun h => ⟨h.1, h.2⟩, fun h => ⟨h.bytes, h.length⟩⟩
  rw [answersOf_receive k rs (rfl : c k = c k), RepeatedTransfer.answers]
  by_cases hopens : t.delivered ≠ [] → Opens c k rs
  · rw [receive_blocks t hkeys hbodies hopens, and_iff_right hopens, ← hintact]
    simp
  · refine iff_of_false (fun heq => ?_) fun h => hopens h.1
    push Not at hopens
    obtain ⟨hne, hnot⟩ := hopens
    unfold Opens at hnot
    push Not at hnot
    obtain ⟨hnone, r, hr, hnew⟩ := hnot
    obtain ⟨b, ds, hds⟩ := List.exists_cons_of_ne_nil hne
    obtain ⟨rest, hrest⟩ : ∃ rest, rs.filter (·.key = k) = r :: rest :=
      List.head?_eq_some_iff.mp hr
    rw [hrest] at hkeys hbodies heq
    rw [RepeatedTransfer.blocks, hds] at hbodies
    obtain ⟨hb, -⟩ := List.cons.inj hbodies
    obtain rfl := hkeys r (List.mem_cons_self ..)
    have hbw : b.data.length ≠ b.total := by
      have hwait := t.waits b (t.repeats.mem b (hds ▸ List.mem_cons_self ..))
      have hfits := b.fits
      omega
    have hhead := @receive_refused κ _ path _ _ _ rest hb hbw
      (Option.not_isSome_iff_eq_none.mp hnone) (by simpa using hnew)
    rw [heq, hds] at hhead
    simp at hhead

end Main

/-! ### A body of three blocks -/

/-- The second of three bytes. -/
def secondByte : Request ℕ := ⟨0, some ⟨[2], 1, 3, by decide, three_le_ptrdiffMax⟩, true⟩

/-- The block at position `i` of three bytes. -/
def byteBlock (i : Fin 3) : Block :=
  ⟨[UInt8.ofNat (i + 1)], i, 3, Nat.succ_le_of_lt i.isLt, three_le_ptrdiffMax⟩

/-- The body, with one of the first two blocks repeated before the last one. -/
def repeated (i : Fin 2) : RepeatedTransfer :=
  { body := [byteBlock 0, byteBlock 1]
    last := byteBlock 2
    delivered := [byteBlock 0, byteBlock 1, byteBlock i.castSucc]
    inOrder := ⟨rfl, rfl, rfl, trivial⟩
    waits := by decide
    ends := rfl
    repeats := by
      have hsent : Delivered [byteBlock 0, byteBlock 1] [byteBlock 0, byteBlock 1] :=
        (Delivered.nil.next (byteBlock 0)).next (byteBlock 1)
      refine hsent.again ?_
      match i with
      | 0 => exact List.mem_cons_self
      | 1 => exact List.mem_cons_of_mem _ List.mem_cons_self }

/-- The second block twice. -/
theorem repeats_harmless_iff_second :
    answersOf 0 (receive (fun _ => []) Cache.empty [firstByte, secondByte, secondByte, thirdByte]) =
      [(0, []), (0, []), (0, []), (1, [1, 2, 3])] := by
  refine (repeats_harmless_iff (repeated 1) (by decide)).mpr ⟨fun _ => Or.inr (by decide), ?_, rfl⟩
  intro i x hx _
  match i with
  | 0 => exact ⟨[], byteBlock 0, [byteBlock 1, byteBlock 1, byteBlock 2], rfl, rfl, by decide⟩
  | 1 => exact ⟨[byteBlock 0, byteBlock 1], byteBlock 1, [byteBlock 2], rfl, rfl, by decide⟩
  | 2 => exact ⟨[byteBlock 0, byteBlock 1, byteBlock 1], byteBlock 2, [], rfl, rfl, by decide⟩
  | n + 3 => cases hx

/-- **A late duplicate of the first block** clears the buffer, and `0` is delivered for the second
byte. -/
theorem first_again_loses : ¬ ∀ (path : ℕ → Str) (c : Cache ℕ) (k : ℕ) (rs : List (Request ℕ))
    (t : RepeatedTransfer), (rs.filter (·.key = k)).map Request.body = t.blocks.map some →
    (∀ r ∈ rs, r.newEntry = true) → answersOf k (receive path c rs) = t.answers := by
  intro h
  have hans := h (fun _ => []) Cache.empty 0 [firstByte, secondByte, firstByte, thirdByte]
    (repeated 0) (by decide) (by decide)
  revert hans
  decide

end CoapServer.Blocks.Repeats
