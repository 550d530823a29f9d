import CoapServer.Blocks.SessionData

/-! # Block-wise transfers in order

`receive` is a run of `sessionGetData` over the requests of many sessions. The answers under one key
are those of the requests with that key alone (`answersOf_receive`), since a call reads and writes
its own entry only.

A `Transfer` is a body sent in order from offset `0`, up to its last block or abandoned before it.
While it is under way the buffer starts with what has been sent (`Ready`): a block that waits for
more makes that prefix longer, the last one makes it the whole buffer. `reassembly_exact` puts the
transfers of all keys together, one after the other under each key and interleaved in any way. -/

namespace CoapServer.Blocks.Transfers

open CoapServer.Basic CoapServer.Lib.Splice CoapServer.Blocks.SessionData

variable {κ : Type} [DecidableEq κ]

/-! ### Runs -/

/-- What a request is answered with: its key, the value returned and `dataOut`. -/
structure Answer (κ : Type) where
  key : κ
  ret : ℤ
  dataOut : Str
  deriving DecidableEq

/-- The cache after requests; the resource of a request goes with its key. -/
def cacheAfter (path : κ → Str) (c : Cache κ) : List (Request κ) → Cache κ
  | [] => c
  | r :: rs => cacheAfter path (sessionGetData (path r.key) c r []).cache rs

/-- **The answers to requests.** `dataOut` is empty before each call. -/
def receive (path : κ → Str) (c : Cache κ) : List (Request κ) → List (Answer κ)
  | [] => []
  | r :: rs =>
    let o := sessionGetData (path r.key) c r []
    { key := r.key, ret := o.ret, dataOut := o.dataOut } :: receive path o.cache rs

/-- The answers under a key. -/
def answersOf (k : κ) (as : List (Answer κ)) : List (ℤ × Str) :=
  (as.filter (·.key = k)).map fun a => (a.ret, a.dataOut)

variable {path : κ → Str}

theorem receive_append (c : Cache κ) (rs rs' : List (Request κ)) :
    receive path c (rs ++ rs') = receive path c rs ++ receive path (cacheAfter path c rs) rs' := by
  induction rs generalizing c with
  | nil => rfl
  | cons r rs ih => simp only [List.cons_append, receive, cacheAfter, ih]

theorem answersOf_append (k : κ) (as as' : List (Answer κ)) :
    answersOf k (as ++ as') = answersOf k as ++ answersOf k as' := by
  simp only [answersOf, List.filter_append, List.map_append]

/-- **The sessions do not see each other**: the answers under a key are those to its requests. -/
theorem answersOf_receive (k : κ) (rs : List (Request κ)) :
    ∀ {c c' : Cache κ}, c k = c' k →
      answersOf k (receive path c rs) = answersOf k (receive path c' (rs.filter (·.key = k))) := by
  induction rs with
  | nil =>
    intro c c' _
    rfl
  | cons r rs ih =>
    intro c c' h
    by_cases hk : r.key = k
    · subst hk
      have hloc := session_congr h (path r.key) []
      rw [List.filter_cons_of_pos (by simp)]
      simp only [receive, answersOf, List.filter_cons, decide_true, if_true, List.map_cons]
      rw [hloc.1, hloc.2.1]
      exact congrArg _ (ih hloc.2.2)
    · have hframe : (sessionGetData (path r.key) c r []).cache k = c k := session_frame (Ne.symm hk)
      rw [List.filter_cons_of_neg (by simpa using hk), ← ih (hframe.trans h)]
      simp only [receive, answersOf, List.filter_cons, hk, decide_false]
      rfl

/-! ### Transfers -/

/-- The blocks follow one another from `off` on, none of them empty or a body of its own. -/
def Consecutive : ℕ → List Block → Prop
  | _, [] => True
  | off, b :: bs => b.offset = off ∧ b.data ≠ [] ∧ b.data.length ≠ b.total ∧
    Consecutive (off + b.data.length) bs

/-- **A transfer**: the blocks that wait for more, and the last one, if the transfer is not abandoned
before. -/
structure Transfer where
  body : List Block
  last : Option Block
  consecutive : Consecutive 0 (body ++ last.toList)
  waits : ∀ b ∈ body, b.offset + b.data.length ≠ b.total
  ends : ∀ b ∈ last, b.offset + b.data.length = b.total

/-- The blocks sent. -/
def Transfer.blocks (t : Transfer) : List Block := t.body ++ t.last.toList

/-- The bytes sent. -/
def Transfer.payload (t : Transfer) : Str := (t.blocks.map Block.data).flatten

/-- **What a transfer is to be answered with**: wait at each block, the payload at the last. -/
def Transfer.answers (t : Transfer) : List (ℤ × Str) :=
  t.body.map (fun _ => (0, [])) ++ t.last.toList.map fun _ => (1, t.payload)

/-- The buffer under the key starts with `pre`, or a new one is about to start. -/
def Ready (c : Cache κ) (k : κ) (pre : Str) : Prop :=
  pre = [] ∨ ∃ buf, appData c k = some buf ∧ pre <+: buf

section Step
variable {c : Cache κ} {r : Request κ} {b : Block} {pre : Str}

omit [DecidableEq κ] in
/-- The next block finds its entry and buffer. -/
theorem Ready.next (h : Ready c r.key pre) (hnew : r.newEntry = true) (hoff : b.offset = pre.length)
    (hdata : b.data ≠ []) : Admitted c r b ∧ ∃ buf, pre <+: buf ∧
      nextBuffer (appData c r.key) b = some (splice 0 b.total pre.length b.data buf) := by
  by_cases hpre : pre = []
  · subst hpre
    refine ⟨Or.inr ⟨hoff, hnew⟩, [], List.prefix_rfl, ?_⟩
    simp only [nextBuffer, if_pos (show b.offset = 0 from hoff), if_neg hdata, Option.map_some]
    rw [hoff]
  · obtain ⟨buf, hbuf, hpre'⟩ := h.resolve_left hpre
    have hoff0 : b.offset ≠ 0 := by
      have := List.length_pos_iff.mpr hpre
      omega
    refine ⟨Or.inl ?_, buf, hpre', ?_⟩
    · cases hc : c r.key with
      | none => simp [appData, hc] at hbuf
      | some e => rfl
    · simp only [nextBuffer, if_neg hoff0, if_neg hdata, hbuf, Option.map_some]
      rw [hoff]

/-- **A block that waits for more** makes the prefix longer. -/
theorem ready_waits (h : Ready c r.key pre) (hnew : r.newEntry = true) (hb : r.body = some b)
    (hoff : b.offset = pre.length) (hdata : b.data ≠ []) (hbw : b.data.length ≠ b.total)
    (hwait : b.offset + b.data.length ≠ b.total) (p : Str) :
    (sessionGetData p c r []).ret = 0 ∧ (sessionGetData p c r []).dataOut = [] ∧
      Ready (sessionGetData p c r []).cache r.key (pre ++ b.data) := by
  obtain ⟨hadm, buf, hpre, hnext⟩ := h.next hnew hoff hdata
  rw [session_buffer hb hbw hadm hnext, if_neg hwait]
  refine ⟨rfl, rfl, Or.inr ⟨_, appData_setAppData _ _, splice_prefix hpre ?_⟩⟩
  rw [← hoff]
  exact b.fits

/-- **The last block** returns what was sent. -/
theorem ready_ends (h : Ready c r.key pre) (hnew : r.newEntry = true) (hb : r.body = some b)
    (hoff : b.offset = pre.length) (hdata : b.data ≠ []) (hbw : b.data.length ≠ b.total)
    (hend : b.offset + b.data.length = b.total) (p : Str) :
    (sessionGetData p c r []).ret = 1 ∧ (sessionGetData p c r []).dataOut = pre ++ b.data := by
  obtain ⟨hadm, buf, hpre, hnext⟩ := h.next hnew hoff hdata
  rw [session_buffer hb hbw hadm hnext, if_pos hend]
  refine ⟨rfl, splice_last hpre ?_⟩
  rw [← hoff, hend]

end Step

/-- Requests under a key that carry the given blocks, with memory for an entry. -/
structure Carries (k : κ) (rs : List (Request κ)) (bs : List Block) : Prop where
  keys : ∀ r ∈ rs, r.key = k
  memory : ∀ r ∈ rs, r.newEntry = true
  bodies : rs.map Request.body = bs.map some

omit [DecidableEq κ] in
/-- The requests that carry one list of blocks and then another. -/
theorem Carries.split {k : κ} {rs : List (Request κ)} {bs bs' : List Block}
    (h : Carries k rs (bs ++ bs')) :
    ∃ rs₁ rs₂, rs = rs₁ ++ rs₂ ∧ Carries k rs₁ bs ∧ Carries k rs₂ bs' := by
  have hbodies := h.bodies
  rw [List.map_append] at hbodies
  obtain ⟨rs₁, rs₂, rfl, h₁, h₂⟩ := List.map_eq_append_iff.mp hbodies
  exact ⟨rs₁, rs₂, rfl,
    ⟨fun r hr => h.keys r (List.mem_append_left _ hr),
      fun r hr => h.memory r (List.mem_append_left _ hr), h₁⟩,
    ⟨fun r hr => h.keys r (List.mem_append_right _ hr),
      fun r hr => h.memory r (List.mem_append_right _ hr), h₂⟩⟩

/-- **The blocks that wait for more**, one after the other. -/
theorem receive_waits (path : κ → Str) {k : κ} {rs : List (Request κ)} :
    ∀ {bs : List Block} {c : Cache κ} {pre : Str},
    Carries k rs bs → Ready c k pre → Consecutive pre.length bs →
    (∀ b ∈ bs, b.offset + b.data.length ≠ b.total) →
    answersOf k (receive path c rs) = bs.map (fun _ => (0, [])) ∧
      Ready (cacheAfter path c rs) k (pre ++ (bs.map Block.data).flatten) := by
  induction rs with
  | nil =>
    intro bs c pre h hready _ _
    obtain rfl : bs = [] := by simpa using h.bodies
    exact ⟨rfl, by simpa [cacheAfter] using hready⟩
  | cons r rs ih =>
    intro bs c pre h hready hcons hwaits
    cases bs with
    | nil => simpa using h.bodies
    | cons b bs =>
      obtain ⟨hb, hbodies⟩ := List.cons.inj h.bodies
      obtain rfl := h.keys r (List.mem_cons_self ..)
      obtain ⟨hoff, hdata, hbw, hcons⟩ := hcons
      obtain ⟨hret, hout, hready'⟩ := ready_waits hready (h.memory r (List.mem_cons_self ..)) hb
        hoff hdata hbw (hwaits b (List.mem_cons_self ..)) (path r.key)
      have hrest : Carries r.key rs bs := ⟨fun r' hr' => h.keys r' (List.mem_cons_of_mem _ hr'),
        fun r' hr' => h.memory r' (List.mem_cons_of_mem _ hr'), hbodies⟩
      obtain ⟨hans, hfinal⟩ := ih hrest hready' (by rwa [List.length_append])
        fun b' hb' => hwaits b' (List.mem_cons_of_mem _ hb')
      constructor
      · simp only [receive, answersOf, List.filter_cons, decide_true, if_true, List.map_cons]
        rw [hret, hout]
        exact congrArg _ hans
      · rw [List.map_cons, List.flatten_cons, ← List.append_assoc]
        exact hfinal

theorem consecutive_append {off : ℕ} {bs bs' : List Block} (h : Consecutive off (bs ++ bs')) :
    Consecutive off bs ∧ Consecutive (off + (bs.map Block.data).flatten.length) bs' := by
  induction bs generalizing off with
  | nil => exact ⟨trivial, h⟩
  | cons b bs ih =>
    obtain ⟨hoff, hdata, hbw, hrest⟩ := h
    obtain ⟨h₁, h₂⟩ := ih hrest
    refine ⟨⟨hoff, hdata, hbw, h₁⟩, ?_⟩
    rwa [List.map_cons, List.flatten_cons, List.length_append, ← Nat.add_assoc]

/-- **A transfer is answered with its payload**, whatever was in the cache before. -/
theorem receive_transfer {k : κ} (t : Transfer) {rs : List (Request κ)} (c : Cache κ)
    (h : Carries k rs t.blocks) : answersOf k (receive path c rs) = t.answers := by
  obtain ⟨rs₁, rs₂, rfl, h₁, h₂⟩ := h.split
  obtain ⟨hcons₁, hcons₂⟩ := consecutive_append t.consecutive
  have hstart : Ready c k [] := Or.inl rfl
  obtain ⟨hans, hready⟩ := receive_waits path h₁ hstart hcons₁ t.waits
  rw [receive_append, answersOf_append, hans, Transfer.answers]
  refine congrArg _ ?_
  cases hlast : t.last with
  | none =>
    rw [hlast] at h₂
    obtain rfl : rs₂ = [] := by simpa using h₂.bodies
    rfl
  | some b =>
    rw [hlast] at h₂ hcons₂
    obtain ⟨r, rfl⟩ : ∃ r, rs₂ = [r] := by
      have hlen := congrArg List.length h₂.bodies
      rw [List.length_map, List.length_map] at hlen
      exact List.length_eq_one_iff.mp hlen
    obtain ⟨hb, -⟩ := List.cons.inj h₂.bodies
    obtain rfl := h₂.keys r (List.mem_singleton_self r)
    obtain ⟨hoff, hdata, hbw, -⟩ := hcons₂
    rw [Nat.zero_add] at hoff
    obtain ⟨hret, hout⟩ := ready_ends hready (h₂.memory r (List.mem_singleton_self r)) hb
      hoff hdata hbw (t.ends b hlast) (path r.key)
    simp only [receive, answersOf, List.filter_cons, decide_true, if_true, List.filter_nil,
      List.map_cons, List.map_nil, hret, hout, Option.toList_some, Transfer.payload,
      Transfer.blocks, hlast]
    simp

/-- Transfers under one key, one after the other. -/
theorem receive_transfers {k : κ} : ∀ (ts : List Transfer) {rs : List (Request κ)} (c : Cache κ),
    Carries k rs (ts.flatMap Transfer.blocks) →
    answersOf k (receive path c rs) = ts.flatMap Transfer.answers
  | [], rs, c, h => by
    obtain rfl : rs = [] := by simpa using h.bodies
    rfl
  | t :: ts, rs, c, h => by
    rw [List.flatMap_cons] at h
    obtain ⟨rs₁, rs₂, rfl, h₁, h₂⟩ := h.split
    rw [receive_append, answersOf_append, receive_transfer t c h₁, receive_transfers ts _ h₂,
      List.flatMap_cons]

/-- **Reassembly is exact and isolated.** Under each key transfers are sent one after the other, and
the requests of the keys are interleaved in any way: every transfer is answered with its own payload
at its last block, whatever the cache held at the start, and no call changes the entry of another
key. -/
theorem reassembly_exact (path : κ → Str) (c : Cache κ) (rs : List (Request κ))
    (ts : κ → List Transfer)
    (hblocks : ∀ k, (rs.filter (·.key = k)).map Request.body =
      ((ts k).flatMap Transfer.blocks).map some)
    (hmemory : ∀ r ∈ rs, r.newEntry = true) :
    (∀ k, answersOf k (receive path c rs) = (ts k).flatMap Transfer.answers) ∧
    ∀ (c' : Cache κ) (r : Request κ) (out : Str) (k : κ), k ≠ r.key →
      (sessionGetData (path r.key) c' r out).cache k = c' k := by
  refine ⟨fun k => ?_, fun c' r out k hk => session_frame hk⟩
  rw [answersOf_receive k rs (rfl : c k = c k)]
  refine receive_transfers (ts k) c ⟨fun r hr => ?_, fun r hr => ?_, hblocks k⟩
  · exact of_decide_eq_true (List.mem_filter.mp hr).2
  · exact hmemory r (List.mem_filter.mp hr).1

/-- A body of four bytes abandoned after the first two. -/
def abandoned : Transfer :=
  { body := [⟨[1, 2], 0, 4, by decide, by decide⟩]
    last := none
    consecutive := by simp [Consecutive]
    waits := by decide
    ends := by decide }

/-- A body of three bytes in two blocks, the first of which reports another total. -/
def completed : Transfer :=
  { body := [⟨[3], 0, 5, by decide, by decide⟩]
    last := some ⟨[4, 5], 1, 3, by decide, three_le_ptrdiffMax⟩
    consecutive := by simp [Consecutive]
    waits := by decide
    ends := by decide }

/-- The requests of two sessions, one of which abandons a body and starts again. -/
def interleaved : List (Request Bool) :=
  [⟨true, some ⟨[1, 2], 0, 4, by decide, by decide⟩, true⟩,
    ⟨false, some ⟨[3], 0, 5, by decide, by decide⟩, true⟩,
    ⟨true, some ⟨[3], 0, 5, by decide, by decide⟩, true⟩,
    ⟨false, some ⟨[4, 5], 1, 3, by decide, three_le_ptrdiffMax⟩, true⟩,
    ⟨true, some ⟨[4, 5], 1, 3, by decide, three_le_ptrdiffMax⟩, true⟩]

theorem reassembly_exact_two :
    answersOf true (receive (fun _ => str "example/res1") Cache.empty interleaved) =
      [(0, []), (0, []), (1, [3, 4, 5])] ∧
    answersOf false (receive (fun _ => str "example/res1") Cache.empty interleaved) =
      [(0, []), (1, [3, 4, 5])] := by
  have h := (reassembly_exact (fun _ => str "example/res1") Cache.empty interleaved
    (fun k => if k then [abandoned, completed] else [completed]) (by decide) (by decide)).1
  exact ⟨h true, h false⟩

end CoapServer.Blocks.Transfers
