import CoapServer.Queue.Threads

/-! # The queue between two threads is exact while the fullness test is fresh

Let `p` be the number of items put into the ring so far and `c` the number taken from it. `start`
and `end_` agree with `c` and `p` modulo `maxSize`, also while one of them is at `maxSize` before its
reset. The invariant `Inv` says so, that `c ≤ p < c + maxSize`, that the slots from `c` to `p` hold
the published items, and, for each place in the code, what the values loaded so far still mean
although the other thread has moved on: an index loaded earlier stands for an earlier counter
(`ProducerOk`, `ConsumerOk`).

The one load for which this is not enough is a stale fullness test (`StaleTest`): at `maxSize` the
index `start` is never equal to `(end + 1) % maxSize`, so the test passes although the ring is full.
Without it the queue is exact (`exact_iff_fresh`) and a `dequeue` that follows a non-zero `count`
does not throw (`guarded_dequeue_iff_fresh`). With it, the calls under way can end in a state where
`count` is `0` with `maxSize` items accepted and not returned, and in a `dequeue` that throws. -/

namespace CoapServer.Queue.Exactness

open CoapServer.Basic CoapServer.Lib.Ring CoapServer.Lib.Run CoapServer.Queue.Sequential
open CoapServer.Queue.Threads

variable {α : Type}

/-! ### What the values loaded so far mean -/

/-- A value of `start` the fullness test has loaded: it stands for an earlier count `c'` of items
taken, and is not yet reset only where the ring cannot be full. -/
def LoadedStart (n p c e s : ℕ) : Prop :=
  ∃ c' ≤ c, s ≡ c' [MOD n] ∧ p < c' + n ∧ (s < n ∨ s = n ∧ e + 1 ≠ n)

/-- A value of `end` the consumer has loaded: it stands for an earlier count of items published. -/
def LoadedEnd (n p c e : ℕ) : Prop := ∃ p', c ≤ p' ∧ p' ≤ p ∧ e ≡ p' [MOD n] ∧ e ≤ n

/-- The producer's part of the invariant, for `end_ = e`. -/
def ProducerOk (n p c e : ℕ) (items : List α) : ProducerPc α → Prop
  | .idle => e < n
  | .test _ st en => e < n ∧ (∀ e' ∈ en, e' = e) ∧ ∀ s ∈ st, LoadedStart n p c e s
  | .slot _ => e < n ∧ p + 1 < c + n
  | .write _ i => e < n ∧ p + 1 < c + n ∧ i = e
  | .publish item => e < n ∧ p + 1 < c + n ∧ items[e]? = some item
  | .check _ => True
  | .reset _ => e = n

/-- The consumer's part of the invariant, for `start = s`. -/
def ConsumerOk (n p c s : ℕ) (pub : List α) : ConsumerPc α → Prop
  | .idle => s < n
  | .count st en => s < n ∧ (∀ s' ∈ st, s' = s) ∧ ∀ e ∈ en, LoadedEnd n p c e
  | .ready => s < n ∧ c < p
  | .test st en => s < n ∧ c < p ∧ (∀ s' ∈ st, s' = s) ∧ ∀ e ∈ en, LoadedEnd n p (c + 1) e
  | .slot => s < n ∧ c < p
  | .read i => s < n ∧ c < p ∧ i = s
  | .advance item => s < n ∧ pub[c]? = some item
  | .check _ => True
  | .reset _ => s = n
  | .thrown => False

/-- The ring of `n` slots after the items `pub` were put into it and the items `tk` taken. -/
structure RingOk (n : ℕ) (q : RequestQueue α) (pub tk : List α) : Prop where
  size : q.maxSize = n
  two_le : 2 ≤ n
  fits : n * sizeofItem ≤ ptrdiffMax
  len : q.items.length = n
  taken_prefix : tk <+: pub
  room : pub.length < tk.length + n
  end_mod : q.end_ ≡ pub.length [MOD n]
  end_le : q.end_ ≤ n
  start_mod : q.start ≡ tk.length [MOD n]
  start_le : q.start ≤ n
  cells : window (q.items[·]?) n tk.length (pub.length - tk.length) =
    (pub.drop tk.length).map some

/-- **The invariant** of the two threads, on a ring of `n` slots. -/
structure Inv (n : ℕ) (s : State α) : Prop where
  ring : RingOk n s.queue (published s) (taken s)
  producer : ProducerOk n (published s).length (taken s).length s.queue.end_ s.queue.items
    s.producer
  consumer : ConsumerOk n (published s).length (taken s).length s.queue.start (published s)
    s.consumer

/-! ### One thread's part is stable under the other thread -/

/-- What the producer knows stays true when more items have been taken. -/
theorem ProducerOk.mono {n p c c' e : ℕ} {items : List α} {pc : ProducerPc α} (hc : c ≤ c')
    (h : ProducerOk n p c e items pc) : ProducerOk n p c' e items pc := by
  cases pc with
  | idle => exact h
  | test item st en =>
    refine ⟨h.1, h.2.1, fun s hs => ?_⟩
    obtain ⟨c₀, hc₀, hrest⟩ := h.2.2 s hs
    exact ⟨c₀, hc₀.trans hc, hrest⟩
  | slot item => exact ⟨h.1, by have := h.2; omega⟩
  | write item i => exact ⟨h.1, by have := h.2.1; omega, h.2.2⟩
  | publish item => exact ⟨h.1, by have := h.2.1; omega, h.2.2⟩
  | check item => trivial
  | reset item => exact h

theorem LoadedEnd.mono {n p p' c e : ℕ} (hp : p ≤ p') (h : LoadedEnd n p c e) :
    LoadedEnd n p' c e := by
  obtain ⟨q, hcq, hqp, hrest⟩ := h
  exact ⟨q, hcq, hqp.trans hp, hrest⟩

/-- What the consumer knows stays true when more items have been published. -/
theorem ConsumerOk.mono {n p p' c s : ℕ} {pub pub' : List α} {pc : ConsumerPc α} (hp : p ≤ p')
    (hpub : pub <+: pub') (h : ConsumerOk n p c s pub pc) : ConsumerOk n p' c s pub' pc := by
  cases pc with
  | idle => exact h
  | count st en => exact ⟨h.1, h.2.1, fun e he => (h.2.2 e he).mono hp⟩
  | ready => exact ⟨h.1, h.2.trans_le hp⟩
  | test st en => exact ⟨h.1, h.2.1.trans_le hp, h.2.2.1, fun e he => (h.2.2.2 e he).mono hp⟩
  | slot => exact ⟨h.1, h.2.trans_le hp⟩
  | read i => exact ⟨h.1, h.2.1.trans_le hp, h.2.2⟩
  | advance item =>
    refine ⟨h.1, ?_⟩
    obtain ⟨t, rfl⟩ := hpub
    have hlt : c < pub.length := (List.getElem?_eq_some_iff.mp h.2).1
    rw [List.getElem?_append_left hlt]
    exact h.2
  | check item => trivial
  | reset item => exact h
  | thrown => exact h

/-! ### The three comparisons -/

/-- **The fullness test is right** about a value of `start` that stands for an earlier count. -/
theorem LoadedStart.room {n p c e s : ℕ} (h : LoadedStart n p c e s) (he : e ≡ p [MOD n])
    (hen : e < n) (hcp : c ≤ p) (hne : s ≠ (e + 1) % n) : p + 1 < c + n := by
  obtain ⟨c', hc', hs, hp, hlt | ⟨rfl, hlast⟩⟩ := h
  · have hfull := (full_iff hs he hlt (hc'.trans hcp) hp).not.mp hne
    omega
  · -- a full ring would put `end` at the last slot, which `LoadedStart` excludes
    by_contra hnot
    have hpc : p + 1 = c' + s := by omega
    have h0 : e + 1 ≡ 0 [MOD s] := by
      calc e + 1 ≡ p + 1 [MOD s] := he.add_right 1
        _ = c' + s := hpc
        _ ≡ s + s [MOD s] := hs.symm.add_right s
        _ ≡ 0 [MOD s] := (Nat.modEq_zero_iff_dvd).mpr ⟨2, by omega⟩
    have hdvd := (Nat.modEq_zero_iff_dvd).mp h0
    have hle := Nat.le_of_dvd (by omega) hdvd
    omega

/-- A non-zero `count` leaves an item for `dequeue`. -/
theorem LoadedEnd.lt_of_count {n p c e s : ℕ} (h : LoadedEnd n p c e) (hs : s ≡ c [MOD n])
    (hsn : s < n) (hpc : p < c + n) (hfits : 2 * n < sizeMod)
    (hcount : sizeSub (sizeAdd e n) s % n ≠ 0) : c < p := by
  obtain ⟨p', hcp', hp', he, hen⟩ := h
  have hadd : sizeAdd e n = e + n := sizeAdd_eq (by omega)
  rw [hadd, sizeSub_eq (by omega) (by omega),
    distance_eq hs he hsn.le hcp' (by omega)] at hcount
  omega

/-- **The emptiness test does not find the ring empty** after a non-zero `count`. -/
theorem LoadedEnd.ne_start {n p c e s : ℕ} (h : LoadedEnd n p (c + 1) e) (hs : s ≡ c [MOD n])
    (hpc : p < c + n) : s ≠ e := by
  rintro rfl
  obtain ⟨p', hcp', hp', he, -⟩ := h
  have hmod : c ≡ p' [MOD n] := hs.symm.trans he
  obtain ⟨q, hq⟩ := (Nat.modEq_iff_dvd' (by omega : c ≤ p')).mp hmod
  rcases Nat.eq_zero_or_pos q with rfl | hpos
  · omega
  · have := Nat.le_mul_of_pos_right n hpos
    omega

/-! ### What a step does to the ring -/

/-- A prefix goes on with the next element. -/
theorem snoc_prefix {l l' : List α} {a : α} (h : l <+: l') (ha : l'[l.length]? = some a) :
    l ++ [a] <+: l' := by
  obtain ⟨t, rfl⟩ := h
  cases t with
  | nil => simp at ha
  | cons b t =>
    obtain rfl : b = a := by simpa using ha
    exact ⟨t, by simp⟩

section Ring
variable {n : ℕ} {q : RequestQueue α} {pub tk : List α} (h : RingOk n q pub tk)
include h

theorem RingOk.taken_le : tk.length ≤ pub.length := h.taken_prefix.length_le

theorem RingOk.maxSize_lt : 2 * n < sizeMod := by
  have := h.fits
  simp only [sizeofItem, ptrdiffMax] at this
  simp only [sizeMod]
  omega

/-- The index `end`, in range, is the slot after the window. -/
theorem RingOk.end_eq (hlt : q.end_ < n) :
    (tk.length + (pub.length - tk.length)) % n = q.end_ := by
  rw [Nat.add_sub_cancel' h.taken_le, ← h.end_mod, Nat.mod_eq_of_lt hlt]

/-- Writing the slot at `end`. -/
theorem RingOk.write (hlt : q.end_ < n) (item : α) :
    RingOk n { q with items := q.items.set q.end_ item } pub tk := by
  refine ⟨h.size, h.two_le, h.fits, by simp [h.len], h.taken_prefix, h.room, h.end_mod, h.end_le,
    h.start_mod, h.start_le, ?_⟩
  show window (fun i => (q.items.set q.end_ item)[i]?) _ _ _ = _
  rw [← h.end_eq hlt, window_set (by have := h.room; have := h.two_le; omega), h.cells]

/-- Advancing `end` over a slot that holds `item`. -/
theorem RingOk.publish (hlt : q.end_ < n) (hroom : pub.length + 1 < tk.length + n) {item : α}
    (hitem : q.items[q.end_]? = some item) :
    RingOk n { q with end_ := q.end_ + 1 } (pub ++ [item]) tk := by
  have hlen : (pub ++ [item]).length = pub.length + 1 := by simp
  have hle := h.taken_le
  refine ⟨h.size, h.two_le, h.fits, h.len, h.taken_prefix.trans (List.prefix_append _ _), ?_, ?_,
    hlt, h.start_mod, h.start_le, ?_⟩
  · rw [hlen]
    exact hroom
  · rw [hlen]
    exact h.end_mod.add_right 1
  · rw [hlen, Nat.sub_add_comm hle, window_append_cell, h.end_eq hlt,
      List.drop_append_of_le_length hle, List.map_append]
    exact congrArg₂ _ h.cells (by simpa using hitem)

/-- Resetting `end` from `maxSize`. -/
theorem RingOk.resetEnd (heq : q.end_ = n) : RingOk n { q with end_ := 0 } pub tk := by
  have h0 : 0 ≡ pub.length [MOD n] := by
    have hn : 0 ≡ n [MOD n] := (Nat.modEq_zero_iff_dvd.mpr dvd_rfl).symm
    exact hn.trans (heq ▸ h.end_mod)
  exact ⟨h.size, h.two_le, h.fits, h.len, h.taken_prefix, h.room, h0, Nat.zero_le _,
    h.start_mod, h.start_le, h.cells⟩

/-- The first slot of the window holds the next item to take. -/
theorem RingOk.head (hlt : q.start < n) (hcp : tk.length < pub.length) :
    q.items[q.start]? = some pub[tk.length] := by
  have hstart : tk.length % n = q.start := by rw [← h.start_mod, Nat.mod_eq_of_lt hlt]
  have hcells := h.cells
  rw [show pub.length - tk.length = (pub.length - tk.length - 1) + 1 by omega, window_cons_cell,
    List.drop_eq_getElem_cons hcp, List.map_cons, List.cons.injEq, hstart] at hcells
  exact hcells.1

/-- Advancing `start` over the first slot of the window. -/
theorem RingOk.advance (hlt : q.start < n) {item : α} (hitem : pub[tk.length]? = some item) :
    RingOk n { q with start := q.start + 1 } pub (tk ++ [item]) := by
  obtain ⟨hcp, rfl⟩ := List.getElem?_eq_some_iff.mp hitem
  have hlen : (tk ++ [pub[tk.length]]).length = tk.length + 1 := by simp
  have hroom := h.room
  refine ⟨h.size, h.two_le, h.fits, h.len, ?_, ?_, h.end_mod, h.end_le, ?_, hlt, ?_⟩
  · exact snoc_prefix h.taken_prefix hitem
  · rw [hlen]
    omega
  · rw [hlen]
    exact h.start_mod.add_right 1
  · have hcells := h.cells
    rw [show pub.length - tk.length = (pub.length - (tk.length + 1)) + 1 by omega,
      window_cons_cell, List.drop_eq_getElem_cons hcp, List.map_cons, List.cons.injEq] at hcells
    rw [hlen]
    exact hcells.2

/-- Resetting `start` from `maxSize`. -/
theorem RingOk.resetStart (heq : q.start = n) : RingOk n { q with start := 0 } pub tk := by
  have h0 : 0 ≡ tk.length [MOD n] := by
    have hn : 0 ≡ n [MOD n] := (Nat.modEq_zero_iff_dvd.mpr dvd_rfl).symm
    exact hn.trans (heq ▸ h.start_mod)
  exact ⟨h.size, h.two_le, h.fits, h.len, h.taken_prefix, h.room, h.end_mod, h.end_le, h0,
    Nat.zero_le _, h.cells⟩

end Ring

/-! ### The steps of the threads -/

/-- A fresh fullness test loads a value of `start` that stands for the count of items taken. -/
theorem RingOk.loadedStart {n : ℕ} {q : RequestQueue α} {pub tk : List α}
    (h : RingOk n q pub tk) (hfresh : ¬ (q.start = q.maxSize ∧ q.end_ + 1 = q.maxSize)) :
    LoadedStart n pub.length tk.length q.end_ q.start := by
  refine ⟨_, le_rfl, h.start_mod, h.room, ?_⟩
  rw [h.size] at hfresh
  rcases h.start_le.lt_or_eq with hlt | heq
  · exact Or.inl hlt
  · exact Or.inr ⟨heq, fun he => hfresh ⟨heq, he⟩⟩

theorem RingOk.loadedEnd {n : ℕ} {q : RequestQueue α} {pub tk : List α} (h : RingOk n q pub tk)
    {c : ℕ} (hc : c ≤ pub.length) : LoadedEnd n pub.length c q.end_ :=
  ⟨pub.length, hc, le_rfl, h.end_mod, h.end_le⟩

/-- What a step of the producer leaves of the invariant to check. -/
theorem Inv.producer_move {n : ℕ} {s : State α} (h : Inv n s) {q : RequestQueue α}
    {pc : ProducerPc α} {acc : List α} (hring : RingOk n q (acc ++ pc.inFlight) (taken s))
    (hpc : ProducerOk n (acc ++ pc.inFlight).length (taken s).length q.end_ q.items pc)
    (hstart : q.start = s.queue.start) (hpub : published s <+: acc ++ pc.inFlight) :
    Inv n { s with queue := q, producer := pc, accepted := acc } := by
  refine ⟨hring, hpc, ?_⟩
  have hc := h.consumer.mono hpub.length_le hpub
  rw [← hstart] at hc
  exact hc

/-- What a step of the consumer leaves of the invariant to check. -/
theorem Inv.consumer_move {n : ℕ} {s : State α} (h : Inv n s) {q : RequestQueue α}
    {pc : ConsumerPc α} {ret : List α} (hring : RingOk n q (published s) (ret ++ pc.inFlight))
    (hpc : ConsumerOk n (published s).length (ret ++ pc.inFlight).length q.start (published s) pc)
    (hend : q.end_ = s.queue.end_) (hitems : q.items = s.queue.items)
    (htaken : (taken s).length ≤ (ret ++ pc.inFlight).length) :
    Inv n { s with queue := q, consumer := pc, returned := ret } := by
  refine ⟨hring, ?_, hpc⟩
  have hp := h.producer.mono htaken
  rw [← hend, ← hitems] at hp
  exact hp

/-- The producer moves on without touching the ring. -/
theorem Inv.setProducer {n : ℕ} {s : State α} (h : Inv n s) {pc : ProducerPc α}
    (hin : pc.inFlight = s.producer.inFlight)
    (hpc : ProducerOk n (published s).length (taken s).length s.queue.end_ s.queue.items pc) :
    Inv n { s with producer := pc } := by
  have hpub : s.accepted ++ pc.inFlight = published s := by rw [hin]; rfl
  exact h.producer_move (hpub ▸ h.ring) (hpub ▸ hpc) rfl (hpub ▸ List.prefix_rfl)

/-- The consumer moves on without touching the ring. -/
theorem Inv.setConsumer {n : ℕ} {s : State α} (h : Inv n s) {pc : ConsumerPc α}
    (hin : pc.inFlight = s.consumer.inFlight)
    (hpc : ConsumerOk n (published s).length (taken s).length s.queue.start (published s) pc) :
    Inv n { s with consumer := pc } := by
  have htaken : s.returned ++ pc.inFlight = taken s := by rw [hin]; rfl
  exact h.consumer_move (htaken ▸ h.ring) (htaken ▸ hpc) rfl rfl (htaken ▸ le_rfl)

/-- **A step of the producer** keeps the invariant, if its fullness test is fresh. -/
theorem producer_inv {n : ℕ} {s s' : State α} {a : Access} (h : Inv n s)
    (hfresh : Fresh s (.producer a)) (hs : producerStep s a = some s') : Inv n s' := by
  have hr := h.ring
  have hpc := h.producer
  have hpub : published s = s.accepted ++ s.producer.inFlight := rfl
  have hm := hr.maxSize_lt
  cases producerMove_of_step hs with
  | loadStart hp =>
    rw [hp] at hpc
    refine h.setProducer (by rw [hp]; rfl) ⟨hpc.1, hpc.2.1, ?_⟩
    rintro st ⟨⟩
    exact hr.loadedStart fun hstale => hfresh ⟨rfl, hstale⟩
  | loadEnd hp =>
    rw [hp] at hpc
    refine h.setProducer (by rw [hp]; rfl) ⟨hpc.1, ?_, hpc.2.2⟩
    rintro e ⟨⟩
    rfl
  | full hp _ =>
    rw [hp] at hpc
    exact h.setProducer (by rw [hp]; rfl) hpc.1
  | @room item st e hp hroom =>
    rw [hp] at hpc
    obtain ⟨hlt, hen, hst⟩ := hpc
    obtain rfl := hen e rfl
    rw [hr.size, sizeAdd_eq (by omega)] at hroom
    exact h.setProducer (by rw [hp]; rfl)
      ⟨hlt, (hst st rfl).room hr.end_mod hlt hr.taken_le hroom⟩
  | slot hp =>
    rw [hp] at hpc
    exact h.setProducer (by rw [hp]; rfl) ⟨hpc.1, hpc.2, rfl⟩
  | write hp =>
    rw [hp] at hpc hpub
    obtain ⟨hlt, hroom, rfl⟩ := hpc
    refine h.producer_move (hpub ▸ hr.write hlt _) (hpub ▸ ⟨hlt, hroom, ?_⟩) rfl
      (hpub ▸ List.prefix_rfl)
    exact List.getElem?_set_self (by rw [hr.len]; exact hlt)
  | publish hp =>
    rw [hp] at hpc hpub
    simp only [ProducerPc.inFlight, List.append_nil] at hpub
    obtain ⟨hlt, hroom, hitem⟩ := hpc
    rw [sizeAdd_eq (by omega)]
    exact h.producer_move (hpub ▸ hr.publish hlt hroom hitem) trivial rfl
      (hpub ▸ List.prefix_append _ _)
  | wrap hp hwrap =>
    rw [hr.size] at hwrap
    exact h.setProducer (by rw [hp]; rfl) (le_antisymm hr.end_le hwrap)
  | accept hp hwrap =>
    rw [hp] at hpub
    rw [hr.size, not_le] at hwrap
    refine h.producer_move ?_ hwrap rfl ?_
    · simpa only [hpub, ProducerPc.inFlight, List.append_nil] using hr
    · simp only [hpub, ProducerPc.inFlight, List.append_nil, List.prefix_rfl]
  | reset hp =>
    rw [hp] at hpc hpub
    have hpos := hr.two_le
    have hring := hr.resetEnd hpc
    refine h.producer_move ?_ (by show 0 < n; omega) rfl ?_
    · simpa only [hpub, ProducerPc.inFlight, List.append_nil] using hring
    · simp only [hpub, ProducerPc.inFlight, List.append_nil, List.prefix_rfl]

/-- **A step of the consumer** keeps the invariant. -/
theorem consumer_inv {n : ℕ} {s s' : State α} {a : Access} (h : Inv n s)
    (hs : consumerStep s a = some s') : Inv n s' := by
  have hr := h.ring
  have hpc := h.consumer
  have htaken : taken s = s.returned ++ s.consumer.inFlight := rfl
  have hm := hr.maxSize_lt
  cases consumerMove_of_step hs with
  | countStart hp =>
    rw [hp] at hpc
    refine h.setConsumer (by rw [hp]; rfl) ⟨hpc.1, ?_, hpc.2.2⟩
    rintro st ⟨⟩
    rfl
  | countEnd hp =>
    rw [hp] at hpc
    refine h.setConsumer (by rw [hp]; rfl) ⟨hpc.1, hpc.2.1, ?_⟩
    rintro e ⟨⟩
    exact hr.loadedEnd hr.taken_le
  | zero hp _ =>
    rw [hp] at hpc
    exact h.setConsumer (by rw [hp]; rfl) hpc.1
  | @nonzero st e hp hne =>
    rw [hp] at hpc
    obtain ⟨hlt, hst, hen⟩ := hpc
    obtain rfl := hst st rfl
    rw [hr.size] at hne
    exact h.setConsumer (by rw [hp]; rfl)
      ⟨hlt, (hen e rfl).lt_of_count hr.start_mod hlt hr.room hm hne⟩
  | testStart hp =>
    rw [hp] at hpc
    refine h.setConsumer (by rw [hp]; rfl) ⟨hpc.1, hpc.2.1, ?_, hpc.2.2.2⟩
    rintro st ⟨⟩
    rfl
  | testEnd hp =>
    rw [hp] at hpc
    refine h.setConsumer (by rw [hp]; rfl) ⟨hpc.1, hpc.2.1, hpc.2.2.1, ?_⟩
    rintro e ⟨⟩
    exact hr.loadedEnd hpc.2.1
  | @throws st e hp heq =>
    rw [hp] at hpc
    obtain ⟨-, -, hst, hen⟩ := hpc
    obtain rfl := hst st rfl
    exact absurd heq ((hen e rfl).ne_start hr.start_mod hr.room)
  | nonempty hp _ =>
    rw [hp] at hpc
    exact h.setConsumer (by rw [hp]; rfl) ⟨hpc.1, hpc.2.1⟩
  | slot hp =>
    rw [hp] at hpc
    exact h.setConsumer (by rw [hp]; rfl) ⟨hpc.1, hpc.2, rfl⟩
  | @read i item hp hitem =>
    rw [hp] at hpc
    obtain ⟨hlt, hcp, rfl⟩ := hpc
    rw [hr.head hlt hcp] at hitem
    exact h.setConsumer (by rw [hp]; rfl)
      ⟨hlt, (List.getElem?_eq_getElem hcp).trans hitem⟩
  | advance hp =>
    rw [hp] at hpc htaken
    simp only [ConsumerPc.inFlight, List.append_nil] at htaken
    obtain ⟨hlt, hitem⟩ := hpc
    rw [sizeAdd_eq (by omega)]
    exact h.consumer_move (htaken ▸ hr.advance hlt hitem) trivial rfl rfl
      (htaken ▸ by simp [ConsumerPc.inFlight])
  | wrap hp hwrap =>
    rw [hr.size] at hwrap
    exact h.setConsumer (by rw [hp]; rfl) (le_antisymm hr.start_le hwrap)
  | finish hp hwrap =>
    rw [hp] at htaken
    rw [hr.size, not_le] at hwrap
    refine h.consumer_move ?_ hwrap rfl rfl ?_
    · simpa only [htaken, ConsumerPc.inFlight, List.append_nil] using hr
    · simp only [htaken, ConsumerPc.inFlight, List.append_nil, le_rfl]
  | reset hp =>
    rw [hp] at hpc htaken
    have hpos := hr.two_le
    have hring := hr.resetStart hpc
    refine h.consumer_move ?_ (by show 0 < n; omega) rfl rfl ?_
    · simpa only [htaken, ConsumerPc.inFlight, List.append_nil] using hring
    · simp only [htaken, ConsumerPc.inFlight, List.append_nil, le_rfl]

/-- **A step of either thread** keeps the invariant, if the fullness test is fresh. -/
theorem step_inv {n : ℕ} {s s' : State α} {l : Label α} (h : Inv n s) (hfresh : Fresh s l)
    (hs : step s l = some s') : Inv n s' := by
  cases l with
  | offer item =>
    have hpc := h.producer
    cases hp : s.producer with
    | idle =>
      simp only [step, hp] at hs
      obtain rfl := Option.some.inj hs
      rw [hp] at hpc
      exact h.setProducer (by rw [hp]; rfl) ⟨hpc, by rintro e ⟨⟩, by rintro e ⟨⟩⟩
    | _ => simp [step, hp] at hs
  | poll =>
    have hpc := h.consumer
    cases hp : s.consumer with
    | idle =>
      simp only [step, hp] at hs
      obtain rfl := Option.some.inj hs
      rw [hp] at hpc
      exact h.setConsumer (by rw [hp]; rfl) ⟨hpc, by rintro e ⟨⟩, by rintro e ⟨⟩⟩
    | ready =>
      simp only [step, hp] at hs
      obtain rfl := Option.some.inj hs
      rw [hp] at hpc
      exact h.setConsumer (by rw [hp]; rfl) ⟨hpc.1, hpc.2, by rintro e ⟨⟩, by rintro e ⟨⟩⟩
    | _ => simp [step, hp] at hs
  | producer a => exact producer_inv h hfresh hs
  | consumer a => exact consumer_inv h hs

/-! ### Runs -/

/-- The invariant at the start. -/
theorem init_inv [Inhabited α] {n : ℕ} (hn : 2 ≤ n) {q : RequestQueue α}
    (hq : Sequential.new n = some q) : Inv n (init q) := by
  obtain ⟨hrep, -⟩ := new_represents (by omega) hq
  obtain ⟨items, -, rfl⟩ := Option.map_eq_some_iff.mp hq
  refine ⟨⟨rfl, hn, hrep.fits, hrep.len, List.prefix_rfl, ?_, Nat.ModEq.refl _, Nat.zero_le _,
    Nat.ModEq.refl _, Nat.zero_le _, rfl⟩, ?_, ?_⟩
  · show 0 < 0 + n
    omega
  · show 0 < n
    omega
  · show 0 < n
    omega

/-- **Along a run** whose fullness tests are fresh the invariant holds. -/
theorem run_inv {n : ℕ} {s s' : State α} (h : Inv n s) (hrun : Runs step Fresh s s') : Inv n s' :=
  hrun.invariant (fun _ _ _ => step_inv) h

/-- The ring between calls, as the sequential model sees it. -/
theorem RingOk.represents {n : ℕ} {q : RequestQueue α} {pub tk : List α} (h : RingOk n q pub tk)
    (hstart : q.start < n) (hend : q.end_ < n) : Represents q (pub.drop tk.length) := by
  have hle := h.taken_le
  have hroom := h.room
  obtain ⟨hsize, -, hfits, hlen, -, -, hemod, -, hsmod, -, hcells⟩ := h
  subst hsize
  refine ⟨hfits, hlen, hstart, ?_, ?_, ?_⟩
  · rw [List.length_drop]
    omega
  · have hmod : q.end_ ≡ q.start + (pub.length - tk.length) [MOD q.maxSize] := by
      calc q.end_ ≡ pub.length [MOD q.maxSize] := hemod
        _ = tk.length + (pub.length - tk.length) := (Nat.add_sub_cancel' hle).symm
        _ ≡ q.start + (pub.length - tk.length) [MOD q.maxSize] := hsmod.symm.add_right _
    rw [List.length_drop, ← hmod, Nat.mod_eq_of_lt hend]
  · rw [List.length_drop, ← hcells]
    rw [← window_mod, ← window_mod _ _ tk.length, hsmod]

/-- **The invariant makes the queue exact.** -/
theorem Inv.exact {n : ℕ} {s : State α} (h : Inv n s) : Exact s := by
  refine ⟨(List.prefix_append _ _).trans h.ring.taken_prefix, fun hp hc => ?_⟩
  have hend : s.queue.end_ < n := by
    have := h.producer
    rw [hp] at this
    exact this
  have hstart : s.queue.start < n := by
    have := h.consumer
    rcases hc with hc | hc <;> rw [hc] at this
    exacts [this, this.1]
  have hpub : published s = s.accepted := by simp [published, hp, ProducerPc.inFlight]
  have htaken : taken s = s.returned := by
    rcases hc with hc | hc <;> simp [taken, hc, ConsumerPc.inFlight]
  have hle := h.ring.taken_le
  refine ⟨_, count_run (h.ring.represents hstart hend), ?_⟩
  rw [List.length_drop, hpub, htaken]
  rw [hpub, htaken] at hle
  omega

/-- **The invariant keeps `dequeue` from throwing.** -/
theorem Inv.not_thrown {n : ℕ} {s : State α} (h : Inv n s) : s.consumer ≠ .thrown := by
  intro hc
  have := h.consumer
  rw [hc] at this
  exact this

/-! ### What a stale fullness test leads to -/

/-- The `dequeue` under way ends, with its reset of `start`. -/
theorem dequeue_ends {s : State α} {item : α}
    (hc : s.consumer = .check item ∨ s.consumer = .reset item)
    (hstart : s.queue.start = s.queue.maxSize) :
    Reach step s { s with
      queue := { s.queue with start := 0 }
      consumer := .idle
      returned := s.returned ++ [item] } := by
  rcases hc with hc | hc
  · exact reach_of_foldlM [.consumer .next, .consumer .next]
      (by simp [step, consumerStep, hc, hstart])
  · exact reach_of_foldlM [.consumer .next] (by simp [step, consumerStep, hc])

/-- The `enqueue` under way passes its fullness test, and ends with its reset of `end`. -/
theorem enqueue_ends {s : State α} {item : α} {e : Option ℕ}
    (hp : s.producer = .test item (some s.queue.maxSize) e)
    (he : ∀ e' ∈ e, e' = s.queue.end_) (hlast : s.queue.end_ + 1 = s.queue.maxSize)
    (hsize : s.queue.maxSize < sizeMod) :
    Reach step s { s with
      queue := { s.queue with items := s.queue.items.set s.queue.end_ item, end_ := 0 }
      producer := .idle
      accepted := s.accepted ++ [item] } := by
  have hadd : sizeAdd s.queue.end_ 1 = s.queue.maxSize := by rw [sizeAdd_eq (by omega), hlast]
  have hpos : s.queue.maxSize ≠ 0 := by omega
  -- the test compares `maxSize` with `0`
  have hwrite : Reach step
      { s with producer := .test item (some s.queue.maxSize) (some s.queue.end_) }
      { s with
        queue := { s.queue with items := s.queue.items.set s.queue.end_ item }
        producer := .publish item } :=
    reach_of_foldlM (List.replicate 3 (.producer .next))
      (by simp [List.replicate, step, producerStep, hadd, hpos])
  have hreset : Reach step
      { s with
        queue := { s.queue with items := s.queue.items.set s.queue.end_ item }
        producer := .publish item }
      { s with
        queue := { s.queue with items := s.queue.items.set s.queue.end_ item, end_ := 0 }
        producer := .idle
        accepted := s.accepted ++ [item] } :=
    reach_of_foldlM (List.replicate 3 (.producer .next))
      (by simp [List.replicate, step, producerStep, hadd])
  have hrest := hwrite.trans hreset
  cases e with
  | none =>
    refine (reach_of_foldlM [.producer .loadEnd] ?_).trans hrest
    simp [step, producerStep, hp]
  | some e' =>
    obtain rfl := he e' rfl
    rw [← hp] at hrest
    exact hrest

/-- A `count` that finds the ring with all but one slot in use. -/
theorem count_nonzero {s : State α} (hc : s.consumer = .idle) (hstart : s.queue.start = 0)
    (hlast : s.queue.end_ + 1 = s.queue.maxSize) (htwo : 2 ≤ s.queue.maxSize)
    (hsize : 2 * s.queue.maxSize < sizeMod) : Reach step s { s with consumer := .ready } := by
  have hloads : Reach step s { s with consumer := .count (some 0) (some s.queue.end_) } :=
    reach_of_foldlM [.poll, .consumer .loadStart, .consumer .loadEnd]
      (by simp [step, consumerStep, hc, hstart])
  have hne : sizeSub (sizeAdd s.queue.end_ s.queue.maxSize) 0 % s.queue.maxSize ≠ 0 := by
    rw [sizeAdd_eq (by omega), sizeSub_eq (Nat.zero_le _) (by omega), Nat.sub_zero,
      Nat.add_mod_right, Nat.mod_eq_of_lt (by omega)]
    omega
  have hnext : step { s with consumer := .count (some 0) (some s.queue.end_) } (.consumer .next) =
      some { s with consumer := .ready } := by
    simp only [step, consumerStep]
    rw [if_neg hne]
  exact hloads.snoc trivial hnext

/-- A `dequeue` that finds the indices equal. -/
theorem dequeue_throws {s : State α} (hc : s.consumer = .ready)
    (heq : s.queue.start = s.queue.end_) : Reach step s { s with consumer := .thrown } :=
  reach_of_foldlM [.poll, .consumer .loadStart, .consumer .loadEnd, .consumer .next]
    (by simp [step, consumerStep, hc, heq])

/-- The step of a stale fullness test. -/
structure StaleAt (n : ℕ) (s s₁ : State α) (item item' : α) (e : Option ℕ) : Prop where
  inv : Inv n s
  producer : s.producer = .test item none e
  loaded : ∀ e' ∈ e, e' = s.queue.end_
  consumer : s.consumer = .check item' ∨ s.consumer = .reset item'
  start_eq : s.queue.start = s.queue.maxSize
  last : s.queue.end_ + 1 = s.queue.maxSize
  step_eq : s₁ = { s with producer := .test item (some s.queue.maxSize) e }

/-- A stale test is made while a `dequeue` is before its reset of `start`. -/
theorem staleAt_of_step {n : ℕ} {s s₁ : State α} {l : Label α} (h : Inv n s)
    (hstale : StaleTest s l) (hs : step s l = some s₁) :
    ∃ item item' e, StaleAt n s s₁ item item' e := by
  obtain ⟨rfl, hstart, hlast⟩ := hstale
  have hsize := h.ring.size
  cases producerMove_of_step hs with
  | @loadStart item e hp =>
    have hloaded : ∀ e' ∈ e, e' = s.queue.end_ := by
      have := h.producer
      rw [hp] at this
      exact this.2.1
    have hcons : ∃ item', s.consumer = .check item' ∨ s.consumer = .reset item' := by
      have hpc := h.consumer
      cases hc : s.consumer with
      | check item' => exact ⟨item', Or.inl rfl⟩
      | reset item' => exact ⟨item', Or.inr rfl⟩
      | thrown => exact absurd hc h.not_thrown
      | idle =>
        rw [hc] at hpc
        have : s.queue.start < n := hpc
        omega
      | _ =>
        rw [hc] at hpc
        have := hpc.1
        omega
    obtain ⟨item', hcons⟩ := hcons
    exact ⟨item, item', e, h, hp, hloaded, hcons, hstart, hlast, by rw [hstart]⟩

/-- The state when the two calls under way have ended: `start` and `end_` are `0`. -/
def ended (s : State α) (item item' : α) : State α :=
  { queue := { s.queue with start := 0, end_ := 0, items := s.queue.items.set s.queue.end_ item }
    producer := .idle
    consumer := .idle
    accepted := s.accepted ++ [item]
    returned := s.returned ++ [item'] }

/-- The state when `dequeue` has ended and `enqueue` still holds the stale `start`. -/
def held (s : State α) (item item' : α) (e : Option ℕ) : State α :=
  { s with
    queue := { s.queue with start := 0 }
    producer := .test item (some s.queue.maxSize) e
    consumer := .idle
    returned := s.returned ++ [item'] }

section Stale
variable {n : ℕ} {s s₁ : State α} {item item' : α} {e : Option ℕ}
  (h : StaleAt n s s₁ item item' e)
include h

theorem StaleAt.lt_sizeMod : 2 * s.queue.maxSize < sizeMod := by
  rw [h.inv.ring.size]
  exact h.inv.ring.maxSize_lt

/-- At a stale test the ring is full. -/
theorem StaleAt.full : s.accepted.length = s.returned.length + s.queue.maxSize := by
  have hring := h.inv.ring
  have hpub : published s = s.accepted := by simp [published, h.producer, ProducerPc.inFlight]
  have htaken : (taken s).length = s.returned.length + 1 := by
    rcases h.consumer with hc | hc <;> simp [taken, hc, ConsumerPc.inFlight]
  have hd := distance_eq hring.start_mod hring.end_mod hring.start_le hring.taken_le hring.room
  have hlt : s.queue.end_ < n := by
    rw [← hring.size, ← h.last]
    exact Nat.lt_succ_self _
  rw [h.start_eq, hring.size, Nat.add_sub_cancel, Nat.mod_eq_of_lt hlt, hpub, htaken] at hd
  have hlast := h.last
  have htwo := hring.two_le
  rw [hring.size] at hlast ⊢
  omega

theorem StaleAt.holds : Reach step s₁ (held s item item' e) := by
  rw [h.step_eq]
  exact dequeue_ends h.consumer h.start_eq

/-- `enqueue` ends from there, whatever the consumer has done in between. -/
theorem StaleAt.enqueue_ends {pc : ConsumerPc α} :
    Reach step { held s item item' e with consumer := pc }
      { ended s item item' with consumer := pc } := by
  have hsize : s.queue.maxSize < sizeMod := by
    have := h.lt_sizeMod
    omega
  exact Exactness.enqueue_ends rfl h.loaded h.last hsize

/-- **The two calls end** with `maxSize` items in the ring and the indices equal. -/
theorem StaleAt.ends : Reach step s₁ (ended s item item') :=
  h.holds.trans h.enqueue_ends

/-- In that state `count` misses the items in the ring. -/
theorem StaleAt.not_exact : ¬ Exact (ended s item item') := by
  rintro ⟨-, hcount⟩
  obtain ⟨k, hk, hlen⟩ := hcount rfl (Or.inl rfl)
  have htwo := h.inv.ring.two_le
  have hfull := h.full
  have hsize := h.inv.ring.size
  have hadd : sizeAdd 0 s.queue.maxSize = s.queue.maxSize := by
    rw [sizeAdd_eq (by have := h.lt_sizeMod; omega), Nat.zero_add]
  have hsub : sizeSub s.queue.maxSize 0 = s.queue.maxSize :=
    sizeSub_eq (Nat.zero_le _) (by have := h.lt_sizeMod; omega)
  have hk0 : k = 0 := by
    simp only [count, EStateM.run_bind, EStateM.run_get, ended] at hk
    rw [hadd, hsub, rem_run (by omega), Nat.mod_self] at hk
    exact (EStateM.Result.ok.inj hk).1.symm
  simp only [ended, List.length_append, List.length_singleton] at hlen
  omega

/-- **The guarded `dequeue` throws** when `enqueue` ends between `count` and `dequeue`. -/
theorem StaleAt.throws : ∃ s', Reach step s₁ s' ∧ s'.consumer = .thrown := by
  have hm := h.lt_sizeMod
  have htwo := h.inv.ring.two_le
  rw [← h.inv.ring.size] at htwo
  have hready : Reach step (held s item item' e) { held s item item' e with consumer := .ready } :=
    count_nonzero rfl rfl h.last htwo hm
  have hthrow : Reach step { ended s item item' with consumer := .ready }
      { ended s item item' with consumer := .thrown } := dequeue_throws rfl rfl
  exact ⟨_, (h.holds.trans hready).trans (h.enqueue_ends.trans hthrow), rfl⟩

end Stale

/-! ### The results -/

/-- **The queue is exact while the fullness test is fresh**: in a run without a stale fullness test
what `dequeue` returned is a prefix of what `enqueue` accepted, and between calls `count` is
the number of accepted items not yet returned. From every stale test on, the queue can become
inexact. -/
theorem exact_iff_fresh [Inhabited α] {n : ℕ} (hn : 2 ≤ n) {q : RequestQueue α}
    (hq : Sequential.new n = some q) :
    (∀ s, Runs step Fresh (init q) s → Exact s) ∧
    ∀ s l s₁, Runs step Fresh (init q) s → StaleTest s l → step s l = some s₁ →
      ∃ s', Reach step s₁ s' ∧ ¬ Exact s' := by
  have hinv := init_inv hn hq
  refine ⟨fun s hrun => (run_inv hinv hrun).exact, fun s l s₁ hrun hstale hs => ?_⟩
  obtain ⟨item, item', e, h⟩ := staleAt_of_step (run_inv hinv hrun) hstale hs
  exact ⟨_, h.ends, h.not_exact⟩

theorem exact_iff_fresh_two :
    (∀ s, Runs step Fresh (init { maxSize := 2, items := [0, 0], start := 0, end_ := 0 }) s →
      Exact s) ∧
    ∀ (s : State ℕ) l s₁,
      Runs step Fresh (init { maxSize := 2, items := [0, 0], start := 0, end_ := 0 }) s →
      StaleTest s l → step s l = some s₁ → ∃ s', Reach step s₁ s' ∧ ¬ Exact s' :=
  exact_iff_fresh (n := 2) (by decide) (by decide)

/-- The steps of a whole `enqueue`. -/
def enqueueSteps (item : ℕ) (wraps : Bool) : List (Label ℕ) :=
  [.offer item, .producer .loadStart, .producer .loadEnd] ++
    List.replicate (if wraps then 6 else 5) (.producer .next)

/-- The steps of a call of the consumer up to its comparison. -/
def callSteps : List (Label ℕ) :=
  [.poll, .consumer .loadStart, .consumer .loadEnd, .consumer .next]

/-- The steps of a `count` and of the `dequeue` after it, but for a reset of `start`. -/
def consumeSteps : List (Label ℕ) :=
  callSteps ++ callSteps ++ List.replicate 4 (.consumer .next)

/-- Two slots; the third item goes in while the second is being taken out, before the reset of
`start`, and a fourth is tested against the old `start`. -/
def staleSteps : List (Label ℕ) :=
  enqueueSteps 1 false ++ consumeSteps ++ enqueueSteps 2 true ++ consumeSteps ++
    enqueueSteps 3 false ++ [.offer 4, .producer .loadStart, .producer .loadEnd]

/-- The fourth item is put in, `dequeue` ends, and a fifth item goes through the queue. -/
def lossSteps : List (Label ℕ) :=
  staleSteps ++ List.replicate 6 (.producer .next) ++ [.consumer .next] ++
    enqueueSteps 5 false ++ consumeSteps

/-- `dequeue` ends, and the fourth item is put in between the next `count` and `dequeue`. -/
def throwSteps : List (Label ℕ) :=
  staleSteps ++ [.consumer .next] ++ callSteps ++ List.replicate 6 (.producer .next) ++ callSteps

/-- The items `3` and `4` are accepted and lost. -/
theorem queue_loses_items : ¬ ∀ (n : ℕ) (q : RequestQueue ℕ) (s : State ℕ), 2 ≤ n →
    Sequential.new n = some q → Reach step (init q) s → Exact s := by
  intro h
  let s : State ℕ :=
    { queue := { maxSize := 2, items := [5, 4], start := 1, end_ := 1 }
      producer := .idle
      consumer := .idle
      accepted := [1, 2, 3, 4, 5]
      returned := [1, 2, 5] }
  have hs : lossSteps.foldlM step
      (init { maxSize := 2, items := [0, 0], start := 0, end_ := 0 }) = some s := by
    decide
  have hexact := h 2 _ _ le_rfl rfl (reach_of_foldlM _ hs)
  exact absurd hexact.1 (by decide)

/-- **A `dequeue` that follows a non-zero `count` does not throw while the fullness test is
fresh.** From every stale test on, it can throw. -/
theorem guarded_dequeue_iff_fresh [Inhabited α] {n : ℕ} (hn : 2 ≤ n) {q : RequestQueue α}
    (hq : Sequential.new n = some q) :
    (∀ s, Runs step Fresh (init q) s → s.consumer ≠ .thrown) ∧
    ∀ s l s₁, Runs step Fresh (init q) s → StaleTest s l → step s l = some s₁ →
      ∃ s', Reach step s₁ s' ∧ s'.consumer = .thrown := by
  have hinv := init_inv hn hq
  refine ⟨fun s hrun => (run_inv hinv hrun).not_thrown, fun s l s₁ hrun hstale hs => ?_⟩
  obtain ⟨item, item', e, h⟩ := staleAt_of_step (run_inv hinv hrun) hstale hs
  exact h.throws

theorem guarded_dequeue_iff_fresh_two :
    (∀ s, Runs step Fresh (init { maxSize := 2, items := [0, 0], start := 0, end_ := 0 }) s →
      s.consumer ≠ .thrown) ∧
    ∀ (s : State ℕ) l s₁,
      Runs step Fresh (init { maxSize := 2, items := [0, 0], start := 0, end_ := 0 }) s →
      StaleTest s l → step s l = some s₁ → ∃ s', Reach step s₁ s' ∧ s'.consumer = .thrown :=
  guarded_dequeue_iff_fresh (n := 2) (by decide) (by decide)

/-- The item `4` passes the fullness test against the old `start` and is put in between `count` and
`dequeue`. -/
theorem guarded_dequeue_throws : ¬ ∀ (n : ℕ) (q : RequestQueue ℕ) (s : State ℕ), 2 ≤ n →
    Sequential.new n = some q → Reach step (init q) s → s.consumer ≠ .thrown := by
  intro h
  let s : State ℕ :=
    { queue := { maxSize := 2, items := [3, 4], start := 0, end_ := 0 }
      producer := .idle
      consumer := .thrown
      accepted := [1, 2, 3, 4]
      returned := [1, 2] }
  have hs : throwSteps.foldlM step
      (init { maxSize := 2, items := [0, 0], start := 0, end_ := 0 }) = some s := by
    decide
  exact h 2 _ _ le_rfl rfl (reach_of_foldlM _ hs) rfl

end CoapServer.Queue.Exactness
