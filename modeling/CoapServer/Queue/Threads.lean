import CoapServer.Queue.Sequential

/-! # The queue between two threads

One thread calls `enqueue` (the server thread), another runs the loop of `_requestQueueThread`:
`count`, and `dequeue` while it is not zero. `start` and `end_` are atomic: each load, store and
increment of them, and each read or write of a slot, is one step of the thread that makes it, and
the steps of the two threads interleave in any order. The two loads of a comparison come in either
order.

`accepted` and `returned` record what the callers see: the items whose `enqueue` returned `0`, and
the items `dequeue` returned. A call that is not interleaved does what the sequential model says
(`enqueue_alone`, `dequeue_alone`). -/

namespace CoapServer.Queue.Threads

open CoapServer.Basic CoapServer.Lib.Run CoapServer.Queue.Sequential

variable {α : Type}

/-- Where the producer is in `enqueue(item)`. -/
inductive ProducerPc (α : Type) where
  /-- between calls -/
  | idle
  /-- in the test `start == (end + 1) % maxSize`, with the loads made so far -/
  | test (item : α) (start end_ : Option ℕ)
  /-- before the load of `end` in `items[end] = item` -/
  | slot (item : α)
  /-- before the write of `items[i]` -/
  | write (item : α) (i : ℕ)
  /-- before `end++` -/
  | publish (item : α)
  /-- before the load of `end` in `end >= maxSize` -/
  | check (item : α)
  /-- before `end = 0` -/
  | reset (item : α)
  deriving DecidableEq

/-- Where the consumer is in its loop. -/
inductive ConsumerPc (α : Type) where
  /-- before `count` -/
  | idle
  /-- in `count`, with the loads made so far -/
  | count (start end_ : Option ℕ)
  /-- `count` returned non-zero, before `dequeue` -/
  | ready
  /-- in the test `start == end` of `dequeue`, with the loads made so far -/
  | test (start end_ : Option ℕ)
  /-- before the load of `start` in `item = items[start]` -/
  | slot
  /-- before the read of `items[i]` -/
  | read (i : ℕ)
  /-- before `start++` -/
  | advance (item : α)
  /-- before the load of `start` in `start >= maxSize` -/
  | check (item : α)
  /-- before `start = 0` -/
  | reset (item : α)
  /-- `dequeue` threw -/
  | thrown
  deriving DecidableEq

/-- **The state** of the queue and the two threads. -/
structure State (α : Type) where
  queue : RequestQueue α
  producer : ProducerPc α
  consumer : ConsumerPc α
  accepted : List α
  returned : List α
  deriving DecidableEq

/-- What a thread does next: a load of one of the indices that a comparison needs, or the step its
place in the code determines. -/
inductive Access where
  | loadStart
  | loadEnd
  | next
  deriving DecidableEq

/-- A step of one of the threads. -/
inductive Label (α : Type) where
  /-- the producer calls `enqueue(item)` -/
  | offer (item : α)
  /-- the consumer makes the next call of its loop, `count` or `dequeue` -/
  | poll
  | producer (a : Access)
  | consumer (a : Access)
  deriving DecidableEq

/-- The producer's next access in `enqueue`. -/
def producerStep (s : State α) (a : Access) : Option (State α) :=
  match s.producer, a with
  | .test item none e, .loadStart =>
    some { s with producer := .test item (some s.queue.start) e }
  | .test item st none, .loadEnd =>
    some { s with producer := .test item st (some s.queue.end_) }
  | .test item (some st) (some e), .next =>
    if st = sizeAdd e 1 % s.queue.maxSize then some { s with producer := .idle }
    else some { s with producer := .slot item }
  | .slot item, .next => some { s with producer := .write item s.queue.end_ }
  | .write item i, .next =>
    some { s with
      queue := { s.queue with items := s.queue.items.set i item }
      producer := .publish item }
  | .publish item, .next =>
    some { s with
      queue := { s.queue with end_ := sizeAdd s.queue.end_ 1 }
      producer := .check item }
  | .check item, .next =>
    if s.queue.maxSize ≤ s.queue.end_ then some { s with producer := .reset item }
    else some { s with producer := .idle, accepted := s.accepted ++ [item] }
  | .reset item, .next =>
    some { s with
      queue := { s.queue with end_ := 0 }
      producer := .idle
      accepted := s.accepted ++ [item] }
  | _, _ => none

/-- The consumer's next access in `count` or `dequeue`. -/
def consumerStep (s : State α) (a : Access) : Option (State α) :=
  match s.consumer, a with
  | .count none e, .loadStart => some { s with consumer := .count (some s.queue.start) e }
  | .count st none, .loadEnd => some { s with consumer := .count st (some s.queue.end_) }
  | .count (some st) (some e), .next =>
    if sizeSub (sizeAdd e s.queue.maxSize) st % s.queue.maxSize = 0 then
      some { s with consumer := .idle }
    else some { s with consumer := .ready }
  | .test none e, .loadStart => some { s with consumer := .test (some s.queue.start) e }
  | .test st none, .loadEnd => some { s with consumer := .test st (some s.queue.end_) }
  | .test (some st) (some e), .next =>
    if st = e then some { s with consumer := .thrown } else some { s with consumer := .slot }
  | .slot, .next => some { s with consumer := .read s.queue.start }
  | .read i, .next => s.queue.items[i]?.map fun item => { s with consumer := .advance item }
  | .advance item, .next =>
    some { s with
      queue := { s.queue with start := sizeAdd s.queue.start 1 }
      consumer := .check item }
  | .check item, .next =>
    if s.queue.maxSize ≤ s.queue.start then some { s with consumer := .reset item }
    else some { s with consumer := .idle, returned := s.returned ++ [item] }
  | .reset item, .next =>
    some { s with
      queue := { s.queue with start := 0 }
      consumer := .idle
      returned := s.returned ++ [item] }
  | _, _ => none

/-- **The step** of the two threads. -/
def step (s : State α) : Label α → Option (State α)
  | .offer item =>
    match s.producer with
    | .idle => some { s with producer := .test item none none }
    | _ => none
  | .poll =>
    match s.consumer with
    | .idle => some { s with consumer := .count none none }
    | .ready => some { s with consumer := .test none none }
    | _ => none
  | .producer a => producerStep s a
  | .consumer a => consumerStep s a

/-- **What the producer can do.** -/
inductive ProducerMove (s : State α) : Access → State α → Prop where
  | loadStart {item : α} {e : Option ℕ} (hp : s.producer = .test item none e) :
      ProducerMove s .loadStart { s with producer := .test item (some s.queue.start) e }
  | loadEnd {item : α} {st : Option ℕ} (hp : s.producer = .test item st none) :
      ProducerMove s .loadEnd { s with producer := .test item st (some s.queue.end_) }
  | full {item : α} {st e : ℕ} (hp : s.producer = .test item (some st) (some e))
      (hfull : st = sizeAdd e 1 % s.queue.maxSize) :
      ProducerMove s .next { s with producer := .idle }
  | room {item : α} {st e : ℕ} (hp : s.producer = .test item (some st) (some e))
      (hroom : st ≠ sizeAdd e 1 % s.queue.maxSize) :
      ProducerMove s .next { s with producer := .slot item }
  | slot {item : α} (hp : s.producer = .slot item) :
      ProducerMove s .next { s with producer := .write item s.queue.end_ }
  | write {item : α} {i : ℕ} (hp : s.producer = .write item i) :
      ProducerMove s .next { s with
        queue := { s.queue with items := s.queue.items.set i item }
        producer := .publish item }
  | publish {item : α} (hp : s.producer = .publish item) :
      ProducerMove s .next { s with
        queue := { s.queue with end_ := sizeAdd s.queue.end_ 1 }
        producer := .check item }
  | wrap {item : α} (hp : s.producer = .check item) (hwrap : s.queue.maxSize ≤ s.queue.end_) :
      ProducerMove s .next { s with producer := .reset item }
  | accept {item : α} (hp : s.producer = .check item) (hwrap : ¬ s.queue.maxSize ≤ s.queue.end_) :
      ProducerMove s .next { s with producer := .idle, accepted := s.accepted ++ [item] }
  | reset {item : α} (hp : s.producer = .reset item) :
      ProducerMove s .next { s with
        queue := { s.queue with end_ := 0 }
        producer := .idle
        accepted := s.accepted ++ [item] }

theorem producerMove_of_step {s s' : State α} {a : Access} (h : producerStep s a = some s') :
    ProducerMove s a s' := by
  unfold producerStep at h
  split at h
  · cases h; exact .loadStart ‹_›
  · cases h; exact .loadEnd ‹_›
  · split at h
    · cases h; exact .full ‹_› ‹_›
    · cases h; exact .room ‹_› ‹_›
  · cases h; exact .slot ‹_›
  · cases h; exact .write ‹_›
  · cases h; exact .publish ‹_›
  · split at h
    · cases h; exact .wrap ‹_› ‹_›
    · cases h; exact .accept ‹_› ‹_›
  · cases h; exact .reset ‹_›
  · cases h

/-- **What the consumer can do.** -/
inductive ConsumerMove (s : State α) : Access → State α → Prop where
  | countStart {e : Option ℕ} (hp : s.consumer = .count none e) :
      ConsumerMove s .loadStart { s with consumer := .count (some s.queue.start) e }
  | countEnd {st : Option ℕ} (hp : s.consumer = .count st none) :
      ConsumerMove s .loadEnd { s with consumer := .count st (some s.queue.end_) }
  | zero {st e : ℕ} (hp : s.consumer = .count (some st) (some e))
      (hzero : sizeSub (sizeAdd e s.queue.maxSize) st % s.queue.maxSize = 0) :
      ConsumerMove s .next { s with consumer := .idle }
  | nonzero {st e : ℕ} (hp : s.consumer = .count (some st) (some e))
      (hne : sizeSub (sizeAdd e s.queue.maxSize) st % s.queue.maxSize ≠ 0) :
      ConsumerMove s .next { s with consumer := .ready }
  | testStart {e : Option ℕ} (hp : s.consumer = .test none e) :
      ConsumerMove s .loadStart { s with consumer := .test (some s.queue.start) e }
  | testEnd {st : Option ℕ} (hp : s.consumer = .test st none) :
      ConsumerMove s .loadEnd { s with consumer := .test st (some s.queue.end_) }
  | throws {st e : ℕ} (hp : s.consumer = .test (some st) (some e)) (heq : st = e) :
      ConsumerMove s .next { s with consumer := .thrown }
  | nonempty {st e : ℕ} (hp : s.consumer = .test (some st) (some e)) (hne : st ≠ e) :
      ConsumerMove s .next { s with consumer := .slot }
  | slot (hp : s.consumer = .slot) :
      ConsumerMove s .next { s with consumer := .read s.queue.start }
  | read {i : ℕ} {item : α} (hp : s.consumer = .read i) (hitem : s.queue.items[i]? = some item) :
      ConsumerMove s .next { s with consumer := .advance item }
  | advance {item : α} (hp : s.consumer = .advance item) :
      ConsumerMove s .next { s with
        queue := { s.queue with start := sizeAdd s.queue.start 1 }
        consumer := .check item }
  | wrap {item : α} (hp : s.consumer = .check item) (hwrap : s.queue.maxSize ≤ s.queue.start) :
      ConsumerMove s .next { s with consumer := .reset item }
  | finish {item : α} (hp : s.consumer = .check item)
      (hwrap : ¬ s.queue.maxSize ≤ s.queue.start) :
      ConsumerMove s .next { s with consumer := .idle, returned := s.returned ++ [item] }
  | reset {item : α} (hp : s.consumer = .reset item) :
      ConsumerMove s .next { s with
        queue := { s.queue with start := 0 }
        consumer := .idle
        returned := s.returned ++ [item] }

theorem consumerMove_of_step {s s' : State α} {a : Access} (h : consumerStep s a = some s') :
    ConsumerMove s a s' := by
  unfold consumerStep at h
  split at h
  · cases h; exact .countStart ‹_›
  · cases h; exact .countEnd ‹_›
  · split at h
    · cases h; exact .zero ‹_› ‹_›
    · cases h; exact .nonzero ‹_› ‹_›
  · cases h; exact .testStart ‹_›
  · cases h; exact .testEnd ‹_›
  · split at h
    · cases h; exact .throws ‹_› ‹_›
    · cases h; exact .nonempty ‹_› ‹_›
  · cases h; exact .slot ‹_›
  · obtain ⟨item, hitem, rfl⟩ := Option.map_eq_some_iff.mp h
    exact .read ‹_› hitem
  · cases h; exact .advance ‹_›
  · split at h
    · cases h; exact .wrap ‹_› ‹_›
    · cases h; exact .finish ‹_› ‹_›
  · cases h; exact .reset ‹_›
  · cases h

/-! ### What the callers see -/

/-- The two threads before their first call. -/
def init (q : RequestQueue α) : State α :=
  { queue := q, producer := .idle, consumer := .idle, accepted := [], returned := [] }

/-- The item that the running `enqueue` has put into the ring: it returns `0`. -/
def ProducerPc.inFlight : ProducerPc α → List α
  | .check item | .reset item => [item]
  | _ => []

/-- The item that the running `dequeue` has taken from the ring. -/
def ConsumerPc.inFlight : ConsumerPc α → List α
  | .check item | .reset item => [item]
  | _ => []

/-- The items put into the ring so far. -/
def published (s : State α) : List α := s.accepted ++ s.producer.inFlight

/-- The items taken from the ring so far. -/
def taken (s : State α) : List α := s.returned ++ s.consumer.inFlight

/-- **The queue is exact**: what `dequeue` returned is a prefix of what `enqueue` accepted (counting
the item of a call past its increment of `end`, which returns `0`), and between calls `count`
is the number of accepted items not yet returned. -/
def Exact (s : State α) : Prop :=
  s.returned <+: published s ∧
  (s.producer = .idle → (s.consumer = .idle ∨ s.consumer = .ready) →
    ∃ k, count.run s.queue = .ok k s.queue ∧ k + s.returned.length = s.accepted.length)

/-- **The fullness test reads an index that is not reset yet**: `dequeue` is between its increment
of `start` to `maxSize` and its reset to `0`, and `end` is at the last slot. -/
def StaleTest (s : State α) (l : Label α) : Prop :=
  l = .producer .loadStart ∧ s.queue.start = s.queue.maxSize ∧
    s.queue.end_ + 1 = s.queue.maxSize

/-- The steps without a stale fullness test. -/
def Fresh (s : State α) (l : Label α) : Prop := ¬ StaleTest s l

instance [DecidableEq α] (s : State α) (l : Label α) : Decidable (StaleTest s l) := by
  unfold StaleTest
  infer_instance

instance [DecidableEq α] (s : State α) (l : Label α) : Decidable (Fresh s l) := by
  unfold Fresh
  infer_instance

/-! ### One thread alone -/

/-- **A call of `enqueue` without interleaving** does what the sequential `enqueue` does. -/
theorem enqueue_alone {s : State α} {L : List α} (h : Represents s.queue L)
    (hp : s.producer = .idle) (item : α) : ∃ r q, (enqueue item).run s.queue = .ok r q ∧
      Reach step s { s with
        queue := q, accepted := s.accepted ++ if r = 0 then [item] else [] } := by
  have hadd : sizeAdd s.queue.end_ 1 = s.queue.end_ + 1 :=
    sizeAdd_eq (by have := h.maxSize_lt; have := h.end_lt; omega)
  have hloads : Reach step s
      { s with producer := .test item (some s.queue.start) (some s.queue.end_) } :=
    reach_of_foldlM [.offer item, .producer .loadStart, .producer .loadEnd]
      (by simp [step, producerStep, hp])
  rw [enqueue_run h]
  by_cases hfull : s.queue.start = (s.queue.end_ + 1) % s.queue.maxSize
  · rw [if_pos hfull]
    refine ⟨_, _, rfl, hloads.trans (reach_of_foldlM [.producer .next] ?_)⟩
    simp [step, producerStep, hadd, hfull, hp]
  · have hwrite : Reach step { s with producer := .test item (some s.queue.start) (some s.queue.end_) }
        { s with
          queue := { s.queue with items := s.queue.items.set s.queue.end_ item }
          producer := .publish item } :=
      reach_of_foldlM (List.replicate 3 (.producer .next))
        (by simp [List.replicate, step, producerStep, hadd, hfull])
    rw [if_neg hfull]
    refine ⟨_, _, rfl, (hloads.trans hwrite).trans ?_⟩
    by_cases hwrap : s.queue.maxSize ≤ s.queue.end_ + 1
    · refine reach_of_foldlM (List.replicate 3 (.producer .next)) ?_
      simp [List.replicate, step, producerStep, hadd, hwrap, hp]
    · refine reach_of_foldlM (List.replicate 2 (.producer .next)) ?_
      simp [List.replicate, step, producerStep, hadd, hwrap, hp]

/-- **A call of `dequeue` without interleaving** does what the sequential `dequeue` does. -/
theorem dequeue_alone {s : State α} {item : α} {L : List α}
    (h : Represents s.queue (item :: L)) (hc : s.consumer = .ready) :
    ∃ q, dequeue.run s.queue = .ok item q ∧
      Reach step s { s with
        queue := q, consumer := .idle, returned := s.returned ++ [item] } := by
  have hadd : sizeAdd s.queue.start 1 = s.queue.start + 1 :=
    sizeAdd_eq (by have := h.maxSize_lt; have := h.start_lt; omega)
  have hitem : s.queue.items[s.queue.start]? = some item := h.cons_cells.1
  have hne : ¬ s.queue.start = s.queue.end_ := h.empty_iff.not.mpr (List.cons_ne_nil _ _)
  have hloads : Reach step s
      { s with consumer := .test (some s.queue.start) (some s.queue.end_) } :=
    reach_of_foldlM [.poll, .consumer .loadStart, .consumer .loadEnd]
      (by simp [step, consumerStep, hc])
  have hread : Reach step { s with consumer := .test (some s.queue.start) (some s.queue.end_) }
      { s with consumer := .advance item } :=
    reach_of_foldlM (List.replicate 3 (.consumer .next))
      (by simp [List.replicate, step, consumerStep, hne, hitem])
  rw [dequeue_run h hitem, if_neg hne]
  refine ⟨_, rfl, (hloads.trans hread).trans ?_⟩
  by_cases hwrap : s.queue.maxSize ≤ s.queue.start + 1
  · refine reach_of_foldlM (List.replicate 3 (.consumer .next)) ?_
    simp [List.replicate, step, consumerStep, hadd, hwrap]
  · refine reach_of_foldlM (List.replicate 2 (.consumer .next)) ?_
    simp [List.replicate, step, consumerStep, hadd, hwrap]

end CoapServer.Queue.Threads
