import CoapServer.Lib.AtomicObject
import CoapServer.Queue.Exactness

/-! # The queue between two threads is linearizable while the fullness test is fresh

The sequential queue is a bounded list (`fifo`), of at most `maxSize - 1` items. The two threads see
their calls and what these return. Every fresh run has the trace of a bounded list whose calls take
effect at one instant: an `enqueue` that is accepted at its increment of `end`, one that is refused
where it loads `start`; a `count` where it loads `end`; a `dequeue` at its increment of `start`. The
map `atomic` reads the list and the calls under way off a state, and is a simulation (`step_atomic`).

After a stale fullness test the ring can take an item too many. No bounded list does
(`StaleAt.not_linearizable`), so the queue is linearizable exactly while its tests are fresh
(`linearizable_iff_fresh`). -/

namespace CoapServer.Queue.Linearizable

open CoapServer.Basic CoapServer.Lib.Ring CoapServer.Lib.Run CoapServer.Lib.Trace
open CoapServer.Queue.Sequential CoapServer.Queue.Threads CoapServer.Queue.Exactness
open CoapServer.Lib.AtomicObject (Event Linearizable AtomicTraces pending)

variable {α : Type}

/-- What a call returns, or that it throws. -/
inductive Answer (α : Type) where
  | code (ret : ℤ)
  | item (item : α)
  | number (n : ℕ)
  | threw
  deriving DecidableEq

/-- **The bounded list**: it holds fewer than `n` items. -/
def fifo (n : ℕ) (L : List α) : Call α → Answer α × List α
  | .enqueue item => if L.length + 1 < n then (.code 0, L ++ [item]) else (.code (-1), L)
  | .dequeue =>
    match L with
    | [] => (.threw, [])
    | item :: L => (.item item, L)
  | .count => (.number L.length, L)

/-- The two threads. -/
inductive Thread where
  | producer
  | consumer
  deriving DecidableEq

/-! ### The sequential queue is the bounded list -/

/-- What a call on the queue answers. -/
def answer (q : RequestQueue α) : Call α → Answer α
  | .enqueue item => match (enqueue item).run q with
    | .ok ret _ => .code ret
    | .error _ _ => .threw
  | .dequeue => match dequeue.run q with
    | .ok item _ => .item item
    | .error _ _ => .threw
  | .count => match count.run q with
    | .ok n _ => .number n
    | .error _ _ => .threw

/-- **One call at a time**, the queue answers and changes like the bounded list. -/
theorem answer_eq {q : RequestQueue α} {L : List α} (h : Represents q L) (c : Call α) :
    answer q c = (fifo q.maxSize L c).1 ∧ Represents (c.apply q) (fifo q.maxSize L c).2 := by
  cases c with
  | enqueue item =>
    by_cases hroom : L.length + 1 < q.maxSize
    · obtain ⟨q', hrun, hrep, -⟩ := enqueue_room h hroom item
      simp only [answer, Call.apply, hrun, fifo, if_pos hroom, true_and]
      exact hrep
    · have hrun := enqueue_full h (by have := h.room; omega) item
      simp only [answer, Call.apply, hrun, fifo, if_neg hroom, true_and]
      exact h
  | dequeue =>
    cases L with
    | nil =>
      simp only [answer, Call.apply, dequeue_nil h rfl, fifo, true_and]
      exact h
    | cons item L =>
      obtain ⟨q', hrun, hrep, -⟩ := dequeue_cons h
      simp only [answer, Call.apply, hrun, fifo, true_and]
      exact hrep
  | count =>
    simp only [answer, Call.apply, count_run h, fifo, true_and]
    exact h

/-! ### What is seen of the two threads -/

/-- **The events of a step**: calls, and what they return. -/
def seen (s : State α) : Label α → List (Event Thread (Call α) (Answer α))
  | .offer item => [.invoke .producer (.enqueue item)]
  | .poll =>
    match s.consumer with
    | .idle => [.invoke .consumer .count]
    | .ready => [.invoke .consumer .dequeue]
    | _ => []
  | .producer _ =>
    match s.producer with
    | .test _ (some st) (some e) =>
      if st = sizeAdd e 1 % s.queue.maxSize then [.respond .producer (.code (-1))] else []
    | .check _ => if s.queue.maxSize ≤ s.queue.end_ then [] else [.respond .producer (.code 0)]
    | .reset _ => [.respond .producer (.code 0)]
    | _ => []
  | .consumer _ =>
    match s.consumer with
    | .count (some st) (some e) =>
      [.respond .consumer (.number (sizeSub (sizeAdd e s.queue.maxSize) st % s.queue.maxSize))]
    | .test (some st) (some e) => if st = e then [.respond .consumer .threw] else []
    | .check item =>
      if s.queue.maxSize ≤ s.queue.start then [] else [.respond .consumer (.item item)]
    | .reset item => [.respond .consumer (.item item)]
    | _ => []

/-! ### The atomic queue in a state -/

/-- The call of the producer: a test that has loaded the `start` of a full ring is refused. -/
def producerCall (q : RequestQueue α) :
    ProducerPc α → Lib.AtomicObject.Call (Call α) (Answer α)
  | .idle => .idle
  | .test item (some st) _ =>
    if st = sizeAdd q.end_ 1 % q.maxSize then .performed (.code (-1)) else .invoked (.enqueue item)
  | .test item none _ | .slot item | .write item _ | .publish item => .invoked (.enqueue item)
  | .check _ | .reset _ => .performed (.code 0)

/-- The call of the consumer: a `count` that has loaded `end` knows its answer. -/
def consumerCall (q : RequestQueue α) :
    ConsumerPc α → Lib.AtomicObject.Call (Call α) (Answer α)
  | .idle | .ready | .thrown => .idle
  | .count _ (some e) => .performed (.number (sizeSub (sizeAdd e q.maxSize) q.start % q.maxSize))
  | .count _ none => .invoked .count
  | .test _ _ | .slot | .read _ | .advance _ => .invoked .dequeue
  | .check item | .reset item => .performed (.item item)

/-- The producer's call depends on `end` only. -/
theorem producerCall_congr {q q' : RequestQueue α} (hmax : q'.maxSize = q.maxSize)
    (hend : q'.end_ = q.end_) (pc : ProducerPc α) : producerCall q' pc = producerCall q pc := by
  unfold producerCall
  rw [hmax, hend]

/-- The consumer's call depends on `start` only. -/
theorem consumerCall_congr {q q' : RequestQueue α} (hmax : q'.maxSize = q.maxSize)
    (hstart : q'.start = q.start) (pc : ConsumerPc α) : consumerCall q' pc = consumerCall q pc := by
  unfold consumerCall
  rw [hmax, hstart]

/-- The items in the ring. -/
def items (s : State α) : List α := (published s).drop (taken s).length

/-- **The atomic queue**: the items in the ring, and the calls under way. -/
def atomic (s : State α) : Lib.AtomicObject.State Thread (Call α) (Answer α) (List α) :=
  { object := items s
    call := fun t => match t with
      | .producer => producerCall s.queue s.producer
      | .consumer => consumerCall s.queue s.consumer }

/-- The atomic queue is read off a state part by part. -/
theorem atomic_eq {s : State α}
    {a : Lib.AtomicObject.State Thread (Call α) (Answer α) (List α)}
    (hitems : items s = a.object) (hp : producerCall s.queue s.producer = a.call .producer)
    (hc : consumerCall s.queue s.consumer = a.call .consumer) : atomic s = a := by
  obtain ⟨object, call⟩ := a
  have hcall : (atomic s).call = call := by
    funext t
    cases t with
    | producer => exact hp
    | consumer => exact hc
  rw [show atomic s = ⟨items s, (atomic s).call⟩ from rfl, hcall, hitems]

/-! ### Each step is matched -/

section Steps
variable {n : ℕ} {s s' : State α}

/-- A step that leaves the items and the calls. -/
theorem stutter (hitems : items s' = items s)
    (hp : producerCall s'.queue s'.producer = producerCall s.queue s.producer)
    (hc : consumerCall s'.queue s'.consumer = consumerCall s.queue s.consumer) :
    AtomicTraces (fifo n) (atomic s) [] (atomic s') := by
  have hsame : atomic s' = atomic s := atomic_eq hitems hp hc
  rw [hsame]
  exact .refl

/-- The atomic producer is where the producer is after its step. -/
theorem producer_matched {L : List α} {c : Lib.AtomicObject.Call (Call α) (Answer α)}
    {es : List (Event Thread (Call α) (Answer α))} (hrun : AtomicTraces (fifo n) (atomic s) es
      { object := L, call := Function.update (atomic s).call .producer c })
    (hitems : items s' = L) (hp : producerCall s'.queue s'.producer = c)
    (hc : consumerCall s'.queue s'.consumer = consumerCall s.queue s.consumer) :
    AtomicTraces (fifo n) (atomic s) es (atomic s') := by
  have hself : Function.update (atomic s).call .producer c .producer = c := Function.update_self _ _ _
  have hother : Function.update (atomic s).call .producer c .consumer = (atomic s).call .consumer :=
    Function.update_of_ne (by decide) _ _
  have hs' : atomic s' = { object := L, call := Function.update (atomic s).call .producer c } :=
    atomic_eq hitems (hp.trans hself.symm) (hc.trans hother.symm)
  rw [hs']
  exact hrun

/-- The atomic consumer is where the consumer is after its step. -/
theorem consumer_matched {L : List α} {c : Lib.AtomicObject.Call (Call α) (Answer α)}
    {es : List (Event Thread (Call α) (Answer α))} (hrun : AtomicTraces (fifo n) (atomic s) es
      { object := L, call := Function.update (atomic s).call .consumer c })
    (hitems : items s' = L) (hc : consumerCall s'.queue s'.consumer = c)
    (hp : producerCall s'.queue s'.producer = producerCall s.queue s.producer) :
    AtomicTraces (fifo n) (atomic s) es (atomic s') := by
  have hself : Function.update (atomic s).call .consumer c .consumer = c := Function.update_self _ _ _
  have hother : Function.update (atomic s).call .consumer c .producer = (atomic s).call .producer :=
    Function.update_of_ne (by decide) _ _
  have hs' : atomic s' = { object := L, call := Function.update (atomic s).call .consumer c } :=
    atomic_eq hitems (hp.trans hother.symm) (hc.trans hself.symm)
  rw [hs']
  exact hrun

/-! #### The producer -/

/-- **The fullness test is decided where it loads `start`**: a fresh load refuses a full ring, and no
other. -/
theorem refuses_iff (h : RingOk n s.queue (published s) (taken s)) (hlt : s.queue.end_ < n)
    (hfresh : ¬ (s.queue.start = s.queue.maxSize ∧ s.queue.end_ + 1 = s.queue.maxSize)) :
    s.queue.start = sizeAdd s.queue.end_ 1 % s.queue.maxSize ↔ ¬ (items s).length + 1 < n := by
  have hm := h.maxSize_lt
  have hle := h.taken_le
  have hroom := h.room
  have hlen : (items s).length = (published s).length - (taken s).length := List.length_drop
  rw [hlen, h.size, sizeAdd_eq (by omega)]
  rw [h.size] at hfresh
  rcases h.start_le.lt_or_eq with hs | hs
  · rw [full_iff h.start_mod h.end_mod hs hle hroom]
    omega
  · -- an index that is not reset is not the remainder, and the ring is not full
    have hloaded := h.loadedStart (by rw [h.size]; exact hfresh)
    have hmod : (s.queue.end_ + 1) % n < n := Nat.mod_lt _ (by omega)
    have hne : s.queue.start ≠ (s.queue.end_ + 1) % n := by omega
    have hlast := hloaded.room h.end_mod hlt hle hne
    exact iff_of_false hne (by omega)

/-- **A fresh step of the producer** is matched. -/
theorem producer_atomic (h : Inv n s) {a : Access} (hfresh : Fresh s (.producer a))
    (hs : producerStep s a = some s') :
    AtomicTraces (fifo n) (atomic s) (seen s (.producer a)) (atomic s') := by
  have hpc := h.producer
  have hr := h.ring
  have hle := hr.taken_le
  have hlen : (items s).length = (published s).length - (taken s).length := List.length_drop
  cases producerMove_of_step hs with
  | @loadStart item e hp =>
    rw [hp] at hpc
    have hrefuses := refuses_iff hr hpc.1 fun hstale => hfresh ⟨rfl, hstale⟩
    have hcall : (atomic s).call .producer = .invoked (.enqueue item) := by
      simp only [atomic, hp, producerCall]
    have hitems : items { s with producer := .test item (some s.queue.start) e } = items s := by
      simp only [items, published, taken, hp, ProducerPc.inFlight]
    simp only [seen, hp]
    by_cases hfull : (items s).length + 1 < n
    · -- nothing is decided yet
      refine stutter hitems ?_ rfl
      simp only [hp, producerCall, if_neg (hrefuses.not.mpr (not_not.mpr hfull))]
    · -- the instant at which the call is refused
      have happly : fifo n (items s) (.enqueue item) = (.code (-1), items s) := if_neg hfull
      refine producer_matched (Lib.AtomicObject.perform_trace hcall happly) hitems ?_ rfl
      simp only [producerCall, if_pos (hrefuses.mpr hfull)]
  | @loadEnd item st hp =>
    simp only [seen, hp]
    refine stutter ?_ ?_ rfl
    · simp only [items, published, taken, hp, ProducerPc.inFlight]
    · cases st <;> simp only [hp, producerCall]
  | @full item st e hp hfull =>
    rw [hp] at hpc
    obtain rfl := hpc.2.1 e rfl
    have hcall : (atomic s).call .producer = .performed (.code (-1)) := by
      simp only [atomic, hp, producerCall, if_pos hfull]
    simp only [seen, hp, if_pos hfull]
    refine producer_matched (Lib.AtomicObject.respond_trace hcall) ?_ rfl rfl
    simp only [atomic, items, published, taken, hp, ProducerPc.inFlight]
  | @room item st e hp hroom =>
    rw [hp] at hpc
    obtain rfl := hpc.2.1 e rfl
    simp only [seen, hp, if_neg hroom]
    refine stutter ?_ ?_ rfl
    · simp only [items, published, taken, hp, ProducerPc.inFlight]
    · simp only [hp, producerCall, if_neg hroom]
  | slot hp =>
    simp only [seen, hp]
    refine stutter ?_ ?_ rfl
    · simp only [items, published, taken, hp, ProducerPc.inFlight]
    · simp only [hp, producerCall]
  | write hp =>
    simp only [seen, hp]
    refine stutter ?_ ?_ rfl
    · simp only [items, published, taken, hp, ProducerPc.inFlight]
    · simp only [hp, producerCall]
  | @publish item hp =>
    rw [hp] at hpc
    have hroom : (items s).length + 1 < n := by
      have := hpc.2.1
      omega
    have hcall : (atomic s).call .producer = .invoked (.enqueue item) := by
      simp only [atomic, hp, producerCall]
    have happly : fifo n (items s) (.enqueue item) = (.code 0, items s ++ [item]) := if_pos hroom
    simp only [seen, hp]
    -- the instant at which the call is accepted
    refine producer_matched (Lib.AtomicObject.perform_trace hcall happly) ?_ rfl ?_
    · have hpub : published s = s.accepted := by simp [published, hp, ProducerPc.inFlight]
      rw [hpub] at hle
      simp only [items, hpub]
      exact List.drop_append_of_le_length hle
    · exact consumerCall_congr rfl rfl _
  | @wrap item hp hwrap =>
    simp only [seen, hp, if_pos hwrap]
    refine stutter ?_ ?_ rfl
    · simp only [items, published, taken, hp, ProducerPc.inFlight]
    · simp only [hp, producerCall]
  | @accept item hp hwrap =>
    have hcall : (atomic s).call .producer = .performed (.code 0) := by
      simp only [atomic, hp, producerCall]
    simp only [seen, hp, if_neg hwrap]
    refine producer_matched (Lib.AtomicObject.respond_trace hcall) ?_ rfl rfl
    simp only [atomic, items, published, taken, hp, ProducerPc.inFlight, List.append_nil]
  | @reset item hp =>
    have hcall : (atomic s).call .producer = .performed (.code 0) := by
      simp only [atomic, hp, producerCall]
    simp only [seen, hp]
    refine producer_matched (Lib.AtomicObject.respond_trace hcall) ?_ rfl ?_
    · simp only [atomic, items, published, taken, hp, ProducerPc.inFlight, List.append_nil]
    · exact consumerCall_congr rfl rfl _

/-! #### The consumer -/

/-- A `count` that has both indices answers what it did when it loaded `end`. -/
theorem count_responds {e : ℕ} (hp : s.consumer = .count (some s.queue.start) (some e))
    {pc : ConsumerPc α} (hcall : consumerCall s.queue pc = .idle) (hin : pc.inFlight = [])
    (a : Access) : AtomicTraces (fifo n) (atomic s) (seen s (.consumer a))
      (atomic { s with consumer := pc }) := by
  have hbefore : (atomic s).call .consumer = .performed (.number
      (sizeSub (sizeAdd e s.queue.maxSize) s.queue.start % s.queue.maxSize)) := by
    simp only [atomic, hp, consumerCall]
  have hheld : s.consumer.inFlight = [] := by rw [hp]; rfl
  simp only [seen, hp]
  refine consumer_matched (Lib.AtomicObject.respond_trace hbefore) ?_ hcall rfl
  simp only [atomic, items, published, taken, hheld, hin]

/-- **A step of the consumer** is matched. -/
theorem consumer_atomic (h : Inv n s) {a : Access} (hs : consumerStep s a = some s') :
    AtomicTraces (fifo n) (atomic s) (seen s (.consumer a)) (atomic s') := by
  have hpc := h.consumer
  have hr := h.ring
  have hm := hr.maxSize_lt
  have hle := hr.taken_le
  have hlen : (items s).length = (published s).length - (taken s).length := List.length_drop
  cases consumerMove_of_step hs with
  | @countStart e hp =>
    simp only [seen, hp]
    refine stutter ?_ rfl ?_
    · simp only [items, published, taken, hp, ConsumerPc.inFlight]
    · cases e <;> simp only [hp, consumerCall]
  | @countEnd st hp =>
    rw [hp] at hpc
    have hcall : (atomic s).call .consumer = .invoked .count := by
      simp only [atomic, hp, consumerCall]
    have happly : fifo n (items s) .count = (.number (items s).length, items s) := rfl
    have hseen : seen s (.consumer .loadEnd) = [] := by
      cases st <;> simp only [seen, hp]
    rw [hseen]
    -- the instant at which the items are counted
    refine consumer_matched (Lib.AtomicObject.perform_trace hcall happly) ?_ ?_ rfl
    · simp only [items, published, taken, hp, ConsumerPc.inFlight]
    · have hstart := hr.start_le
      have hend := hr.end_le
      have hdist := distance_eq hr.start_mod hr.end_mod hstart hle hr.room
      simp only [consumerCall, hr.size]
      rw [sizeAdd_eq (by omega), sizeSub_eq (by omega) (by omega), hdist, hlen]
  | @zero st e hp hzero =>
    rw [hp] at hpc
    obtain rfl := hpc.2.1 st rfl
    exact count_responds hp rfl rfl .next
  | @nonzero st e hp hne =>
    rw [hp] at hpc
    obtain rfl := hpc.2.1 st rfl
    exact count_responds hp rfl rfl .next
  | @testStart e hp =>
    simp only [seen, hp]
    refine stutter ?_ rfl ?_
    · simp only [items, published, taken, hp, ConsumerPc.inFlight]
    · simp only [hp, consumerCall]
  | @testEnd st hp =>
    have hseen : seen s (.consumer .loadEnd) = [] := by
      cases st <;> simp only [seen, hp]
    rw [hseen]
    refine stutter ?_ rfl ?_
    · simp only [items, published, taken, hp, ConsumerPc.inFlight]
    · simp only [hp, consumerCall]
  | @throws st e hp heq =>
    rw [hp] at hpc
    obtain ⟨-, -, hst, hen⟩ := hpc
    obtain rfl := hst st rfl
    exact absurd heq ((hen e rfl).ne_start hr.start_mod hr.room)
  | @nonempty st e hp hne =>
    simp only [seen, hp, if_neg hne]
    refine stutter ?_ rfl ?_
    · simp only [items, published, taken, hp, ConsumerPc.inFlight]
    · simp only [hp, consumerCall]
  | slot hp =>
    simp only [seen, hp]
    refine stutter ?_ rfl ?_
    · simp only [items, published, taken, hp, ConsumerPc.inFlight]
    · simp only [hp, consumerCall]
  | @read i item hp hitem =>
    simp only [seen, hp]
    refine stutter ?_ rfl ?_
    · simp only [items, published, taken, hp, ConsumerPc.inFlight]
    · simp only [hp, consumerCall]
  | @advance item hp =>
    rw [hp] at hpc
    obtain ⟨hcp, hitem⟩ := List.getElem?_eq_some_iff.mp hpc.2
    have htaken : taken s = s.returned := by simp [taken, hp, ConsumerPc.inFlight]
    have hitems : items s = item :: (published s).drop (s.returned.length + 1) := by
      rw [items, List.drop_eq_getElem_cons hcp, hitem, htaken]
    have hcall : (atomic s).call .consumer = .invoked .dequeue := by
      simp only [atomic, hp, consumerCall]
    have happly : fifo n (items s) .dequeue =
        (.item item, (published s).drop (s.returned.length + 1)) := by rw [hitems]; rfl
    simp only [seen, hp]
    -- the instant at which the item is taken
    refine consumer_matched (Lib.AtomicObject.perform_trace hcall happly) ?_ rfl ?_
    · simp only [items, taken, ConsumerPc.inFlight, List.length_append, List.length_singleton]
      rfl
    · exact producerCall_congr rfl rfl _
  | @wrap item hp hwrap =>
    simp only [seen, hp, if_pos hwrap]
    refine stutter ?_ rfl ?_
    · simp only [items, published, taken, hp, ConsumerPc.inFlight]
    · simp only [hp, consumerCall]
  | @finish item hp hwrap =>
    have hcall : (atomic s).call .consumer = .performed (.item item) := by
      simp only [atomic, hp, consumerCall]
    simp only [seen, hp, if_neg hwrap]
    refine consumer_matched (Lib.AtomicObject.respond_trace hcall) ?_ rfl rfl
    simp only [atomic, items, published, taken, hp, ConsumerPc.inFlight, List.append_nil]
  | @reset item hp =>
    have hcall : (atomic s).call .consumer = .performed (.item item) := by
      simp only [atomic, hp, consumerCall]
    simp only [seen, hp]
    refine consumer_matched (Lib.AtomicObject.respond_trace hcall) ?_ rfl ?_
    · simp only [atomic, items, published, taken, hp, ConsumerPc.inFlight, List.append_nil]
    · exact producerCall_congr rfl rfl _

/-- **A fresh step** is matched by the atomic queue, with its events. -/
theorem step_atomic (h : Inv n s) {l : Label α} (hfresh : Fresh s l) (hs : step s l = some s') :
    AtomicTraces (fifo n) (atomic s) (seen s l) (atomic s') := by
  cases l with
  | offer item =>
    simp only [step] at hs
    split at hs
    · next hp =>
      obtain rfl := Option.some.inj hs
      have hcall : (atomic s).call .producer = .idle := by simp only [atomic, hp, producerCall]
      refine producer_matched (Lib.AtomicObject.invoke_trace hcall) ?_ rfl rfl
      simp only [atomic, items, published, taken, hp, ProducerPc.inFlight]
    · cases hs
  | poll =>
    simp only [step] at hs
    split at hs
    · next hp =>
      obtain rfl := Option.some.inj hs
      have hcall : (atomic s).call .consumer = .idle := by simp only [atomic, hp, consumerCall]
      simp only [seen, hp]
      refine consumer_matched (Lib.AtomicObject.invoke_trace hcall) ?_ rfl rfl
      simp only [atomic, items, published, taken, hp, ConsumerPc.inFlight]
    · next hp =>
      obtain rfl := Option.some.inj hs
      have hcall : (atomic s).call .consumer = .idle := by simp only [atomic, hp, consumerCall]
      simp only [seen, hp]
      refine consumer_matched (Lib.AtomicObject.invoke_trace hcall) ?_ rfl rfl
      simp only [atomic, items, published, taken, hp, ConsumerPc.inFlight]
    · cases hs
  | producer a => exact producer_atomic h hfresh hs
  | consumer a => exact consumer_atomic h hs

end Steps

/-! ### What the events show -/

/-- An item was accepted. -/
def Answer.accepts : Answer α → ℕ
  | .code ret => if ret = 0 then 1 else 0
  | _ => 0

/-- An item was returned. -/
def Answer.takes : Answer α → ℕ
  | .item _ => 1
  | _ => 0

/-- The sum over the answers. -/
def total (f : Answer α → ℕ) (es : List (Event Thread (Call α) (Answer α))) : ℕ :=
  (es.map fun e => match e with
    | .invoke _ _ => 0
    | .respond _ ans => f ans).sum

@[simp] theorem total_invoke (f : Answer α → ℕ) (es : List (Event Thread (Call α) (Answer α)))
    (t : Thread) (c : Call α) : total f (es ++ [.invoke t c]) = total f es := by
  simp [total]

@[simp] theorem total_respond (f : Answer α → ℕ) (es : List (Event Thread (Call α) (Answer α)))
    (t : Thread) (ans : Answer α) : total f (es ++ [.respond t ans]) = total f es + f ans := by
  simp [total]

/-- The producer is in a call. -/
def producerBusy : ProducerPc α → Bool
  | .idle => false
  | _ => true

/-- The consumer is in a call. -/
def consumerBusy : ConsumerPc α → Bool
  | .idle | .ready | .thrown => false
  | _ => true

/-- **What the events show of the threads**: the items accepted and returned, and whether a call is
under way. -/
structure Shown (es : List (Event Thread (Call α) (Answer α))) (s : State α) : Prop where
  accepted : total Answer.accepts es = s.accepted.length
  returned : total Answer.takes es = s.returned.length
  producer : pending .producer es = producerBusy s.producer
  consumer : pending .consumer es = consumerBusy s.consumer

section Shown
variable {es : List (Event Thread (Call α) (Answer α))} {s s' : State α} (h : Shown es s)
include h

/-- A step without events. -/
theorem Shown.silent (hacc : s'.accepted = s.accepted) (hret : s'.returned = s.returned)
    (hp : producerBusy s'.producer = producerBusy s.producer)
    (hc : consumerBusy s'.consumer = consumerBusy s.consumer) : Shown (es ++ []) s' := by
  rw [List.append_nil]
  exact ⟨hacc ▸ h.accepted, hret ▸ h.returned, h.producer.trans hp.symm, h.consumer.trans hc.symm⟩

/-- A call begins. -/
theorem Shown.invoke {t : Thread} {c : Call α} (hacc : s'.accepted = s.accepted)
    (hret : s'.returned = s.returned)
    (hp : producerBusy s'.producer = if t = .producer then true else producerBusy s.producer)
    (hc : consumerBusy s'.consumer = if t = .consumer then true else consumerBusy s.consumer) :
    Shown (es ++ [.invoke t c]) s' := by
  refine ⟨?_, ?_, ?_, ?_⟩
  · rw [total_invoke, h.accepted, hacc]
  · rw [total_invoke, h.returned, hret]
  · rw [Lib.AtomicObject.pending_invoke, hp, h.producer]
  · rw [Lib.AtomicObject.pending_invoke, hc, h.consumer]

/-- A call ends. -/
theorem Shown.respond {t : Thread} {ans : Answer α}
    (hacc : s'.accepted.length = s.accepted.length + ans.accepts)
    (hret : s'.returned.length = s.returned.length + ans.takes)
    (hp : producerBusy s'.producer = if t = .producer then false else producerBusy s.producer)
    (hc : consumerBusy s'.consumer = if t = .consumer then false else consumerBusy s.consumer) :
    Shown (es ++ [.respond t ans]) s' := by
  refine ⟨?_, ?_, ?_, ?_⟩
  · rw [total_respond, h.accepted, hacc]
  · rw [total_respond, h.returned, hret]
  · rw [Lib.AtomicObject.pending_respond, hp, h.producer]
  · rw [Lib.AtomicObject.pending_respond, hc, h.consumer]

theorem producer_shown {a : Access} (hs : producerStep s a = some s') :
    Shown (es ++ seen s (.producer a)) s' := by
  cases producerMove_of_step hs with
  | @full item st e hp hfull =>
    simp only [seen, hp, if_pos hfull]
    exact h.respond rfl rfl rfl rfl
  | @room item st e hp hroom =>
    simp only [seen, hp, if_neg hroom]
    exact h.silent rfl rfl (by rw [hp]; rfl) rfl
  | @accept item hp hwrap =>
    simp only [seen, hp, if_neg hwrap]
    exact h.respond List.length_append rfl rfl rfl
  | @wrap item hp hwrap =>
    simp only [seen, hp, if_pos hwrap]
    exact h.silent rfl rfl (by rw [hp]; rfl) rfl
  | @reset item hp =>
    simp only [seen, hp]
    exact h.respond List.length_append rfl rfl rfl
  | @loadEnd item st hp =>
    have hseen : seen s (.producer .loadEnd) = [] := by
      cases st <;> simp only [seen, hp]
    rw [hseen]
    exact h.silent rfl rfl (by rw [hp]; rfl) rfl
  | loadStart hp | slot hp | write hp | publish hp =>
    simp only [seen, hp]
    exact h.silent rfl rfl (by rw [hp]; rfl) rfl

theorem consumer_shown {a : Access} (hs : consumerStep s a = some s') :
    Shown (es ++ seen s (.consumer a)) s' := by
  cases consumerMove_of_step hs with
  | zero hp _ | nonzero hp _ =>
    simp only [seen, hp]
    exact h.respond rfl rfl rfl rfl
  | @throws st e hp heq =>
    simp only [seen, hp, if_pos heq]
    exact h.respond rfl rfl rfl rfl
  | @nonempty st e hp hne =>
    simp only [seen, hp, if_neg hne]
    exact h.silent rfl rfl rfl (by rw [hp]; rfl)
  | @wrap item hp hwrap =>
    simp only [seen, hp, if_pos hwrap]
    exact h.silent rfl rfl rfl (by rw [hp]; rfl)
  | @finish item hp hwrap =>
    simp only [seen, hp, if_neg hwrap]
    exact h.respond rfl List.length_append rfl rfl
  | @reset item hp =>
    simp only [seen, hp]
    exact h.respond rfl List.length_append rfl rfl
  | @countEnd st hp | @testEnd st hp =>
    have hseen : seen s (.consumer .loadEnd) = [] := by
      cases st <;> simp only [seen, hp]
    rw [hseen]
    exact h.silent rfl rfl rfl (by rw [hp]; rfl)
  | countStart hp | testStart hp | slot hp | read hp _ | advance hp =>
    simp only [seen, hp]
    exact h.silent rfl rfl rfl (by rw [hp]; rfl)

/-- **A step shows what it does.** -/
theorem step_shown {l : Label α} (hs : step s l = some s') : Shown (es ++ seen s l) s' := by
  cases l with
  | offer item =>
    simp only [step] at hs
    split at hs
    · obtain rfl := Option.some.inj hs
      exact h.invoke rfl rfl rfl rfl
    · cases hs
  | poll =>
    simp only [step] at hs
    split at hs
    · next hp =>
      obtain rfl := Option.some.inj hs
      simp only [seen, hp]
      exact h.invoke rfl rfl rfl rfl
    · next hp =>
      obtain rfl := Option.some.inj hs
      simp only [seen, hp]
      exact h.invoke rfl rfl rfl rfl
    · cases hs
  | producer a => exact producer_shown h hs
  | consumer a => exact consumer_shown h hs

end Shown

/-! ### No bounded list takes an item too many -/

/-- The answer of a call that was performed. -/
def held (f : Answer α → ℕ) : Lib.AtomicObject.Call (Call α) (Answer α) → ℕ
  | .performed ans => f ans
  | _ => 0

@[simp] theorem held_idle (f : Answer α → ℕ) : held f .idle = 0 := rfl

@[simp] theorem held_invoked (f : Answer α → ℕ) (c : Call α) : held f (.invoked c) = 0 := rfl

@[simp] theorem held_performed (f : Answer α → ℕ) (ans : Answer α) :
    held f (.performed ans) = f ans := rfl

/-- **The bounded list is balanced**: it holds what was accepted and not returned, and is not full. -/
structure Balanced (n : ℕ) (es : List (Event Thread (Call α) (Answer α)))
    (a : Lib.AtomicObject.State Thread (Call α) (Answer α) (List α)) : Prop where
  room : a.object.length < n
  count : a.object.length + total Answer.takes es + held Answer.takes (a.call .producer) +
      held Answer.takes (a.call .consumer) =
    total Answer.accepts es + held Answer.accepts (a.call .producer) +
      held Answer.accepts (a.call .consumer)

/-- What a call does to the length. -/
theorem fifo_length (n : ℕ) (L : List α) (c : Call α) :
    (fifo n L c).2.length + (fifo n L c).1.takes = L.length + (fifo n L c).1.accepts ∧
      (L.length < n → (fifo n L c).2.length < n) := by
  cases c with
  | enqueue item =>
    by_cases hroom : L.length + 1 < n
    · simp [fifo, hroom, Answer.takes, Answer.accepts]
    · simp [fifo, hroom, Answer.takes, Answer.accepts]
  | dequeue =>
    cases L with
    | nil => simp [fifo, Answer.takes, Answer.accepts]
    | cons item L =>
      refine ⟨rfl, fun h => ?_⟩
      rw [List.length_cons] at h
      exact Nat.lt_of_succ_lt h
  | count => simp [fifo, Answer.takes, Answer.accepts]

theorem atomic_balanced {n : ℕ} (hn : 0 < n) {es : List (Event Thread (Call α) (Answer α))}
    {a : Lib.AtomicObject.State Thread (Call α) (Answer α) (List α)}
    (h : AtomicTraces (fifo n) (Lib.AtomicObject.start []) es a) : Balanced n es a := by
  refine h.invariant (P := Balanced n) ?_ ⟨hn, rfl⟩
  rintro es a l a' ⟨hroom, hcount⟩ - hs
  cases l with
  | invoke t c =>
    simp only [Lib.AtomicObject.step] at hs
    split at hs
    · next hc =>
      obtain rfl := Option.some.inj hs
      refine ⟨hroom, ?_⟩
      cases t <;> simpa [Lib.AtomicObject.seen, Lib.AtomicObject.State.setCall, hc] using hcount
    · cases hs
  | perform t =>
    simp only [Lib.AtomicObject.step] at hs
    split at hs
    · next c hc =>
      obtain rfl := Option.some.inj hs
      obtain ⟨hlength, hlt⟩ := fifo_length n a.object c
      refine ⟨hlt hroom, ?_⟩
      cases t <;>
      · simp only [hc, held_invoked] at hcount
        simp only [Lib.AtomicObject.State.perform, Lib.AtomicObject.seen, List.append_nil,
          Function.update_self, held_performed, ne_eq, reduceCtorEq, not_false_eq_true,
          Function.update_of_ne]
        omega
    · cases hs
  | respond t =>
    simp only [Lib.AtomicObject.step] at hs
    split at hs
    · next ans hc =>
      obtain rfl := Option.some.inj hs
      refine ⟨hroom, ?_⟩
      cases t <;>
      · simp only [hc, held_performed] at hcount
        simp only [Lib.AtomicObject.State.setCall, Lib.AtomicObject.seen, hc, total_respond,
          Function.update_self, held_idle, add_zero, ne_eq, reduceCtorEq, not_false_eq_true,
          Function.update_of_ne]
        omega
    · cases hs

/-- **A linearizable trace leaves a slot free**: between calls fewer than `n` items are accepted and
not returned. -/
theorem linearizable_room {n : ℕ} (hn : 0 < n) {es : List (Event Thread (Call α) (Answer α))}
    {s : State α} (hlin : Linearizable (fifo n) [] es) (h : Shown es s)
    (hp : producerBusy s.producer = false) (hc : consumerBusy s.consumer = false) :
    s.accepted.length < s.returned.length + n := by
  obtain ⟨a, ha⟩ := hlin
  obtain ⟨hroom, hcount⟩ := atomic_balanced hn ha
  have hidle : ∀ t, pending t es = false → a.call t = .idle := by
    intro t ht
    by_contra hne
    rw [(Lib.AtomicObject.pending_iff _ ha t).mpr hne] at ht
    cases ht
  rw [hidle _ (h.producer.trans hp), hidle _ (h.consumer.trans hc), h.accepted, h.returned] at hcount
  simp only [held_idle] at hcount
  omega

/-! ### The results -/

theorem init_shown (q : RequestQueue α) : Shown [] (init q) := ⟨rfl, rfl, rfl, rfl⟩

theorem init_atomic (q : RequestQueue α) : atomic (init q) = Lib.AtomicObject.start [] :=
  atomic_eq rfl rfl rfl

/-- **The queue is linearizable while the fullness test is fresh**: in a run without a stale fullness
test, what the two threads see of it is what they see of a list of at most `n - 1` items whose calls
each take effect at one instant between call and return. From every stale test on, the run can go on
so that it is not. -/
theorem linearizable_iff_fresh [Inhabited α] {n : ℕ} (hn : 2 ≤ n) {q : RequestQueue α}
    (hq : Sequential.new n = some q) :
    (∀ es s, Traces step Fresh seen (init q) es s → Linearizable (fifo n) [] es) ∧
    ∀ es s l s₁, Traces step Fresh seen (init q) es s → StaleTest s l → step s l = some s₁ →
      ∃ es' s', Traces step (fun _ _ => True) seen s₁ es' s' ∧
        ¬ Linearizable (fifo n) [] (es ++ seen s l ++ es') := by
  have hinv := init_inv hn hq
  constructor
  · intro es s htrace
    have hsim : ∀ (s : State α) l s' a, Inv n s ∧ a = atomic s → Fresh s l → step s l = some s' →
        ∃ a', AtomicTraces (fifo n) a (seen s l) a' ∧ Inv n s' ∧ a' = atomic s' := by
      rintro s l s' _ ⟨hs, rfl⟩ hfresh hstep
      exact ⟨atomic s', step_atomic hs hfresh hstep, step_inv hs hfresh hstep, rfl⟩
    obtain ⟨a, ha, -⟩ := htrace.simulation hsim ⟨hinv, (init_atomic q).symm⟩
    exact ⟨a, ha⟩
  · intro es s l s₁ htrace hstale hs
    obtain ⟨item, item', e, h⟩ := staleAt_of_step (run_inv hinv htrace.runs) hstale hs
    obtain ⟨es', hends⟩ : ∃ es', Traces step (fun _ _ => True) seen s₁ es' (ended s item item') :=
      traces_of_runs h.ends
    refine ⟨es', _, hends, fun hlin => ?_⟩
    have hall := ((htrace.mono fun _ _ _ => trivial).snoc trivial hs).trans hends
    have hshown : Shown (es ++ seen s l ++ es') (ended s item item') :=
      hall.invariant (P := Shown) (fun _ _ _ _ hshown _ => step_shown hshown) (init_shown q)
    have hroom := linearizable_room (by omega) hlin hshown rfl rfl
    have hfull := h.full
    have hsize := h.inv.ring.size
    simp only [ended, List.length_append, List.length_singleton] at hroom
    omega

theorem linearizable_iff_fresh_two :
    (∀ es s, Traces step Fresh seen (init ⟨2, [0, 0], 0, 0⟩) es s →
      Linearizable (fifo 2) ([] : List ℕ) es) ∧
    ∀ es s l s₁, Traces step Fresh seen (init ⟨2, [0, 0], 0, 0⟩) es s → StaleTest s l →
      step s l = some s₁ → ∃ es' s', Traces step (fun _ _ => True) seen s₁ es' s' ∧
        ¬ Linearizable (fifo 2) ([] : List ℕ) (es ++ seen s l ++ es') :=
  linearizable_iff_fresh (n := 2) (by decide) (by decide)

end CoapServer.Queue.Linearizable
