import CoapServer.Queue.Sequential

/-! # Shutdown

The main thread runs `exec` until `_exit_now` is set, and then waits for the queue thread. The queue
thread tests `_exit_now` between the rounds in which it empties the queue. A signal may set it at any
moment, and the calls of the queue are atomic here.

`accepted` are the items for which `enqueue` returned `0`, `handled` those that
`handleRequestQueueItem` was called with: together with the item in hand and the queue they are the
same (`Inv.exact`). What is in the queue when its thread has ended stays there (`dropped_stays`), so
nothing is dropped exactly in the runs whose moves are `Drained` (`kept_iff_drained`). -/

namespace CoapServer.Queue.Shutdown

open CoapServer.Basic CoapServer.Lib.Run CoapServer.Queue.Sequential

variable {α : Type}

/-! ### The threads -/

/-- The main thread: before the test of its loop, in `exec`, or behind the loop. -/
inductive Main where
  | testing
  | serving
  | joining
  deriving DecidableEq

/-- **The queue thread**: before the outer or the inner test, before `dequeue`, with an item in hand,
asleep, or ended. -/
inductive Consumer (α : Type) where
  | testing
  | counting
  | taking
  | handling (item : α)
  | sleeping
  | done
  deriving DecidableEq

/-- **The state of the process.** -/
structure State (α : Type) where
  exitNow : Bool
  queue : RequestQueue α
  main : Main
  consumer : Consumer α
  accepted : List α
  handled : List α
  deriving DecidableEq

/-- Who moves: the signal handler, the main thread, a request within `exec`, or the queue thread. -/
inductive Label (α : Type) where
  | signal
  | main
  | request (item : α)
  | consumer

/-- A move of the main thread. -/
def mainStep (s : State α) : Option (State α) :=
  match s.main with
  | .testing => some { s with main := if s.exitNow then .joining else .serving }
  | .serving => some { s with main := .testing }
  | .joining => none

/-- A request that is acknowledged if the queue takes it. -/
def requestStep (s : State α) (item : α) : Option (State α) :=
  match s.main with
  | .serving =>
    match (enqueue item).run s.queue with
    | .ok ret q => some { s with
        queue := q
        accepted := if ret = 0 then s.accepted ++ [item] else s.accepted }
    | .error _ _ => none
  | .testing | .joining => none

/-- A move of the queue thread. -/
def consumerStep (s : State α) : Option (State α) :=
  match s.consumer with
  | .testing => some { s with consumer := if s.exitNow then .done else .counting }
  | .counting =>
    match count.run s.queue with
    | .ok n q => some { s with queue := q, consumer := if n ≠ 0 then .taking else .sleeping }
    | .error _ _ => none
  | .taking =>
    match dequeue.run s.queue with
    | .ok item q => some { s with queue := q, consumer := .handling item }
    | .error _ _ => none
  | .handling item => some { s with consumer := .counting, handled := s.handled ++ [item] }
  | .sleeping => some { s with consumer := .testing }
  | .done => none

/-- **The step**; `none` where the thread cannot move or a call throws. -/
def step (s : State α) : Label α → Option (State α)
  | .signal => some { s with exitNow := true }
  | .main => mainStep s
  | .request item => requestStep s item
  | .consumer => consumerStep s

/-- The threads are started. -/
def start (q : RequestQueue α) : State α :=
  { exitNow := false, queue := q, main := .testing, consumer := .testing, accepted := []
    handled := [] }

/-- Both loops have exited. -/
def Exited (s : State α) : Prop := s.main = .joining ∧ s.consumer = .done

/-- **No acknowledged request is dropped**: the queue is empty, and every item was handled once. -/
def Kept (s : State α) : Prop := contents s.queue = [] ∧ s.handled = s.accepted

/-- **The queue is drained**: its thread does not leave its loop with items in the queue, and once it
has, the queue does not take a request. -/
def Drained (s : State α) : Label α → Prop
  | .consumer => s.consumer = .testing → s.exitNow = true → contents s.queue = []
  | .request _ => s.consumer = .done → (contents s.queue).length + 1 = s.queue.maxSize
  | .signal | .main => True

instance [DecidableEq α] (s : State α) (l : Label α) : Decidable (Drained s l) := by
  cases l <;> unfold Drained <;> infer_instance

/-! ### What is where -/

/-- The item in hand. -/
def Consumer.inHand : Consumer α → List α
  | .handling item => [item]
  | .testing | .counting | .taking | .sleeping | .done => []

/-- The queue represents a list, or has no slots at all. -/
def Holds (q : RequestQueue α) (L : List α) : Prop := Represents q L ∨ q = ⟨0, [], 0, 0⟩ ∧ L = []

/-- **What holds in every state.** -/
structure Inv (s : State α) (L : List α) : Prop where
  holds : Holds s.queue L
  exact : s.accepted = s.handled ++ s.consumer.inHand ++ L
  done : s.consumer = .done → s.exitNow = true
  joining : s.main = .joining → s.exitNow = true

theorem Holds.contents_eq {q : RequestQueue α} {L : List α} (h : Holds q L) : contents q = L := by
  rcases h with h | ⟨rfl, rfl⟩
  · exact h.contents_eq
  · rfl

/-- What a call of `enqueue` does. -/
theorem Holds.enqueue {q q' : RequestQueue α} {L : List α} (h : Holds q L) {item : α} {ret : ℤ}
    (hrun : (enqueue item).run q = .ok ret q') :
    ret = 0 ∧ Holds q' (L ++ [item]) ∧ L.length + 1 ≠ q.maxSize ∨
      ret ≠ 0 ∧ q' = q ∧ L.length + 1 = q.maxSize := by
  rcases h with h | ⟨rfl, rfl⟩
  · rcases Nat.lt_or_ge (L.length + 1) q.maxSize with hroom | hfull
    · obtain ⟨q₁, hrun₁, h₁, -⟩ := enqueue_room h hroom item
      obtain ⟨rfl, rfl⟩ := EStateM.Result.ok.inj (hrun.symm.trans hrun₁)
      exact Or.inl ⟨rfl, Or.inl h₁, Nat.ne_of_lt hroom⟩
    · have hlast : L.length + 1 = q.maxSize := by
        have hr := h.room
        omega
      obtain ⟨rfl, rfl⟩ := EStateM.Result.ok.inj (hrun.symm.trans (enqueue_full h hlast item))
      exact Or.inr ⟨by decide, rfl, hlast⟩
  · cases hrun

/-- What a call of `count` returns. -/
theorem Holds.count {q q' : RequestQueue α} {L : List α} (h : Holds q L) {n : ℕ}
    (hrun : count.run q = .ok n q') : q' = q ∧ n = L.length := by
  rcases h with h | ⟨rfl, rfl⟩
  · obtain ⟨rfl, rfl⟩ := EStateM.Result.ok.inj (hrun.symm.trans (count_run h))
    exact ⟨rfl, rfl⟩
  · cases hrun

/-- What a call of `dequeue` does. -/
theorem Holds.dequeue {q q' : RequestQueue α} {L : List α} (h : Holds q L) {item : α}
    (hrun : dequeue.run q = .ok item q') : ∃ L', L = item :: L' ∧ Holds q' L' := by
  rcases h with h | ⟨rfl, rfl⟩
  · cases L with
    | nil =>
      rw [dequeue_nil h rfl] at hrun
      cases hrun
    | cons item' L' =>
      obtain ⟨q₁, hrun₁, h₁, -⟩ := dequeue_cons h
      obtain ⟨rfl, rfl⟩ := EStateM.Result.ok.inj (hrun.symm.trans hrun₁)
      exact ⟨L', rfl, Or.inl h₁⟩
  · cases hrun

section Step
variable {s s' : State α} {L : List α} (h : Inv s L)
include h

/-- The signal sets the flag. -/
theorem signal_inv : Inv { s with exitNow := true } L :=
  ⟨h.holds, h.exact, fun _ => rfl, fun _ => rfl⟩

/-- The main thread leaves its loop only when the flag is set. -/
theorem main_inv (hs : mainStep s = some s') : Inv s' L ∧ s'.consumer = s.consumer := by
  unfold mainStep at hs
  split at hs
  · obtain rfl := Option.some.inj hs
    refine ⟨⟨h.holds, h.exact, h.done, fun hjoin => ?_⟩, rfl⟩
    by_contra hexit
    rw [if_neg hexit] at hjoin
    cases hjoin
  · obtain rfl := Option.some.inj hs
    exact ⟨⟨h.holds, h.exact, h.done, fun hjoin => by cases hjoin⟩, rfl⟩
  · cases hs

/-- **A request** is accepted at the end of the queue, or refused by a full one. -/
theorem request_inv {item : α} (hs : requestStep s item = some s') : ∃ L', Inv s' L' ∧
    s'.consumer = s.consumer ∧ (L' = L ++ [item] ∧ L.length + 1 ≠ s.queue.maxSize ∨
      L' = L ∧ L.length + 1 = s.queue.maxSize) := by
  unfold requestStep at hs
  split at hs
  · next hmain =>
    split at hs
    · next ret q hrun =>
      obtain rfl := Option.some.inj hs
      have hjoin : s.main ≠ .joining := by
        rw [hmain]
        rintro ⟨⟩
      rcases h.holds.enqueue hrun with ⟨rfl, hholds, hroom⟩ | ⟨hret, rfl, hfull⟩
      · refine ⟨L ++ [item], ⟨hholds, ?_, h.done, fun hj => absurd hj hjoin⟩, rfl,
          Or.inl ⟨rfl, hroom⟩⟩
        rw [if_pos rfl, h.exact, List.append_assoc]
      · refine ⟨L, ⟨h.holds, ?_, h.done, fun hj => absurd hj hjoin⟩, rfl, Or.inr ⟨rfl, hfull⟩⟩
        rw [if_neg hret, h.exact]
    · cases hs
  all_goals cases hs

/-- **A move of the queue thread**, which ends at its outer test only. -/
theorem consumer_inv (hs : consumerStep s = some s') : ∃ L', Inv s' L' ∧ s.consumer ≠ .done ∧
    (s'.consumer = .done → s.consumer = .testing ∧ s.exitNow = true ∧ L' = L) := by
  have hexact := h.exact
  unfold consumerStep at hs
  split at hs
  · next hc =>
    obtain rfl := Option.some.inj hs
    rw [hc] at hexact ⊢
    have hdone : (if s.exitNow = true then Consumer.done else .counting : Consumer α) = .done →
        s.exitNow = true := by
      intro hd
      by_contra hexit
      rw [if_neg hexit] at hd
      cases hd
    refine ⟨L, ⟨h.holds, ?_, hdone, h.joining⟩, by rintro ⟨⟩, fun hd => ⟨rfl, hdone hd, rfl⟩⟩
    split_ifs <;> exact hexact
  · next hc =>
    split at hs
    · next n q hrun =>
      obtain rfl := Option.some.inj hs
      rw [hc] at hexact ⊢
      obtain ⟨rfl, -⟩ := h.holds.count hrun
      have hne : (if n ≠ 0 then Consumer.taking else .sleeping : Consumer α) ≠ .done := by
        split_ifs <;> rintro ⟨⟩
      refine ⟨L, ⟨h.holds, ?_, fun hd => absurd hd hne, h.joining⟩, by rintro ⟨⟩,
        fun hd => absurd hd hne⟩
      split_ifs <;> exact hexact
    · cases hs
  · next hc =>
    split at hs
    · next item q hrun =>
      obtain rfl := Option.some.inj hs
      rw [hc] at hexact ⊢
      obtain ⟨L', rfl, hholds⟩ := h.holds.dequeue hrun
      refine ⟨L', ⟨hholds, ?_, by rintro ⟨⟩, h.joining⟩, by rintro ⟨⟩, by rintro ⟨⟩⟩
      simpa [Consumer.inHand] using hexact
    · cases hs
  · next item hc =>
    obtain rfl := Option.some.inj hs
    rw [hc] at hexact ⊢
    refine ⟨L, ⟨h.holds, ?_, by rintro ⟨⟩, h.joining⟩, by rintro ⟨⟩, by rintro ⟨⟩⟩
    simpa [Consumer.inHand] using hexact
  · next hc =>
    obtain rfl := Option.some.inj hs
    rw [hc] at hexact ⊢
    exact ⟨L, ⟨h.holds, hexact, by rintro ⟨⟩, h.joining⟩, by rintro ⟨⟩, by rintro ⟨⟩⟩
  · cases hs

/-- **The step**: a thread that has ended leaves what is in the queue, and requests may come behind
it. -/
theorem step_inv {l : Label α} (hs : step s l = some s') :
    ∃ L', Inv s' L' ∧ (s.consumer = .done → s'.consumer = .done ∧ L <+: L') := by
  cases l with
  | signal =>
    obtain rfl := Option.some.inj hs
    exact ⟨L, signal_inv h, fun hd => ⟨hd, List.prefix_rfl⟩⟩
  | main =>
    obtain ⟨h', hc⟩ := main_inv h hs
    exact ⟨L, h', fun hd => ⟨hc.trans hd, List.prefix_rfl⟩⟩
  | request item =>
    obtain ⟨L', h', hc, hL⟩ := request_inv h hs
    refine ⟨L', h', fun hd => ⟨hc.trans hd, ?_⟩⟩
    rcases hL with ⟨rfl, -⟩ | ⟨rfl, -⟩
    · exact List.prefix_append _ _
    · exact List.prefix_rfl
  | consumer =>
    obtain ⟨L', h', hne, -⟩ := consumer_inv h hs
    exact ⟨L', h', fun hd => absurd hd hne⟩

end Step

/-! ### Runs -/

/-- **A drained step**: the queue thread ends with an empty queue, and it stays empty. -/
theorem drained_inv {s s' : State α} {L : List α} (h : Inv s L) (hempty : s.consumer = .done → L = [])
    {l : Label α} (hl : Drained s l) (hs : step s l = some s') :
    ∃ L', Inv s' L' ∧ (s'.consumer = .done → L' = []) := by
  have hcontents := h.holds.contents_eq
  cases l with
  | signal =>
    obtain rfl := Option.some.inj hs
    exact ⟨L, signal_inv h, hempty⟩
  | main =>
    obtain ⟨h', hc⟩ := main_inv h hs
    exact ⟨L, h', fun hd => hempty (hc ▸ hd)⟩
  | request item =>
    obtain ⟨L', h', hc, hL⟩ := request_inv h hs
    refine ⟨L', h', fun hd => ?_⟩
    have hdone : s.consumer = .done := hc ▸ hd
    have hfull := hl hdone
    rw [hcontents] at hfull
    rcases hL with ⟨-, hroom⟩ | ⟨rfl, -⟩
    · exact absurd hfull hroom
    · exact hempty hdone
  | consumer =>
    obtain ⟨L', h', hne, hend⟩ := consumer_inv h hs
    refine ⟨L', h', fun hd => ?_⟩
    obtain ⟨htest, hexit, rfl⟩ := hend hd
    rw [← hcontents]
    exact hl htest hexit

/-- The queue thread has ended, with items in the queue. -/
def Dropped (s : State α) : Prop := ∃ L, Inv s L ∧ s.consumer = .done ∧ L ≠ []

/-- **What was dropped is never handled.** -/
theorem dropped_stays {s s' : State α} (hrun : Reach step s s') (h : Dropped s) : Dropped s' := by
  refine Runs.invariant (P := Dropped) ?_ hrun h
  rintro s l s' ⟨L, hinv, hdone, hne⟩ - hs
  obtain ⟨L', hinv', hstay⟩ := step_inv hinv hs
  obtain ⟨hdone', hpre⟩ := hstay hdone
  refine ⟨L', hinv', hdone', fun hnil => hne ?_⟩
  rw [hnil] at hpre
  exact List.prefix_nil.mp hpre

theorem Dropped.not_kept {s : State α} (h : Dropped s) : ¬ Kept s := by
  obtain ⟨L, hinv, -, hne⟩ := h
  rintro ⟨hempty, -⟩
  exact hne (hinv.holds.contents_eq.symm.trans hempty)

/-- **A step that is not drained** drops items. -/
theorem undrained_drops {s s' : State α} {L : List α} (h : Inv s L) {l : Label α}
    (hl : ¬ Drained s l) (hs : step s l = some s') : Dropped s' := by
  have hcontents := h.holds.contents_eq
  cases l with
  | signal => exact absurd trivial hl
  | main => exact absurd trivial hl
  | request item =>
    obtain ⟨L', h', hc, hL⟩ := request_inv h hs
    simp only [Drained, hcontents, Classical.not_imp] at hl
    obtain ⟨hdone, hroom⟩ := hl
    refine ⟨L', h', hc.trans hdone, ?_⟩
    rcases hL with ⟨rfl, -⟩ | ⟨-, hfull⟩
    · exact List.append_ne_nil_of_right_ne_nil _ (List.cons_ne_nil _ _)
    · exact absurd hfull hroom
  | consumer =>
    simp only [Drained, hcontents, Classical.not_imp] at hl
    obtain ⟨htest, hexit, hne⟩ := hl
    simp only [step, consumerStep, htest, if_pos hexit] at hs
    obtain rfl := Option.some.inj hs
    have hexact := h.exact
    rw [htest] at hexact
    exact ⟨L, ⟨h.holds, hexact, fun _ => hexit, h.joining⟩, rfl, hne⟩

/-- When the queue thread has ended, the main thread can leave its loop. -/
theorem exits_of_done {s : State α} {L : List α} (h : Inv s L) (hdone : s.consumer = .done) :
    ∃ s', Reach step s s' ∧ Exited s' := by
  have hexit := h.done hdone
  obtain ⟨exitNow, queue, main, consumer, accepted, handled⟩ := s
  obtain rfl : exitNow = true := hexit
  obtain rfl : consumer = .done := hdone
  refine ⟨⟨true, queue, .joining, .done, accepted, handled⟩, ?_, rfl, rfl⟩
  cases main with
  | testing => exact reach_of_foldlM [.main] rfl
  | serving => exact reach_of_foldlM [.main, .main] rfl
  | joining => exact Runs.refl _

/-- A new queue holds nothing. -/
theorem holds_new [Inhabited α] {maxSize : ℕ} {q : RequestQueue α} (hnew : new maxSize = some q) :
    Holds q [] := by
  rcases Nat.eq_zero_or_pos maxSize with rfl | hpos
  · obtain rfl := Option.some.inj hnew
    exact Or.inr ⟨rfl, rfl⟩
  · exact Or.inl (new_represents hpos hnew).1

theorem start_inv [Inhabited α] {maxSize : ℕ} {q : RequestQueue α} (hnew : new maxSize = some q) :
    Inv (start q) [] :=
  ⟨holds_new hnew, rfl, by rintro ⟨⟩, by rintro ⟨⟩⟩

/-- **No acknowledged request is dropped exactly in the drained runs.** In a run whose steps are all
drained, for every queue size and every moment of the signal, the queue is empty and every accepted
item was handled once, wherever both loops have exited. A step that is not drained can be continued
until both loops have exited, and wherever they have, an accepted item was not handled. -/
theorem kept_iff_drained [Inhabited α] {maxSize : ℕ} {q : RequestQueue α}
    (hnew : new maxSize = some q) :
    (∀ s, Runs step Drained (start q) s → Exited s → Kept s) ∧
      ∀ s l s', Runs step Drained (start q) s → ¬ Drained s l → step s l = some s' →
        (∃ s'', Reach step s' s'' ∧ Exited s'') ∧
          ∀ s'', Reach step s' s'' → Exited s'' → ¬ Kept s'' := by
  have hinv : ∀ s, Runs step Drained (start q) s →
      ∃ L, Inv s L ∧ (s.consumer = .done → L = []) := by
    intro s hrun
    refine Runs.invariant (P := fun s => ∃ L, Inv s L ∧ (s.consumer = .done → L = [])) ?_ hrun
      ⟨[], start_inv hnew, fun _ => rfl⟩
    rintro s l s' ⟨L, h, hempty⟩ hl hs
    exact drained_inv h hempty hl hs
  constructor
  · rintro s hrun ⟨-, hdone⟩
    obtain ⟨L, h, hempty⟩ := hinv s hrun
    obtain rfl := hempty hdone
    have hexact := h.exact
    rw [hdone] at hexact
    exact ⟨h.holds.contents_eq, by simpa [Consumer.inHand] using hexact.symm⟩
  · intro s l s' hrun hl hs
    obtain ⟨L, h, -⟩ := hinv s hrun
    have hdropped := undrained_drops h hl hs
    refine ⟨?_, fun s'' hrun'' _ => (dropped_stays hrun'' hdropped).not_kept⟩
    obtain ⟨L', h', hdone, -⟩ := hdropped
    exact exits_of_done h' hdone

/-- An empty queue of three slots. -/
def emptyQueue : RequestQueue ℕ := ⟨3, [0, 0, 0], 0, 0⟩

/-- Two requests, one of them within the last `exec`, and a signal; the queue is drained. -/
theorem kept_iff_drained_two :
    Kept (⟨true, ⟨3, [7, 8, 0], 2, 2⟩, .joining, .done, [7, 8], [7, 8]⟩ : State ℕ) := by
  have hnew : new 3 = some emptyQueue := by decide
  refine (kept_iff_drained hnew).1 _ ?_ ⟨rfl, rfl⟩
  exact runs_of_foldlM [.main, .request 7, .consumer, .consumer, .request 8, .consumer, .consumer,
    .signal, .main, .main, .consumer, .consumer, .consumer, .consumer, .consumer, .consumer]
    (by decide +kernel)

/-- **A request that is dropped**: it is acknowledged while the queue thread sleeps, and before that
wakes up the signal arrives. -/
theorem acknowledged_dropped : ¬ ∀ (maxSize : ℕ) (q : RequestQueue ℕ) (s : State ℕ),
    new maxSize = some q → Reach step (start q) s → Exited s → Kept s := by
  intro h
  have hkept := h 3 emptyQueue ⟨true, ⟨3, [7, 0, 0], 0, 1⟩, .joining, .done, [7], []⟩ (by decide)
    (reach_of_foldlM [.main, .consumer, .consumer, .request 7, .signal, .consumer, .consumer, .main,
      .main] (by decide +kernel)) ⟨rfl, rfl⟩
  cases hkept.2

end CoapServer.Queue.Shutdown
