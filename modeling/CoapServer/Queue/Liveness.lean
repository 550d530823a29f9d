import CoapServer.Queue.Shutdown
import CoapServer.Lib.Fairness

/-! # What must happen

The threads of `main`: its loop and the queue thread are those of `Shutdown`; the value thread tests
`_exit_now` between its updates, and behind its loop `main` joins both threads before it returns.

In a fair execution every acknowledged item is handled or the signal comes (`handled_eventually`):
while `k` items are waited for, no move of another thread raises `workRank`, and each move of the queue
thread lowers it. Once the signal has come each thread ends, one after the other: the main loop
(`main_leaves`), with it the requests, then the queue thread (`queue_ends`, `drainRank`) and the value
thread (`value_ends`), and both joins (`joins_end`). So `main` returns exactly if the signal comes
(`returns_iff_signal`). -/

namespace CoapServer.Queue.Liveness

open CoapServer.Basic CoapServer.Lib.Run CoapServer.Lib.Fairness CoapServer.Queue.Sequential
  CoapServer.Queue.Shutdown

variable {α : Type}

/-! ### The process -/

/-- **The value thread**: before its test, in `valueUpdate`, asleep, or ended. -/
inductive Updater where
  | testing
  | updating
  | sleeping
  | done
  deriving DecidableEq

/-- Behind the loop of `main`: what it waits for. -/
inductive Joins where
  | queueThread
  | valueThread
  | returned
  deriving DecidableEq

/-- **The process.** -/
structure Process (α : Type) where
  threads : State α
  updater : Updater
  joins : Joins
  deriving DecidableEq

/-- Who moves. -/
inductive Thread (α : Type) where
  | of (l : Label α)
  | updater
  | join

/-- A move of the value thread. -/
def updaterMove (exitNow : Bool) : Updater → Option Updater
  | .testing => some (if exitNow then .done else .updating)
  | .updating => some .sleeping
  | .sleeping => some .testing
  | .done => none

/-- A join of `main` that is over. -/
def joinStep (p : Process α) : Option (Process α) :=
  match p.threads.main, p.joins, p.threads.consumer, p.updater with
  | .joining, .queueThread, .done, _ => some { p with joins := .valueThread }
  | .joining, .valueThread, _, .done => some { p with joins := .returned }
  | _, _, _, _ => none

/-- **The step** of the process. -/
def step (p : Process α) : Thread α → Option (Process α)
  | .of l => (Shutdown.step p.threads l).map fun s => { p with threads := s }
  | .updater => (updaterMove p.threads.exitNow p.updater).map fun u => { p with updater := u }
  | .join => joinStep p

/-- `main` has started its threads. -/
def boot (q : RequestQueue α) : Process α := ⟨start q, .testing, .queueThread⟩

/-- Every thread of the process goes on. -/
structure Fair (e : Execution (step (α := α))) : Prop where
  main : e.Fair (.of .main)
  consumer : e.Fair (.of .consumer)
  updater : e.Fair .updater
  join : e.Fair .join

/-! ### The queue thread -/

/-- **What holds in every state** of a queue with slots: an item is taken only where there is one. -/
structure Live (s : State α) (L : List α) : Prop where
  rep : Represents s.queue L
  exact : s.accepted = s.handled ++ s.consumer.inHand ++ L
  ready : s.consumer = .taking → L ≠ []

/-- **What a move of the queue thread does**, with the lists before and after it. -/
inductive Advance (s : State α) : List α → State α → List α → Prop where
  | leave {L : List α} (hc : s.consumer = .testing) (hexit : s.exitNow = true) :
      Advance s L { s with consumer := .done } L
  | enter {L : List α} (hc : s.consumer = .testing) (hexit : s.exitNow = false) :
      Advance s L { s with consumer := .counting } L
  | sleep (hc : s.consumer = .counting) : Advance s [] { s with consumer := .sleeping } []
  | found {item : α} {L : List α} (hc : s.consumer = .counting) :
      Advance s (item :: L) { s with consumer := .taking } (item :: L)
  | take {item : α} {L : List α} {q : RequestQueue α} (hc : s.consumer = .taking)
      (hq : Represents q L) :
      Advance s (item :: L) { s with queue := q, consumer := .handling item } L
  | handle {item : α} {L : List α} (hc : s.consumer = .handling item) :
      Advance s L { s with consumer := .counting, handled := s.handled ++ [item] } L
  | wake {L : List α} (hc : s.consumer = .sleeping) :
      Advance s L { s with consumer := .testing } L

/-- **The queue thread can move** until it has ended. -/
theorem Live.advance {s : State α} {L : List α} (h : Live s L) (hne : s.consumer ≠ .done) :
    ∃ s' L', consumerStep s = some s' ∧ Advance s L s' L' := by
  unfold consumerStep
  cases hc : s.consumer with
  | testing =>
    by_cases hexit : s.exitNow = true
    · rw [if_pos hexit]
      exact ⟨_, _, rfl, .leave hc hexit⟩
    · rw [if_neg hexit]
      exact ⟨_, _, rfl, .enter hc (Bool.eq_false_iff.mpr hexit)⟩
  | counting =>
    simp only [count_run h.rep]
    cases L with
    | nil => exact ⟨_, _, rfl, .sleep hc⟩
    | cons item L => exact ⟨_, _, rfl, .found hc⟩
  | taking =>
    cases L with
    | nil => exact absurd rfl (h.ready hc)
    | cons item L =>
      obtain ⟨q, hrun, hq, -⟩ := dequeue_cons h.rep
      simp only [hrun]
      exact ⟨_, _, rfl, .take hc hq⟩
  | handling item => exact ⟨_, _, rfl, .handle hc⟩
  | sleeping => exact ⟨_, _, rfl, .wake hc⟩
  | done => exact absurd hc hne

/-- A move keeps what holds in every state. -/
theorem Advance.live {s s' : State α} {L L' : List α} (ha : Advance s L s' L') (h : Live s L) :
    Live s' L' := by
  have hexact := h.exact
  cases ha with
  | leave hc | enter hc | wake hc | sleep hc =>
    rw [hc] at hexact
    exact ⟨h.rep, hexact, by rintro ⟨⟩⟩
  | found hc =>
    rw [hc] at hexact
    exact ⟨h.rep, hexact, fun _ => List.cons_ne_nil _ _⟩
  | take hc hq =>
    rw [hc] at hexact
    exact ⟨hq, by simpa [Consumer.inHand] using hexact, by rintro ⟨⟩⟩
  | handle hc =>
    rw [hc] at hexact
    exact ⟨h.rep, by simpa [Consumer.inHand] using hexact, by rintro ⟨⟩⟩

/-- What it leaves alone. -/
theorem Advance.frame {s s' : State α} {L L' : List α} (ha : Advance s L s' L') :
    s'.exitNow = s.exitNow ∧ s'.main = s.main ∧ s'.accepted = s.accepted := by
  cases ha <;> exact ⟨rfl, rfl, rfl⟩

/-- A move that was made is one of these. -/
theorem Live.advance_of_step {s s' : State α} {L : List α} (h : Live s L)
    (hs : consumerStep s = some s') : ∃ L', Advance s L s' L' := by
  have hne : s.consumer ≠ .done := by
    intro hdone
    simp only [consumerStep, hdone] at hs
    cases hs
  obtain ⟨s₁, L₁, hs₁, ha⟩ := h.advance hne
  obtain rfl := Option.some.inj (hs₁.symm.trans hs)
  exact ⟨L₁, ha⟩

/-- **A request** is added behind the list, or refused. -/
theorem Live.request {s s' : State α} {L : List α} (h : Live s L) {item : α}
    (hs : requestStep s item = some s') : s.main = .serving ∧
      ∃ q L' more, Live s' L' ∧ s' = { s with queue := q, accepted := s.accepted ++ more } := by
  unfold requestStep at hs
  split at hs
  · next hmain =>
    refine ⟨hmain, ?_⟩
    have hr := h.rep.room
    rcases Nat.lt_or_ge (L.length + 1) s.queue.maxSize with hroom | hfull
    · obtain ⟨q, hrun, hq, -⟩ := enqueue_room h.rep hroom item
      simp only [hrun, if_pos] at hs
      obtain rfl := Option.some.inj hs
      refine ⟨q, L ++ [item], [item], ⟨hq, ?_, fun _ => ?_⟩, rfl⟩
      · rw [h.exact, List.append_assoc]
      · exact List.append_ne_nil_of_right_ne_nil _ (List.cons_ne_nil _ _)
    · rw [enqueue_full h.rep (by omega) item] at hs
      obtain rfl := Option.some.inj hs
      exact ⟨s.queue, L, [], ⟨h.rep, by simpa using h.exact, h.ready⟩, by simp⟩
  all_goals cases hs

/-! ### The ranks of the queue thread -/

/-- The moves until the queue thread handles the item it finds next. -/
def phase : Consumer α → ℕ
  | .handling _ => 1
  | .taking => 2
  | .counting => 3
  | .testing => 4
  | .sleeping => 5
  | .done => 0

/-- **The moves until `k` items are handled**, at most. -/
def workRank (k : ℕ) (s : State α) : ℕ := 5 * (k - s.handled.length) + phase s.consumer

/-- **The moves until the queue thread ends**, once the flag is set and no item comes. -/
def drainRank (s : State α) : ℕ :=
  match s.consumer with
  | .done => 0
  | .testing => 1
  | .sleeping => 2
  | .taking => 3 * (contents s.queue).length + 2
  | .counting => 3 * (contents s.queue).length + 3
  | .handling _ => 3 * (contents s.queue).length + 4

/-- A move brings the next item closer, as long as there is one. -/
theorem Advance.workRank_lt {s s' : State α} {L L' : List α} (ha : Advance s L s' L')
    (h : Live s L) (hexit : s.exitNow = false) {k : ℕ} (hk : k ≤ s.accepted.length)
    (hlt : s.handled.length < k) : workRank k s' < workRank k s := by
  unfold workRank
  cases ha with
  | leave hc hexit' =>
    rw [hexit] at hexit'
    cases hexit'
  | sleep hc =>
    -- nothing is in hand and nothing in the queue
    have hexact := h.exact
    rw [hc] at hexact
    have hlen := congrArg List.length hexact
    simp only [Consumer.inHand, List.append_nil] at hlen
    omega
  | handle hc =>
    simp only [hc, phase, List.length_append, List.length_singleton]
    omega
  | enter hc | found hc | take hc | wake hc =>
    simp only [hc, phase]
    omega

/-- A move brings the end closer, once the flag is set. -/
theorem Advance.drainRank_lt {s s' : State α} {L L' : List α} (ha : Advance s L s' L')
    (h : Live s L) (hexit : s.exitNow = true) : drainRank s' < drainRank s := by
  have hL := h.rep.contents_eq
  have hL' := (ha.live h).rep.contents_eq
  unfold drainRank
  rw [hL, hL']
  cases ha with
  | enter hc hexit' =>
    rw [hexit] at hexit'
    cases hexit'
  | leave hc | sleep hc | found hc | wake hc | handle hc =>
    simp only [hc]
    omega
  | take hc =>
    simp only [hc, List.length_cons]
    omega

/-! ### One move of the process -/

/-- The queue thread has not failed. -/
def Running (p : Process α) : Prop := ∃ L, Live p.threads L

/-- **What a move does**, and what it leaves alone. -/
inductive Does (p : Process α) : Thread α → Process α → Prop where
  | signal : Does p (.of .signal) { p with threads := { p.threads with exitNow := true } }
  | test (hm : p.threads.main = .testing) : Does p (.of .main)
      { p with threads := { p.threads with
        main := if p.threads.exitNow then .joining else .serving } }
  | exec (hm : p.threads.main = .serving) : Does p (.of .main)
      { p with threads := { p.threads with main := .testing } }
  | request {item : α} {q : RequestQueue α} {L : List α} {more : List α}
      (hm : p.threads.main = .serving)
      (hlive : Live { p.threads with queue := q, accepted := p.threads.accepted ++ more } L) :
      Does p (.of (.request item))
        { p with threads := { p.threads with queue := q, accepted := p.threads.accepted ++ more } }
  | consumer {s : State α} {L L' : List α} (hlive : Live p.threads L)
      (hadvance : Advance p.threads L s L') : Does p (.of .consumer) { p with threads := s }
  | updater {u : Updater} (hu : updaterMove p.threads.exitNow p.updater = some u) :
      Does p .updater { p with updater := u }
  | joinQueue (hm : p.threads.main = .joining) (hj : p.joins = .queueThread)
      (hc : p.threads.consumer = .done) : Does p .join { p with joins := .valueThread }
  | joinValue (hm : p.threads.main = .joining) (hj : p.joins = .valueThread)
      (hu : p.updater = .done) : Does p .join { p with joins := .returned }

/-- **Every move is one of these.** -/
theorem does_of_step {p p' : Process α} {t : Thread α} (h : Running p)
    (hs : step p t = some p') : Does p t p' := by
  obtain ⟨L, hL⟩ := h
  cases t with
  | of l =>
    obtain ⟨s, hl, rfl⟩ := Option.map_eq_some_iff.mp hs
    clear hs
    cases l with
    | signal =>
      obtain rfl := Option.some.inj hl
      exact .signal
    | main =>
      simp only [Shutdown.step, mainStep] at hl
      split at hl
      · next hm =>
        obtain rfl := Option.some.inj hl
        exact .test hm
      · next hm =>
        obtain rfl := Option.some.inj hl
        exact .exec hm
      · cases hl
    | request item =>
      obtain ⟨hm, q, L', more, hlive, rfl⟩ := hL.request hl
      exact .request hm hlive
    | consumer =>
      obtain ⟨L', ha⟩ := hL.advance_of_step hl
      exact .consumer hL ha
  | updater =>
    obtain ⟨u, hu, rfl⟩ := Option.map_eq_some_iff.mp hs
    exact .updater hu
  | join =>
    simp only [step, joinStep] at hs
    split at hs
    · next hm hj hc =>
      obtain rfl := Option.some.inj hs
      exact .joinQueue hm hj hc
    · next hm hj hu =>
      obtain rfl := Option.some.inj hs
      exact .joinValue hm hj hu
    · cases hs

/-- **What no move undoes.** -/
structure Later (p p' : Process α) : Prop where
  running : Running p'
  accepted : p.threads.accepted <+: p'.threads.accepted
  signalled : p.threads.exitNow = true → p'.threads.exitNow = true
  left : p.threads.main = .joining → p'.threads.main = .joining
  queueEnded : p.threads.consumer = .done → p'.threads.consumer = .done
  valueEnded : p.updater = .done → p'.updater = .done
  returned : p.joins = .returned → p'.joins = .returned

theorem Does.later {p p' : Process α} {t : Thread α} (h : Running p) (hd : Does p t p') :
    Later p p' := by
  obtain ⟨L, hL⟩ := h
  cases hd with
  | signal =>
    exact ⟨⟨L, ⟨hL.rep, hL.exact, hL.ready⟩⟩, List.prefix_rfl, fun _ => rfl, id, id, id, id⟩
  | test hm =>
    refine ⟨⟨L, ⟨hL.rep, hL.exact, hL.ready⟩⟩, List.prefix_rfl, id, fun hj => ?_, id, id, id⟩
    rw [hm] at hj
    cases hj
  | exec hm =>
    refine ⟨⟨L, ⟨hL.rep, hL.exact, hL.ready⟩⟩, List.prefix_rfl, id, fun hj => ?_, id, id, id⟩
    rw [hm] at hj
    cases hj
  | request hm hlive =>
    exact ⟨⟨_, hlive⟩, List.prefix_append _ _, id, id, id, id, id⟩
  | consumer hlive ha =>
    obtain ⟨hexit, hmain, hacc⟩ := ha.frame
    refine ⟨⟨_, ha.live hlive⟩, hacc ▸ List.prefix_rfl, fun hx => hexit.trans hx,
      fun hj => hmain.trans hj, fun hdone => ?_, id, id⟩
    cases ha with
    | leave => rfl
    | enter hc | sleep hc | found hc | take hc | handle hc | wake hc =>
      rw [hc] at hdone
      cases hdone
  | updater hu =>
    refine ⟨⟨L, hL⟩, List.prefix_rfl, id, id, id, fun hdone => ?_, id⟩
    rw [hdone] at hu
    cases hu
  | joinQueue hm hj =>
    refine ⟨⟨L, hL⟩, List.prefix_rfl, id, id, id, id, fun hr => ?_⟩
    rw [hj] at hr
    cases hr
  | joinValue => exact ⟨⟨L, hL⟩, List.prefix_rfl, id, id, id, id, fun _ => rfl⟩

/-- Only the signal sets the flag. -/
theorem Does.eq_signal {p p' : Process α} {t : Thread α} (hd : Does p t p')
    (hnot : ¬ p.threads.exitNow = true) (hexit : p'.threads.exitNow = true) :
    t = .of .signal := by
  cases hd with
  | signal => rfl
  | consumer hlive ha => exact absurd (ha.frame.1.symm.trans hexit) hnot
  | test | exec | request | updater | joinQueue | joinValue => exact absurd hexit hnot

theorem later_of_step {p p' : Process α} {t : Thread α} (h : Running p)
    (hs : step p t = some p') : Later p p' :=
  (does_of_step h hs).later h

theorem running_stable : Stable (step (α := α)) Running :=
  fun _ _ _ h hs => (later_of_step h hs).running

/-- **What holds wherever the flag is not set, or a join is over.** -/
structure Ordered (p : Process α) : Prop where
  left : p.threads.main = .joining → p.threads.exitNow = true
  ended : p.threads.consumer = .done → p.threads.exitNow = true
  joinedQueue : p.joins ≠ .queueThread → p.threads.main = .joining ∧ p.threads.consumer = .done
  joinedValue : p.joins = .returned → p.updater = .done

theorem Does.ordered {p p' : Process α} {t : Thread α} (h : Running p) (ho : Ordered p)
    (hd : Does p t p') : Ordered p' := by
  have hlater := hd.later h
  have hkeep : p'.joins = p.joins → (p'.threads.main = .joining → p'.threads.exitNow = true) →
      (p'.threads.consumer = .done → p'.threads.exitNow = true) → Ordered p' := by
    intro hj hleft hended
    refine ⟨hleft, hended, fun hne => ?_, fun hr => hlater.valueEnded (ho.joinedValue (hj ▸ hr))⟩
    obtain ⟨hm, hc⟩ := ho.joinedQueue (hj ▸ hne)
    exact ⟨hlater.left hm, hlater.queueEnded hc⟩
  cases hd with
  | signal => exact hkeep rfl (fun _ => rfl) fun _ => rfl
  | test hm =>
    refine hkeep rfl (fun hj => ?_) ho.ended
    by_contra hexit
    rw [if_neg hexit] at hj
    cases hj
  | exec => exact hkeep rfl (fun hj => by cases hj) ho.ended
  | request hm => exact hkeep rfl ho.left ho.ended
  | consumer hlive ha =>
    obtain ⟨hexit, hmain, -⟩ := ha.frame
    refine hkeep rfl (fun hj => hexit.trans (ho.left (hmain.symm.trans hj))) fun hdone => ?_
    cases ha with
    | leave hc hexit' => exact hexit'
    | enter | sleep | found | take | handle | wake => cases hdone
  | updater => exact hkeep rfl ho.left ho.ended
  | joinQueue hm hj hc => exact ⟨ho.left, ho.ended, fun _ => ⟨hm, hc⟩, by rintro ⟨⟩⟩
  | joinValue hm hj hu =>
    exact ⟨ho.left, ho.ended, fun _ => ho.joinedQueue (by rw [hj]; rintro ⟨⟩), fun _ => hu⟩

/-- Both, as no move destroys them. -/
def Sound (p : Process α) : Prop := Running p ∧ Ordered p

theorem sound_stable : Stable (step (α := α)) Sound := by
  rintro p t p' ⟨h, ho⟩ hs
  have hd := does_of_step h hs
  exact ⟨(hd.later h).running, hd.ordered h ho⟩

theorem boot_sound [Inhabited α] {maxSize : ℕ} (hpos : 0 < maxSize) {q : RequestQueue α}
    (hnew : new maxSize = some q) : Sound (boot q) :=
  ⟨⟨[], (new_represents hpos hnew).1, rfl, by rintro ⟨⟩⟩, by rintro ⟨⟩, by rintro ⟨⟩,
    fun h => absurd rfl h, by rintro ⟨⟩⟩

/-! ### Progress -/

section Progress
variable {e : Execution (step (α := α))}

/-- The queue thread handles `k` items that are accepted, or the signal comes. -/
theorem works (hfair : e.Fair (.of .consumer)) (k : ℕ) :
    e.LeadsTo (fun p => Sound p ∧ k ≤ p.threads.accepted.length)
      fun p => p.threads.exitNow = true ∨ k ≤ p.threads.handled.length := by
  refine Execution.leadsTo_of_rank hfair (Φ := fun p => workRank k p.threads) ?_ ?_ ?_
  · rintro p t p' ⟨h, hk⟩ hs
    exact ⟨sound_stable p t p' h hs, hk.trans (later_of_step h.1 hs).accepted.length_le⟩
  · rintro p t p' ⟨h, hk⟩ hQ hs
    push Not at hQ
    cases does_of_step h.1 hs with
    | consumer hlive ha =>
      exact Or.inr (ha.workRank_lt hlive (by simpa using hQ.1) hk hQ.2).le
    | signal | test | exec | request | updater | joinQueue | joinValue => exact Or.inr le_rfl
  · rintro p ⟨⟨⟨L, hL⟩, ho⟩, hk⟩ hQ
    push Not at hQ
    have hne : p.threads.consumer ≠ .done := fun hdone => hQ.1 (ho.ended hdone)
    obtain ⟨s', L', hs, ha⟩ := hL.advance hne
    refine ⟨{ p with threads := s' }, ?_, Or.inr (ha.workRank_lt hL (by simpa using hQ.1) hk hQ.2)⟩
    exact Option.map_eq_some_iff.mpr ⟨s', hs, rfl⟩

/-- The moves until `main` is behind its loop, once the flag is set. -/
def mainRank : Main → ℕ
  | .joining => 0
  | .testing => 1
  | .serving => 2

/-- The moves until the value thread ends, once the flag is set. -/
def updaterRank : Updater → ℕ
  | .done => 0
  | .testing => 1
  | .sleeping => 2
  | .updating => 3

/-- The joins before `main` returns. -/
def joinsRank : Joins → ℕ
  | .returned => 0
  | .valueThread => 1
  | .queueThread => 2

/-- The signal has come. -/
def Signalled (p : Process α) : Prop := Sound p ∧ p.threads.exitNow = true

theorem signalled_stable : Stable (step (α := α)) Signalled :=
  fun p t p' h hs => ⟨sound_stable p t p' h.1 hs, (later_of_step h.1.1 hs).signalled h.2⟩

/-- `main` leaves its loop. -/
theorem main_leaves (hfair : e.Fair (.of .main)) :
    e.LeadsTo Signalled fun p => p.threads.main = .joining := by
  refine Execution.leadsTo_of_rank hfair (Φ := fun p => mainRank p.threads.main)
    signalled_stable ?_ ?_
  · rintro p t p' ⟨h, hexit⟩ hQ hs
    cases does_of_step h.1 hs with
    | test hm => exact Or.inl (if_pos hexit)
    | exec hm =>
      rw [hm]
      exact Or.inr Nat.one_lt_two.le
    | consumer hlive ha =>
      simp only [ha.frame.2.1]
      exact Or.inr le_rfl
    | signal | request | updater | joinQueue | joinValue => exact Or.inr le_rfl
  · rintro p ⟨h, hexit⟩ hQ
    simp only [step, Shutdown.step, mainStep]
    cases hm : p.threads.main with
    | testing => exact ⟨_, rfl, Or.inl (if_pos hexit)⟩
    | serving => exact ⟨_, rfl, Or.inr Nat.one_lt_two⟩
    | joining => exact absurd hm hQ

/-- `main` is behind its loop, so there are no requests. -/
def Left (p : Process α) : Prop := Signalled p ∧ p.threads.main = .joining

theorem left_stable : Stable (step (α := α)) Left :=
  fun p t p' h hs => ⟨signalled_stable p t p' h.1 hs, (later_of_step h.1.1.1 hs).left h.2⟩

/-- The queue thread empties the queue and ends. -/
theorem queue_ends (hfair : e.Fair (.of .consumer)) :
    e.LeadsTo Left fun p => p.threads.consumer = .done := by
  refine Execution.leadsTo_of_rank hfair (Φ := fun p => drainRank p.threads) left_stable ?_ ?_
  · rintro p t p' ⟨⟨h, hexit⟩, hmain⟩ hQ hs
    cases does_of_step h.1 hs with
    | consumer hlive ha => exact Or.inr (ha.drainRank_lt hlive hexit).le
    | request hm =>
      rw [hmain] at hm
      cases hm
    | signal | test | exec | updater | joinQueue | joinValue => exact Or.inr le_rfl
  · rintro p ⟨⟨⟨⟨L, hL⟩, -⟩, hexit⟩, -⟩ hQ
    obtain ⟨s', L', hs, ha⟩ := hL.advance hQ
    refine ⟨{ p with threads := s' }, ?_, Or.inr (ha.drainRank_lt hL hexit)⟩
    exact Option.map_eq_some_iff.mpr ⟨s', hs, rfl⟩

/-- A move of the value thread brings its end closer, once the flag is set. -/
theorem updaterRank_lt {u u' : Updater} (hu : updaterMove true u = some u') :
    updaterRank u' < updaterRank u := by
  cases u <;> cases hu <;> decide

/-- The value thread ends. -/
theorem value_ends (hfair : e.Fair .updater) : e.LeadsTo Signalled fun p => p.updater = .done := by
  refine Execution.leadsTo_of_rank hfair (Φ := fun p => updaterRank p.updater)
    signalled_stable ?_ ?_
  · rintro p t p' ⟨h, hexit⟩ hQ hs
    cases does_of_step h.1 hs with
    | updater hu =>
      rw [hexit] at hu
      exact Or.inr (updaterRank_lt hu).le
    | signal | test | exec | request | consumer | joinQueue | joinValue => exact Or.inr le_rfl
  · rintro p ⟨h, hexit⟩ hQ
    have hmove : ∃ u, updaterMove true p.updater = some u := by
      cases hu : p.updater with
      | testing | updating | sleeping => exact ⟨_, rfl⟩
      | done => exact absurd hu hQ
    obtain ⟨u, hu⟩ := hmove
    refine ⟨{ p with updater := u }, ?_, Or.inr (updaterRank_lt hu)⟩
    exact Option.map_eq_some_iff.mpr ⟨u, by rw [hexit, hu], rfl⟩

/-- The queue thread has ended, behind the last request. -/
def QueueEnded (p : Process α) : Prop := Left p ∧ p.threads.consumer = .done

theorem queueEnded_stable : Stable (step (α := α)) QueueEnded :=
  fun p t p' h hs => ⟨left_stable p t p' h.1 hs, (later_of_step h.1.1.1.1 hs).queueEnded h.2⟩

/-- All threads have left their loops. -/
def Ended (p : Process α) : Prop := QueueEnded p ∧ p.updater = .done

theorem ended_stable : Stable (step (α := α)) Ended :=
  fun p t p' h hs =>
    ⟨queueEnded_stable p t p' h.1 hs, (later_of_step h.1.1.1.1.1 hs).valueEnded h.2⟩

/-- `main` joins both threads and returns. -/
theorem joins_end (hfair : e.Fair .join) : e.LeadsTo Ended fun p => p.joins = .returned := by
  refine Execution.leadsTo_of_rank hfair (Φ := fun p => joinsRank p.joins) ended_stable ?_ ?_
  · rintro p t p' ⟨⟨h, -⟩, -⟩ hQ hs
    cases does_of_step h.1.1.1 hs with
    | joinQueue hm hj =>
      rw [hj]
      exact Or.inr Nat.one_lt_two.le
    | joinValue => exact Or.inl rfl
    | signal | test | exec | request | consumer | updater => exact Or.inr le_rfl
  · rintro p ⟨⟨h, hc⟩, hu⟩ hQ
    simp only [step, joinStep, h.2, hc, hu]
    cases hj : p.joins with
    | queueThread => exact ⟨_, rfl, Or.inr Nat.one_lt_two⟩
    | valueThread => exact ⟨_, rfl, Or.inl rfl⟩
    | returned => exact absurd hj hQ

/-- **After the signal `main` returns.** -/
theorem returns (hfair : Fair e) : e.LeadsTo Signalled fun p => p.joins = .returned := by
  have hleft : e.LeadsTo Signalled Left := (main_leaves hfair.main).keep signalled_stable
  have hqueue : e.LeadsTo Left QueueEnded := (queue_ends hfair.consumer).keep left_stable
  have hended : e.LeadsTo QueueEnded Ended :=
    ((value_ends hfair.updater).of_imp fun p h => h.1.1).keep queueEnded_stable
  exact ((hleft.trans hqueue).trans hended).trans (joins_end hfair.join)

end Progress

/-! ### A run -/

/-- Two requests while the queue thread works, then the signal. -/
def busyRun : List (Thread ℕ) :=
  [.of .main, .updater, .of (.request 7), .of .consumer, .of .consumer, .of (.request 8),
    .of .consumer, .of .consumer, .of .signal, .updater, .of .main, .of .main, .of .consumer,
    .of .consumer, .of .consumer, .of .consumer, .of .consumer, .of .consumer, .updater, .updater,
    .join, .join]

/-- Its end. -/
def busyEnd : Process ℕ :=
  ⟨⟨true, ⟨3, [7, 8, 0], 2, 2⟩, .joining, .done, [7, 8], [7, 8]⟩, .done, .returned⟩

theorem busyRun_runs : busyRun.foldlM step (boot emptyQueue) = some busyEnd := by
  decide +kernel

/-- The execution of this run. -/
def busy : Execution (step (α := ℕ)) :=
  halting step busyRun (boot emptyQueue) (Option.isSome_of_eq_some busyRun_runs)

theorem busy_fair : Fair busy where
  main := halting_fair busyRun_runs rfl
  consumer := halting_fair busyRun_runs rfl
  updater := halting_fair busyRun_runs rfl
  join := halting_fair busyRun_runs rfl

theorem emptyQueue_new : new 3 = some emptyQueue := by decide

/-! ### The results -/

section Results
variable [Inhabited α] {maxSize : ℕ} {q : RequestQueue α} {e : Execution (step (α := α))}

/-- **What is acknowledged is handled**, as long as the signal does not come: in an execution that is
fair to the queue thread there is, for every round, a later one in which the flag is set or all items
accepted before the first have been handled, in their order. -/
theorem handled_eventually (hpos : 0 < maxSize) (hnew : new maxSize = some q)
    (h0 : e.state 0 = boot q) (hfair : e.Fair (.of .consumer)) (n : ℕ) : ∃ m, n ≤ m ∧
      ((e.state m).threads.exitNow = true ∨
        (e.state n).threads.accepted <+: (e.state m).threads.handled) := by
  have hsound : ∀ k, Sound (e.state k) := fun k =>
    e.stable sound_stable (Nat.zero_le k) (h0 ▸ boot_sound hpos hnew)
  obtain ⟨m, hnm, hexit | hlen⟩ := works hfair _ n ⟨hsound n, le_rfl⟩
  · exact ⟨m, hnm, Or.inl hexit⟩
  · refine ⟨m, hnm, Or.inr ?_⟩
    have hkeep : Stable (step (α := α)) fun p =>
        Sound p ∧ (e.state n).threads.accepted <+: p.threads.accepted := fun p t p' h hs =>
      ⟨sound_stable p t p' h.1 hs, h.2.trans (later_of_step h.1.1 hs).accepted⟩
    obtain ⟨⟨⟨L, hL⟩, -⟩, hold⟩ := e.stable hkeep hnm ⟨hsound n, List.prefix_rfl⟩
    have hhandled : (e.state m).threads.handled <+: (e.state m).threads.accepted := by
      rw [hL.exact, List.append_assoc]
      exact List.prefix_append _ _
    exact List.prefix_of_prefix_length_le hold hhandled hlen

theorem handled_eventually_busy : ∃ m, 7 ≤ m ∧ ((busy.state m).threads.exitNow = true ∨
    (busy.state 7).threads.accepted <+: (busy.state m).threads.handled) :=
  handled_eventually (by decide) emptyQueue_new rfl busy_fair.consumer 7

/-- **`main` returns exactly if the signal comes.** In every fair execution it has returned from some
round on if and only if a signal is delivered, and where it has, both threads have ended, and every
accepted item was handled, in order, or is one of those still in the queue. -/
theorem returns_iff_signal (hpos : 0 < maxSize) (hnew : new maxSize = some q)
    (h0 : e.state 0 = boot q) (hfair : Fair e) :
    ((∃ m, ∀ n, m ≤ n → (e.state n).joins = .returned) ↔
      ∃ n, e.label n = some (.of .signal)) ∧
    ∀ n, (e.state n).joins = .returned →
      (e.state n).threads.consumer = .done ∧ (e.state n).updater = .done ∧
        (e.state n).threads.accepted =
          (e.state n).threads.handled ++ contents (e.state n).threads.queue := by
  have hsound : ∀ k, Sound (e.state k) := fun k =>
    e.stable sound_stable (Nat.zero_le k) (h0 ▸ boot_sound hpos hnew)
  refine ⟨⟨?_, ?_⟩, ?_⟩
  · rintro ⟨m, hreturned⟩
    have ho := (hsound m).2
    have hexit := ho.left (ho.joinedQueue (by rw [hreturned m le_rfl]; rintro ⟨⟩)).1
    have hnot : ¬ (e.state 0).threads.exitNow = true := by
      rw [h0]
      exact Bool.false_ne_true
    obtain ⟨n, t, hbefore, hlabel, hs, hafter⟩ :=
      Execution.brought (P := fun p : Process α => p.threads.exitNow = true) hnot hexit
    exact ⟨n, hlabel.trans (congrArg some
      ((does_of_step (hsound n).1 hs).eq_signal hbefore hafter))⟩
  · rintro ⟨n, hlabel⟩
    have hround := e.round n
    rw [hlabel] at hround
    have hexit : (e.state (n + 1)).threads.exitNow = true := by
      rw [← Option.some.inj hround]
    obtain ⟨m, -, hm⟩ := returns hfair (n + 1) ⟨hsound (n + 1), hexit⟩
    have hkeep : Stable (step (α := α)) fun p => Running p ∧ p.joins = .returned :=
      fun p t p' h hs => ⟨running_stable p t p' h.1 hs, (later_of_step h.1 hs).returned h.2⟩
    exact ⟨m, fun k hk => (e.stable hkeep hk ⟨(hsound m).1, hm⟩).2⟩
  · intro n hreturned
    obtain ⟨⟨L, hL⟩, ho⟩ := hsound n
    have hdone := (ho.joinedQueue (by rw [hreturned]; rintro ⟨⟩)).2
    refine ⟨hdone, ho.joinedValue hreturned, ?_⟩
    have hexact := hL.exact
    rw [hdone] at hexact
    rw [hL.rep.contents_eq, hexact]
    simp [Consumer.inHand]

theorem returns_iff_signal_busy : ∃ m, ∀ n, m ≤ n → (busy.state n).joins = .returned :=
  (returns_iff_signal (by decide) emptyQueue_new rfl busy_fair).1.mpr ⟨8, rfl⟩

end Results

end CoapServer.Queue.Liveness
