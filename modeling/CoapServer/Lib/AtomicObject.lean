import CoapServer.Lib.Trace
import Mathlib.Logic.Function.Basic

/-! # Atomic objects

A sequential object answers an operation and changes: `apply o op` is the answer and the new state.
Threads that share it call it in three moves: a thread *invokes* an operation, the operation is
*performed* at one instant, and the thread gets its *response*. Invocations and responses are seen, the
instants are not.

A list of events is *linearizable* if such an object has it as a trace: it is as if every call had
taken effect at one instant between its invocation and its response. -/

namespace CoapServer.Lib.AtomicObject

open CoapServer.Lib.Run CoapServer.Lib.Trace

variable {θ Op Res S : Type*} [DecidableEq θ]

/-- Where a thread is in its call. -/
inductive Call (Op Res : Type*) where
  | idle
  | invoked (op : Op)
  | performed (res : Res)
  deriving DecidableEq

/-- **The state**: of the object, and of the call of each thread. -/
structure State (θ Op Res S : Type*) where
  object : S
  call : θ → Call Op Res

/-- A move of a thread. -/
inductive Label (θ Op : Type*) where
  | invoke (t : θ) (op : Op)
  | perform (t : θ)
  | respond (t : θ)

/-- What is seen of a move. -/
inductive Event (θ Op Res : Type*) where
  | invoke (t : θ) (op : Op)
  | respond (t : θ) (res : Res)
  deriving DecidableEq

/-- A thread moves on in its call. -/
def State.setCall (s : State θ Op Res S) (t : θ) (c : Call Op Res) : State θ Op Res S :=
  { s with call := Function.update s.call t c }

variable (apply : S → Op → Res × S)

/-- The operation of a thread is performed. -/
def State.perform (s : State θ Op Res S) (t : θ) (op : Op) : State θ Op Res S :=
  { object := (apply s.object op).2
    call := Function.update s.call t (.performed (apply s.object op).1) }

/-- **The step.** -/
def step (s : State θ Op Res S) : Label θ Op → Option (State θ Op Res S)
  | .invoke t op =>
    match s.call t with
    | .idle => some (s.setCall t (.invoked op))
    | _ => none
  | .perform t =>
    match s.call t with
    | .invoked op => some (s.perform apply t op)
    | _ => none
  | .respond t =>
    match s.call t with
    | .performed _ => some (s.setCall t .idle)
    | _ => none

/-- The events of a move. -/
def seen (s : State θ Op Res S) : Label θ Op → List (Event θ Op Res)
  | .invoke t op => [.invoke t op]
  | .perform _ => []
  | .respond t =>
    match s.call t with
    | .performed res => [.respond t res]
    | _ => []

/-- No thread has made a call. -/
def start (o : S) : State θ Op Res S := { object := o, call := fun _ => .idle }

/-- The traces of the object. -/
abbrev AtomicTraces : State θ Op Res S → List (Event θ Op Res) → State θ Op Res S → Prop :=
  Traces (step apply) (fun _ _ => True) seen

/-- **Linearizable**: an atomic object in state `o` has the trace. -/
def Linearizable (o : S) (es : List (Event θ Op Res)) : Prop :=
  ∃ s, AtomicTraces apply (start o) es s

/-! ### Moves -/

section Moves
variable {apply} {s : State θ Op Res S} {t : θ}

theorem invoke_trace {op : Op} (hc : s.call t = .idle) :
    AtomicTraces apply s [.invoke t op] (s.setCall t (.invoked op)) := by
  have hstep : step apply s (.invoke t op) = some (s.setCall t (.invoked op)) := by
    simp only [step, hc]
  exact .single trivial hstep

theorem perform_trace {op : Op} {res : Res} {o : S} (hc : s.call t = .invoked op)
    (ho : apply s.object op = (res, o)) :
    AtomicTraces apply s [] { object := o, call := Function.update s.call t (.performed res) } := by
  have hstep : step apply s (.perform t) = some (s.perform apply t op) := by simp only [step, hc]
  have hperform : s.perform apply t op =
      { object := o, call := Function.update s.call t (.performed res) } := by
    rw [State.perform, ho]
  rw [← hperform]
  exact .single trivial hstep

theorem respond_trace {res : Res} (hc : s.call t = .performed res) :
    AtomicTraces apply s [.respond t res] (s.setCall t .idle) := by
  have hstep : step apply s (.respond t) = some (s.setCall t .idle) := by simp only [step, hc]
  have htrace : AtomicTraces apply s (seen s (.respond t)) (s.setCall t .idle) :=
    .single trivial hstep
  simpa only [seen, hc] using htrace

/-- A call at one instant. -/
theorem call_trace {op : Op} {res : Res} {o : S} (hc : s.call t = .idle)
    (ho : apply s.object op = (res, o)) :
    AtomicTraces apply s [.invoke t op, .respond t res] { object := o, call := s.call } := by
  have hinvoke : AtomicTraces apply s [.invoke t op] (s.setCall t (.invoked op)) :=
    invoke_trace hc
  let s₁ : State θ Op Res S :=
    { object := o, call := Function.update (s.setCall t (.invoked op)).call t (.performed res) }
  have hperform : AtomicTraces apply (s.setCall t (.invoked op)) [] s₁ :=
    perform_trace (Function.update_self _ _ _) ho
  have hrespond : AtomicTraces apply s₁ [.respond t res] (s₁.setCall t .idle) :=
    respond_trace (Function.update_self _ _ _)
  have hend : Function.update s.call t .idle = s.call := by rw [← hc, Function.update_eq_self]
  simpa [s₁, State.setCall, hend] using (hinvoke.trans hperform).trans hrespond

end Moves

/-! ### Calls under way -/

/-- The thread has a call under way after the events. -/
def pending (t : θ) (es : List (Event θ Op Res)) : Bool :=
  es.foldl (fun b e => match e with
    | .invoke t' _ => if t' = t then true else b
    | .respond t' _ => if t' = t then false else b) false

@[simp] theorem pending_nil (t : θ) : pending t ([] : List (Event θ Op Res)) = false := rfl

@[simp] theorem pending_invoke (t t' : θ) (op : Op) (es : List (Event θ Op Res)) :
    pending t (es ++ [.invoke t' op]) = if t' = t then true else pending t es := by
  simp [pending, List.foldl_append]

@[simp] theorem pending_respond (t t' : θ) (res : Res) (es : List (Event θ Op Res)) :
    pending t (es ++ [.respond t' res]) = if t' = t then false else pending t es := by
  simp [pending, List.foldl_append]

/-- **The events show who has a call under way.** -/
theorem pending_iff {o : S} {es : List (Event θ Op Res)} {s : State θ Op Res S}
    (h : AtomicTraces apply (start o) es s) (t : θ) : pending t es = true ↔ s.call t ≠ .idle := by
  refine Traces.invariant (P := fun es s => ∀ t, pending t es = true ↔ s.call t ≠ .idle) ?_ h
    (fun t => by simp [start]) t
  intro es s l s' ih _ hs t
  have hother : ∀ {t' : θ} (c : Call Op Res), t' ≠ t → (Function.update s.call t' c) t = s.call t :=
    fun c hne => Function.update_of_ne (Ne.symm hne) _ _
  cases l with
  | invoke t' op =>
    simp only [step] at hs
    split at hs
    · obtain rfl := Option.some.inj hs
      by_cases ht : t' = t
      · subst ht
        simp [seen, State.setCall]
      · simp [seen, State.setCall, ht, hother, ih t]
    · cases hs
  | perform t' =>
    simp only [step] at hs
    split at hs
    · next op hc =>
      obtain rfl := Option.some.inj hs
      by_cases ht : t' = t
      · subst ht
        simp [seen, State.perform, ih t', hc]
      · simp [seen, State.perform, hother _ ht, ih t]
    · cases hs
  | respond t' =>
    simp only [step] at hs
    split at hs
    · next res hc =>
      obtain rfl := Option.some.inj hs
      by_cases ht : t' = t
      · subst ht
        simp [seen, State.setCall, hc]
      · simp [seen, State.setCall, hc, ht, hother, ih t]
    · cases hs

end CoapServer.Lib.AtomicObject
