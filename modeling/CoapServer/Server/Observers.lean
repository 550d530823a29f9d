import CoapServer.Server.Dispatch
import CoapServer.Server.Effects

/-! # Observers are told of every change

A resource that is observable notifies its observers wherever it gets a value: from an item, from the
data file, or at the start. So between any two states of a run the value is the same unless there has
been a notification in between, and a resource that is not observable never sends one
(`changes_are_notified`). -/

namespace CoapServer.Server.Observers

open CoapServer.Basic CoapServer.Config CoapServer.Lib.Frame CoapServer.Lib.Run
open CoapServer.Resources.Files CoapServer.Resources.Object CoapServer.Queue.Sequential
open CoapServer.Blocks.SessionData CoapServer.Server.World CoapServer.Server.Process
open CoapServer.Server.Dynamic CoapServer.Server.Creation CoapServer.Server.Machine
open CoapServer.Server.Effects
open CoapServer.Server.Dispatch (after_eq_some)

variable {κ : Type}

/-- **What has happened to an object since it was `r`**: its value has changed only with a
notification, and there is none if it is not observable. -/
structure Since (r r' : Resource) : Prop where
  config : r'.config = r.config
  counts : r.notified ≤ r'.notified
  changed : r.config.observable = true → r'.value ≠ r.value → r.notified < r'.notified
  silent : r.config.observable = false → r'.notified = r.notified

theorem Since.refl (r : Resource) : Since r r := ⟨rfl, le_rfl, fun _ h => absurd rfl h, fun _ => rfl⟩

theorem Since.trans {r r' r'' : Resource} (h : Since r r') (h' : Since r' r'') : Since r r'' := by
  refine ⟨h'.config.trans h.config, h.counts.trans h'.counts, fun hobs hne => ?_, fun hobs => ?_⟩
  · have hobs' : r'.config.observable = true := by rw [h.config, hobs]
    by_cases hsame : r'.value = r.value
    · exact Nat.lt_of_le_of_lt h.counts (h'.changed hobs' (hsame ▸ hne))
    · exact Nat.lt_of_lt_of_le (h.changed hobs hsame) h'.counts
  · have hobs' : r'.config.observable = false := by rw [h.config, hobs]
    exact (h'.silent hobs').trans (h.silent hobs)

/-! ### Calls -/

/-- **A value is given** and its observers notified. -/
theorem since_newValue (r : Resource) (value : Str) : Since r { r with value }.notifyObservers := by
  cases hobs : r.config.observable with
  | true =>
    have hrun : { r with value }.notifyObservers = { r with value, notified := r.notified + 1 } := by
      rw [Resource.notifyObservers, if_pos hobs]
    rw [hrun]
    exact ⟨rfl, Nat.le_succ _, fun _ _ => Nat.lt_succ_self _,
      fun h => absurd (hobs.symm.trans h) (by decide)⟩
  | false =>
    have hrun : { r with value }.notifyObservers = { r with value } := by
      rw [Resource.notifyObservers, if_neg (by rw [hobs]; decide)]
    rw [hrun]
    exact ⟨rfl, le_rfl, fun h => absurd (hobs.symm.trans h) (by decide), fun _ => rfl⟩

/-- The time of the last write does not matter. -/
theorem Since.time {r r' : Resource} (h : Since r r') (t : ℤ) :
    Since r { r' with dataFileWriteTime := t } := ⟨h.config, h.counts, h.changed, h.silent⟩

theorem since_setValue (r : Resource) (value : Str) : Yields (Since r) (r.setValue value) := by
  have hset := since_newValue r value
  exact Yields.ite (Yields.bind_any fun _ => Yields.bind_any fun _ => Yields.pure (hset.time _))
    (Yields.pure hset)

theorem since_valueUpdate (r : Resource) : Yields (Since r) r.valueUpdate := by
  have hsame := Since.refl r
  refine Yields.ite (Yields.pure hsame) (Yields.bind_any fun _ => Yields.ite (Yields.pure hsame) ?_)
  refine Yields.bind_any fun _ => Yields.ite (Yields.pure hsame) (Yields.bind_any fun data => ?_)
  exact Yields.pure ((since_newValue r data).time _)

/-! ### Steps -/

/-- **All objects have notified their observers.** -/
def Notified (w w' : CoAPServer κ) : Prop :=
  ∀ (i : ℕ) (r : Resource), w.resources[i]? = some r →
    ∃ r', w'.resources[i]? = some r' ∧ Since r r'

section Notified
variable {w w' w'' : CoAPServer κ}

theorem Notified.of_eq (h : w'.resources = w.resources) : Notified w w' :=
  fun _ r hr => ⟨r, h ▸ hr, Since.refl r⟩

theorem Notified.refl (w : CoAPServer κ) : Notified w w := Notified.of_eq rfl

theorem Notified.trans (h : Notified w w') (h' : Notified w' w'') : Notified w w'' := by
  intro i r hr
  obtain ⟨r₁, hr₁, hsince₁⟩ := h i r hr
  obtain ⟨r₂, hr₂, hsince₂⟩ := h' i r₁ hr₁
  exact ⟨r₂, hr₂, hsince₁.trans hsince₂⟩

/-- A call on the object at a place. -/
theorem notified_update (i : ℕ) {call : Resource → FsM Resource}
    (hcall : ∀ r, Yields (Since r) (call r)) :
    Does Notified (do
      let r ← getResource i
      let r ← onFiles (call r)
      modify fun w => { w with resources := w.resources.set i r } : ServerM κ Unit) := by
  intro w u w' h
  obtain ⟨r, w₁, hget, h₁⟩ := run_bind_ok h
  obtain ⟨hr, hw⟩ := getResource_eq_ok hget
  obtain ⟨r', w₂, hfile, h₂⟩ := run_bind_ok h₁
  obtain ⟨fs, hrun, rfl⟩ := onFiles_eq_ok hfile
  obtain ⟨-, rfl⟩ := EStateM.Result.ok.inj h₂
  subst hw
  intro j s hs
  by_cases hj : i = j
  · subst hj
    rw [hr] at hs
    obtain rfl := Option.some.inj hs
    exact ⟨r', List.getElem?_set_self (List.getElem?_eq_some_iff.mp hr).1, hcall r _ _ _ hrun⟩
  · exact ⟨s, (List.getElem?_set_ne hj).trans hs, Since.refl s⟩

theorem notified_createResource (config : ResourceConfig) :
    Does Notified (createResource config : ServerM κ Bool) := by
  intro w b w' h
  obtain ⟨err, hrun⟩ := createResource_run config w
  rw [hrun] at h
  cases hcreate : (create config w.logDir).run w.fs with
  | error e fs =>
    rw [hcreate] at h
    cases h
  | ok r fs =>
    simp only [hcreate] at h
    split_ifs at h
    · cases hinit : r.initValue.run fs with
      | error e fs' =>
        rw [hinit] at h
        cases h
      | ok r' fs' =>
        simp only [hinit] at h
        obtain ⟨-, rfl⟩ := EStateM.Result.ok.inj h
        intro i s hs
        refine ⟨s, ?_, Since.refl s⟩
        rw [List.getElem?_append_left (List.getElem?_eq_some_iff.mp hs).1, hs]
    · obtain ⟨-, rfl⟩ := EStateM.Result.ok.inj h
      exact Notified.of_eq rfl

theorem notified_calls : RequestCalls (Notified : CoAPServer κ → CoAPServer κ → Prop) :=
  { refl := Notified.refl
    trans := Notified.trans
    inward := fun _ _ _ _ => Notified.of_eq rfl
    create := notified_createResource }

theorem notified_executeCmd (r : Resource) (m : ResourceMethod) (env : ProcEnv) (k : ℕ) (data : Str) :
    Does Notified (executeCmd r m env k data : ServerM κ (ℤ × Str)) := by
  simp only [executeCmd]
  cases env.shell k m.config.cmd data r.getPath (methStringify m.getMethodType)
      (if m.config.cmdStdin then data else []) with
  | threw => exact Does.throw _
  | timedOut =>
    exact Does.bind Notified.trans (does_writeErr notified_calls _) fun _ =>
      Does.pure Notified.refl _
  | exited code out => exact Does.pure Notified.refl _

theorem notified_item (item : RequestQueueItem) (env : ProcEnv) :
    Does Notified (handleRequestQueueItem item env : ServerM κ ℤ) := by
  intro w ret w' h
  obtain ⟨r, m, -, -, hrun⟩ := item_method h
  obtain ⟨sss, w₁, hprocess, h₁⟩ := run_bind_ok hrun
  obtain ⟨fs, hwrite, -⟩ := writeValues_effect item.src.resource r m env
    (linePrefix m (env.timestamp item.time) r.getPath) sss w₁
  simp only [EStateM.run_bind, hwrite] at h₁
  obtain ⟨-, rfl⟩ := EStateM.Result.ok.inj h₁
  have hset : ∀ value, Does Notified (setValueAt item.src.resource value : ServerM κ Unit) :=
    fun value => notified_update item.src.resource fun r => since_setValue r value
  have hnotified : Notified w w₁ := does_processItem Notified.refl Notified.trans
    (notified_executeCmd r m env) hset m item.data _ _ _ hprocess
  exact hnotified

theorem notified_consume (env : ProcEnv) : Does Notified (consume env : ServerM κ Unit) := by
  refine Does.bind Notified.trans (does_onQueue notified_calls _) fun n =>
    Does.ite ?_ (Does.pure Notified.refl _)
  refine Does.bind Notified.trans (does_onQueue notified_calls _) fun item => ?_
  exact Does.bind Notified.trans (notified_item item env) fun _ => Does.pure Notified.refl _

theorem notified_valueUpdate : Does Notified (valueUpdate : ServerM κ Unit) := by
  have hall : ∀ is : List ℕ, Does Notified (updateAll is : ServerM κ Unit) := by
    intro is
    induction is with
    | nil => exact Does.pure Notified.refl _
    | cons i is ih =>
      exact Does.bind Notified.trans (notified_update i since_valueUpdate) fun _ => ih
  exact Does.bind Notified.trans (Does.get Notified.refl) fun _ => hall _

end Notified

variable [DecidableEq κ]

theorem step_notified {re : Matcher} {w w' : CoAPServer κ} {l : Label κ}
    (h : step re w l = some w') : Notified w w' := by
  cases l with
  | request uri req type env resp =>
    simp only [step] at h
    split_ifs at h
    obtain ⟨resp', hrun⟩ := after_eq_some h
    exact does_serve notified_calls req type env resp re uri _ _ _ hrun
  | consume env =>
    obtain ⟨u, hrun⟩ := after_eq_some h
    exact notified_consume env _ _ _ hrun
  | poll =>
    obtain ⟨u, hrun⟩ := after_eq_some h
    exact notified_valueUpdate _ _ _ hrun
  | files fs =>
    obtain rfl := Option.some.inj h
    exact Notified.of_eq rfl

/-- **Every change of an observable value is notified**: whatever happens between two states of a run,
a resource stays, and if it is observable and its value has changed its observers have been notified
in between; if it is not observable they never are. -/
theorem changes_are_notified {re : Matcher} {w w' : CoAPServer κ} (h : Reach (step re) w w') {i : ℕ}
    {r : Resource} (hr : w.resources[i]? = some r) : ∃ r', w'.resources[i]? = some r' ∧
      (r.config.observable = true → r'.value ≠ r.value → r.notified < r'.notified) ∧
      (r.config.observable = false → r'.notified = r.notified) := by
  have hrun : Notified w w' := Runs.invariant (P := fun w' => Notified w w')
    (fun _ _ _ hn _ hs => hn.trans (step_notified hs)) h (Notified.refl w)
  obtain ⟨r', hr', hsince⟩ := hrun i r hr
  exact ⟨r', hr', hsince.changed, hsince.silent⟩

/-- An observable resource with a data file. -/
def observedResource : Resource :=
  { config := { observable := true }
    methods := []
    value := []
    logFile := none
    dataFilePath := str "a.dat"
    dataFileWriteTime := 0 }

/-- A server with that resource, and a data file that was just written. -/
def observedServer : CoAPServer ℕ :=
  { logDir := []
    dynamicResources := []
    resources := [observedResource]
    registry := fun _ => none
    queue := { maxSize := 1, items := [default], start := 0, end_ := 0 }
    cache := Cache.empty
    fs := { files := fun _ => some { content := [7], mtime := 1 }, clock := 2
            writable := fun _ => true, creatable := fun _ => true, opened := [], created := [] }
    stdout := []
    stderr := [] }

theorem changes_are_notified_poll : ∃ w' r', Reach (step fun _ _ => .ok none) observedServer w' ∧
    w'.resources[0]? = some r' ∧ r'.value ≠ observedResource.value ∧
    observedResource.notified < r'.notified := by
  obtain ⟨w', hstep, hvalue⟩ : ∃ w', step (fun _ _ => .ok none) observedServer .poll = some w' ∧
      w'.resources[0]?.map Resource.value = some [7] := ⟨_, rfl, rfl⟩
  have hrun : Reach (step fun _ _ => .ok none) observedServer w' :=
    (Runs.refl observedServer).snoc trivial hstep
  obtain ⟨r', hr', hchanged, -⟩ := changes_are_notified hrun (i := 0) (r := observedResource) rfl
  rw [hr', Option.map_some, Option.some.injEq] at hvalue
  have hne : r'.value ≠ observedResource.value := by
    rw [hvalue]
    decide
  exact ⟨w', r', hrun, hr', hne, hchanged rfl hne⟩

end CoapServer.Server.Observers
