import CoapServer.Server.Dynamic

/-! # What attaching and creating a resource does

Attaching a resource registers it at its path with a handler for each of its methods, and gives it
its first value (`attach_run`). Creating one makes it the last of the resources besides
(`createResource_run`). Both leave the other resources, the queue and the cache as they are. -/

namespace CoapServer.Server.Creation

open CoapServer.Basic CoapServer.Config CoapServer.Resources.Files CoapServer.Resources.Object
open CoapServer.Server.World CoapServer.Server.Requests CoapServer.Server.Dynamic

variable {κ : Type}

/-- The library has handlers for all methods of a resource. -/
def Attachable (r : Resource) : Prop := ∀ m ∈ r.methods, Queueable m.getMethodType

instance (r : Resource) : Decidable (Attachable r) := by
  unfold Attachable
  infer_instance

/-- The types of the methods. -/
def hasType (ms : List ResourceMethod) (type : ResourceMethodType) : Bool :=
  ms.any fun m => m.getMethodType = type

/-- What is registered for the resource `r` at `i`. -/
def registration (i : ℕ) (r : Resource) : Registered :=
  { resource := i, handles := hasType r.methods }

/-- The registry with the resource `r` at `i`. -/
def registered (w : CoAPServer κ) (i : ℕ) (r : Resource) : Str → Option Registered :=
  Function.update w.registry (cStr r.config.resourcePath) (some (registration i r))

theorem attachMethods_cons {m : ResourceMethod} (hm : Queueable m.getMethodType)
    (ms : List ResourceMethod) (handles : ResourceMethodType → Bool) :
    (attachMethods (m :: ms) handles : ServerM κ _) = (do
      writeErr [str "  - Attaching " ++ methStringify m.getMethodType ++ str " handler"]
      attachMethods ms (Function.update handles m.getMethodType true)) := by
  obtain ht | ht | ht := hm
  all_goals simp only [attachMethods, ht]

theorem attachMethods_unhandled {m : ResourceMethod} (hm : ¬ Queueable m.getMethodType)
    (ms : List ResourceMethod) (handles : ResourceMethodType → Bool) :
    (attachMethods (m :: ms) handles : ServerM κ _) = (do
      writeErr [str "ERROR: Resource::attach: Unhandled ResourceMethodType."]
      return none) := by
  unfold attachMethods
  cases ht : m.getMethodType with
  | get => exact absurd (Or.inl ht) hm
  | post => exact absurd (Or.inr (Or.inr ht)) hm
  | put => exact absurd (Or.inr (Or.inl ht)) hm
  | _ => rfl

/-- The handlers registered are those of the methods. -/
theorem attachMethods_run (ms : List ResourceMethod) : ∀ (handles : ResourceMethodType → Bool)
    (w : CoAPServer κ), ∃ err, (attachMethods ms handles).run w =
      .ok (if ∀ m ∈ ms, Queueable m.getMethodType then
          some fun t => handles t || hasType ms t else none) { w with stderr := err } := by
  induction ms with
  | nil => exact fun handles w => ⟨w.stderr, by simp [attachMethods, hasType]⟩
  | cons m ms ih =>
    intro handles w
    by_cases hm : Queueable m.getMethodType
    · obtain ⟨err, hrun⟩ := ih (Function.update handles m.getMethodType true)
        { w with stderr := w.stderr ++
          [str "  - Attaching " ++ methStringify m.getMethodType ++ str " handler"] }
      have hhandles : (fun t => Function.update handles m.getMethodType true t || hasType ms t) =
          fun t => handles t || hasType (m :: ms) t := by
        funext t
        by_cases ht : m.getMethodType = t
        · subst ht
          simp [hasType]
        · simp [hasType, ht, Function.update_of_ne (Ne.symm ht)]
      have hall : (∀ m' ∈ m :: ms, Queueable m'.getMethodType) ↔
          ∀ m' ∈ ms, Queueable m'.getMethodType := by simp [hm]
      refine ⟨err, ?_⟩
      simp only [hall, ← hhandles]
      rw [attachMethods_cons hm, EStateM.run_bind, writeErr_run]
      exact hrun
    · refine ⟨w.stderr ++ [str "ERROR: Resource::attach: Unhandled ResourceMethodType."], ?_⟩
      have hall : ¬ ∀ m' ∈ m :: ms, Queueable m'.getMethodType :=
        fun h => hm (h m List.mem_cons_self)
      rw [if_neg hall, attachMethods_unhandled hm]
      rfl

/-- **What `attach` does.** -/
theorem attachUpTo_run (room : Option ℕ) (i : ℕ) (r : Resource) (w : CoAPServer κ) : ∃ err,
    (attachUpTo room i r).run w =
      if Attachable r then
        match (r.initValueUpTo room).run w.fs with
        | .ok r' fs =>
          .ok (0, r') { w with registry := registered w i r, fs := fs, stderr := err }
        | .error e fs => .error e { w with registry := registered w i r, fs := fs, stderr := err }
      else .ok (1, r) { w with stderr := err } := by
  obtain ⟨err, hrun⟩ := attachMethods_run r.methods (fun _ => false)
    { w with stderr := w.stderr ++ [str "Attaching resource " ++ r.config.resourcePath] }
  refine ⟨err, ?_⟩
  unfold attachUpTo
  simp only [EStateM.run_bind, writeErr_run, hrun]
  by_cases hatt : Attachable r
  · rw [if_pos hatt]
    unfold Attachable at hatt
    simp only [if_pos hatt, Bool.false_or, EStateM.run_bind, addResource, EStateM.run_modify]
    cases hinit : (r.initValueUpTo room).run w.fs with
    | ok r' fs =>
      rw [onFiles_ok (by exact hinit)]
      rfl
    | error e fs =>
      rw [onFiles_error (by exact hinit)]
      rfl
  · rw [if_neg hatt]
    unfold Attachable at hatt
    simp only [if_neg hatt, EStateM.run_pure]

theorem attach_run (i : ℕ) (r : Resource) (w : CoAPServer κ) : ∃ err, (attach i r).run w =
    if Attachable r then
      match r.initValue.run w.fs with
      | .ok r' fs =>
        .ok (0, r') { w with registry := registered w i r, fs := fs, stderr := err }
      | .error e fs => .error e { w with registry := registered w i r, fs := fs, stderr := err }
    else .ok (1, r) { w with stderr := err } :=
  attachUpTo_run none i r w

/-- **What the creation of a resource does.** -/
theorem createResource_run (config : ResourceConfig) (w : CoAPServer κ) : ∃ err,
    (createResource config).run w =
      match (create config w.logDir).run w.fs with
      | .error e fs => .error e { w with fs := fs }
      | .ok r fs =>
        if Attachable r then
          match r.initValue.run fs with
          | .ok r' fs' => .ok true
            { w with
              resources := w.resources ++ [r']
              registry := registered w w.resources.length r
              fs := fs'
              stderr := err }
          | .error e fs' => .error e
            { w with registry := registered w w.resources.length r, fs := fs', stderr := err }
        else .ok false { w with fs := fs, stderr := err } := by
  cases hcreate : (create config w.logDir).run w.fs with
  | error e fs =>
    refine ⟨[], ?_⟩
    simp only [createResource, EStateM.run_bind, EStateM.run_get, onFiles_error hcreate]
  | ok r fs =>
    obtain ⟨err, hrun⟩ := attach_run w.resources.length r { w with fs }
    refine ⟨err, ?_⟩
    simp only [createResource, EStateM.run_bind, EStateM.run_get, onFiles_ok hcreate, hrun]
    by_cases hatt : Attachable r
    · simp only [if_pos hatt]
      cases hinit : r.initValue.run fs with
      | ok r' fs' => rfl
      | error e fs' => rfl
    · simp only [if_neg hatt]
      rfl

end CoapServer.Server.Creation
