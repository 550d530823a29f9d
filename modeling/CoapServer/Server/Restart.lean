import CoapServer.Server.Effects
import CoapServer.Server.Registration
import CoapServer.Server.Writes

/-! # Values survive a restart

A value that is set is written to the data file, and a server that starts takes the value from there.
So as long as the file at `p` is the resource's own and can be opened, it has the value after every
step (`Saved`), whatever requests, rounds of the queue thread and polls there are
(`run_saved`), and a server that starts on these files begins with the value the last one ended with
(`values_survive_restart`). -/

namespace CoapServer.Server.Restart

open CoapServer.Basic CoapServer.Config CoapServer.Lib.Frame CoapServer.Lib.Run
open CoapServer.Resources.Files CoapServer.Resources.Object CoapServer.Queue.Sequential
open CoapServer.Parse.Constructors CoapServer.Server.World CoapServer.Server.Requests
open CoapServer.Server.Process CoapServer.Server.Dynamic CoapServer.Server.Creation
open CoapServer.Server.Machine CoapServer.Server.Effects CoapServer.Server.Startup
open CoapServer.Server.Dispatch (after_eq_some)

variable {κ : Type}

/-! ### What leaves a file -/

/-- **The file at `p` stays**, where there is one, and who may open it. -/
structure Leaves (p : Str) (fs fs' : FileSystem) : Prop where
  kept : ∀ f, fs.files p = some f → fs'.files p = some f
  access : fs'.access p = fs.access p

section Leaves
variable {p : Str}

theorem Leaves.refl (fs : FileSystem) : Leaves p fs fs := ⟨fun _ h => h, rfl⟩

theorem Leaves.trans {a b c : FileSystem} (h : Leaves p a b) (h' : Leaves p b c) : Leaves p a c :=
  ⟨fun f hf => h'.kept f (h.kept f hf), h'.access.trans h.access⟩

/-- A file that exists is opened as it is. -/
theorem leaves_openAppend (q : Str) : Does (Leaves p) (openAppend q) := by
  intro fs b fs' h
  simp only [openAppend, EStateM.run_bind, EStateM.run_get] at h
  split_ifs at h
  · simp only [EStateM.run_bind, EStateM.run_modify, EStateM.run_get] at h
    cases hfile : fs.files q with
    | some f =>
      simp only [hfile, Option.isNone_some, Bool.false_eq_true, if_false, EStateM.run_pure] at h
      obtain ⟨-, rfl⟩ := EStateM.Result.ok.inj h
      exact ⟨fun _ hf => hf, rfl⟩
    | none =>
      simp only [hfile, Option.isNone_none, if_true, EStateM.run_bind, EStateM.run_modify,
        EStateM.run_pure] at h
      obtain ⟨-, rfl⟩ := EStateM.Result.ok.inj h
      refine ⟨fun f hf => ?_, rfl⟩
      have hne : p ≠ q := by
        rintro rfl
        rw [hfile] at hf
        cases hf
      exact (Function.update_of_ne hne _ _).trans hf
  · obtain ⟨-, rfl⟩ := EStateM.Result.ok.inj h
    exact Leaves.refl _

theorem leaves_createDirectories (q : Str) : Does (Leaves p) (createDirectories q) := by
  intro fs u fs' h
  simp only [createDirectories, EStateM.run_bind, EStateM.run_get] at h
  split_ifs at h
  · obtain ⟨-, rfl⟩ := EStateM.Result.ok.inj h
    exact ⟨fun _ hf => hf, rfl⟩
  · cases h

theorem leaves_create (config : ResourceConfig) (logDir : Str) :
    Does (Leaves p) (create config logDir) :=
  does_create Leaves.refl Leaves.trans leaves_openAppend leaves_createDirectories config logDir

theorem initValue_access (r : Resource) : Keeps FileSystem.access r.initValue := by
  intro fs r' fs' h
  by_cases hpath : r.dataFilePath = []
  · rw [initValue_noFile hpath] at h
    exact setValue_access r _ _ _ _ h
  · cases hfile : fs.files r.dataFilePath with
    | some f =>
      rw [initValue_present hpath hfile] at h
      obtain ⟨-, rfl⟩ := EStateM.Result.ok.inj h
      rfl
    | none =>
      rw [initValue_absent hpath hfile] at h
      exact setValue_access r _ _ _ _ h

/-- A first value is not written over a file that exists. -/
theorem leaves_initValue (r : Resource) : Does (Leaves p) r.initValue := by
  intro fs r' fs' h
  refine ⟨fun f hf => ?_, by rw [initValue_access r _ _ _ h]⟩
  by_cases hp : r.dataFilePath = p
  · by_cases hpath : r.dataFilePath = []
    · rw [initValue_noFile hpath, setValue_noFile hpath] at h
      obtain ⟨-, rfl⟩ := EStateM.Result.ok.inj h
      exact hf
    · rw [initValue_present hpath (hp ▸ hf)] at h
      obtain ⟨-, rfl⟩ := EStateM.Result.ok.inj h
      exact hf
  · exact (initValue_files h hp).trans hf

/-- **The first value is that of the file**, where it can be read. -/
theorem initValue_saved {r r' : Resource} {fs fs' : FileSystem} (hpath : r.dataFilePath ≠ [])
    (hread : fs.readable r.dataFilePath = true)
    (hfile : fs.writable r.dataFilePath = true ∨ fs.files r.dataFilePath ≠ none)
    (h : r.initValue.run fs = .ok r' fs') :
    ∃ f, fs'.files r.dataFilePath = some f ∧ f.content = r'.value := by
  cases hf : fs.files r.dataFilePath with
  | some f =>
    rw [initValue_present hpath hf, seen_readable hread] at h
    obtain ⟨rfl, rfl⟩ := EStateM.Result.ok.inj h
    exact ⟨f, hf, (synced_value _ _ _).symm⟩
  | none =>
    have hw := hfile.resolve_right (not_not.mpr hf)
    rw [initValue_absent hpath hf, setValue_run hpath hw] at h
    obtain ⟨rfl, rfl⟩ := EStateM.Result.ok.inj h
    exact ⟨_, put_files_self _ _ _, (synced_value _ _ _).symm⟩

/-- A poll that can read the file keeps the value that of the file. -/
theorem valueUpdate_saved {r r' : Resource} {fs fs' : FileSystem} {f : File}
    (hpath : r.dataFilePath ≠ []) (hread : fs.readable r.dataFilePath = true)
    (hfile : fs.files r.dataFilePath = some f) (hvalue : f.content = r.value)
    (h : r.valueUpdate.run fs = .ok r' fs') : f.content = r'.value := by
  rcases le_or_gt f.mtime r.dataFileWriteTime with hle | hlt
  · rw [valueUpdate_old hpath hfile hle] at h
    obtain ⟨rfl, -⟩ := EStateM.Result.ok.inj h
    exact hvalue
  · rw [valueUpdate_new hpath hfile hlt, seen_readable hread] at h
    obtain ⟨rfl, -⟩ := EStateM.Result.ok.inj h
    exact (synced_value _ _ _).symm

end Leaves

/-! ### What keeps a value saved -/

/-- **The value of the resource at `i` is in the file at `p`.** -/
def Saved (i : ℕ) (p : Str) (w : CoAPServer κ) : Prop :=
  ∃ r f, w.resources[i]? = some r ∧ r.dataFilePath = p ∧ w.fs.files p = some f ∧ f.content = r.value

/-- **The file at `p` is that of the resource at `i` alone**: no other resource has it as its data
file, and none as its log file. -/
structure Own (i : ℕ) (p : Str) (w : CoAPServer κ) : Prop where
  data : ∀ (j : ℕ) (r : Resource), w.resources[j]? = some r → r.dataFilePath = p → j = i
  log : ∀ r ∈ w.resources, r.logFile ≠ some p

/-- **A step saves**: it keeps the value saved, where it may write and read the file. -/
structure Saves (i : ℕ) (p : Str) (w w' : CoAPServer κ) : Prop where
  grows : Grows w w'
  access : w'.fs.access p = w.fs.access p
  saved : Own i p w' → w.fs.access p = (true, true) → Saved i p w → Saved i p w'

section Saves
variable {i : ℕ} {p : Str} {w w' w'' : CoAPServer κ}

theorem Own.before (h : Own i p w') (hg : Grows w w') : Own i p w := by
  refine ⟨fun j r hr hp => ?_, fun r hr => ?_⟩
  · obtain ⟨r', hr', hsame⟩ := hg j r hr
    exact h.data j r' hr' (hsame.dataFilePath.trans hp)
  · obtain ⟨j, hj⟩ := List.mem_iff_getElem?.mp hr
    obtain ⟨r', hr', hsame⟩ := hg j r hj
    rw [← hsame.logFile]
    exact h.log r' (List.mem_of_getElem? hr')

theorem Saves.trans (h : Saves i p w w') (h' : Saves i p w' w'') : Saves i p w w'' := by
  refine ⟨h.grows.trans h'.grows, h'.access.trans h.access, fun hown hopen hsaved => ?_⟩
  exact h'.saved hown (h.access.trans hopen) (h.saved (hown.before h'.grows) hopen hsaved)

/-- A step that leaves the resources there are, and the file. -/
theorem Saves.of_leaves (hres : ∀ (j : ℕ) (r : Resource), w.resources[j]? = some r →
    w'.resources[j]? = some r) (hfs : Leaves p w.fs w'.fs) : Saves i p w w' := by
  refine ⟨fun j r hr => ⟨r, hres j r hr, rfl, rfl, rfl, rfl⟩, hfs.access, ?_⟩
  rintro - - ⟨r, f, hr, hpath, hf, hvalue⟩
  exact ⟨r, f, hres i r hr, hpath, hfs.kept f hf, hvalue⟩

theorem Saves.refl (w : CoAPServer κ) : Saves i p w w :=
  Saves.of_leaves (fun _ _ h => h) (Leaves.refl _)

/-- A resource that is created leaves those there are. -/
theorem saves_createResource (config : ResourceConfig) :
    Does (Saves i p) (createResource config : ServerM κ Bool) := by
  intro w b w' h
  obtain ⟨err, hrun⟩ := createResource_run config w
  rw [hrun] at h
  cases hcreate : (create config w.logDir).run w.fs with
  | error e fs =>
    rw [hcreate] at h
    cases h
  | ok r fs =>
    have hleaves : Leaves p w.fs fs := leaves_create config w.logDir _ _ _ hcreate
    simp only [hcreate] at h
    split_ifs at h
    · cases hinit : r.initValue.run fs with
      | error e fs' =>
        rw [hinit] at h
        cases h
      | ok r' fs' =>
        simp only [hinit] at h
        obtain ⟨-, rfl⟩ := EStateM.Result.ok.inj h
        refine Saves.of_leaves (fun j s hs => ?_)
          (hleaves.trans (leaves_initValue r _ _ _ hinit))
        rw [List.getElem?_append_left (List.getElem?_eq_some_iff.mp hs).1, hs]
    · obtain ⟨-, rfl⟩ := EStateM.Result.ok.inj h
      exact Saves.of_leaves (fun _ _ hs => hs) hleaves

/-- **A request saves.** -/
theorem saves_calls : RequestCalls (Saves i p : CoAPServer κ → CoAPServer κ → Prop) :=
  { refl := Saves.refl
    trans := Saves.trans
    inward := fun _ _ _ _ => Saves.of_leaves (fun _ _ h => h) (Leaves.refl _)
    create := saves_createResource }

/-- **A value that is set is saved**, and no other value is lost. -/
theorem saves_setValueAt (hp : p ≠ []) (j : ℕ) (value : Str) :
    Does (Saves i p) (setValueAt j value : ServerM κ Unit) := by
  intro w u w' h
  have hconf := confined_setValueAt j value _ _ _ h
  obtain ⟨r, w₁, hget, h₁⟩ := run_bind_ok h
  obtain ⟨hr, hw⟩ := getResource_eq_ok hget
  obtain ⟨r', w₂, hfile, h₂⟩ := run_bind_ok h₁
  obtain ⟨fs, hrun, rfl⟩ := onFiles_eq_ok hfile
  obtain ⟨-, rfl⟩ := EStateM.Result.ok.inj h₂
  subst hw
  have hself : (w₁.resources.set j r')[j]? = some r' :=
    List.getElem?_set_self (List.getElem?_eq_some_iff.mp hr).1
  refine ⟨fun k s hs => ?_, by rw [hconf.access], fun hown hopen hsaved => ?_⟩
  · by_cases hkj : k = j
    · subst hkj
      exact hconf.object s hs
    · exact ⟨s, (hconf.others k hkj).trans hs, rfl, rfl, rfl, rfl⟩
  · obtain ⟨s, f, hs, hpath, hf, hvalue⟩ := hsaved
    by_cases hij : i = j
    · subst hij
      rw [hr] at hs
      obtain rfl := Option.some.inj hs
      subst hpath
      rw [setValueUpTo_run hp (congrArg Prod.fst hopen)] at hrun
      obtain ⟨rfl, rfl⟩ := EStateM.Result.ok.inj hrun
      exact ⟨_, _, hself, synced_dataFilePath _ _ _, put_files_self _ _ _, (synced_value _ _ _).symm⟩
    · have hother : r.dataFilePath ≠ p := by
        intro heq
        refine hij (hown.data j r' hself ?_).symm
        rw [(setValue_same r value _ _ _ hrun).dataFilePath, heq]
      exact ⟨s, f, (hconf.others i hij).trans hs, hpath,
        (setValue_files hrun hother.symm).trans hf, hvalue⟩

theorem saves_executeCmd (r : Resource) (m : ResourceMethod) (env : ProcEnv) (k : ℕ) (data : Str) :
    Does (Saves i p) (executeCmd r m env k data : ServerM κ (ℤ × Str)) := by
  simp only [executeCmd]
  cases env.shell k m.config.cmd data r.getPath (methStringify m.getMethodType)
      (if m.config.cmdStdin then data else []) with
  | threw => exact Does.throw _
  | timedOut =>
    exact Does.bind Saves.trans (does_writeErr saves_calls _) fun _ => Does.pure Saves.refl _
  | exited code out => exact Does.pure Saves.refl _

/-- **A round of the queue thread saves.** -/
theorem saves_consume (hp : p ≠ []) (env : ProcEnv) :
    Does (Saves i p) (consume env : ServerM κ Unit) := by
  have hitem : ∀ item, Does (Saves i p) (handleRequestQueueItem item env : ServerM κ ℤ) := by
    intro item w ret w' h
    obtain ⟨r, m, hr, -, hrun⟩ := item_method h
    obtain ⟨sss, w₁, hprocess, h₁⟩ := run_bind_ok hrun
    obtain ⟨fs, hwrite, -, hfiles, haccess⟩ := writeValues_effect item.src.resource r m env
      (linePrefix m (env.timestamp item.time) r.getPath) sss w₁
    simp only [EStateM.run_bind, hwrite] at h₁
    obtain ⟨-, rfl⟩ := EStateM.Result.ok.inj h₁
    have hsaves : Saves i p w w₁ := does_processItem Saves.refl Saves.trans
      (saves_executeCmd r m env) (saves_setValueAt hp item.src.resource) m item.data _ _ _ hprocess
    obtain ⟨r', hr', hsame⟩ := hsaves.grows _ r hr
    refine ⟨hsaves.grows, (congrFun haccess p).trans hsaves.access, fun hown hopen hsaved => ?_⟩
    have hlog : r.logFile ≠ some p := by
      rw [← hsame.logFile]
      exact hown.log r' (List.mem_of_getElem? hr')
    have hown₁ : Own i p w₁ := ⟨hown.data, hown.log⟩
    obtain ⟨s, f, hs, hpath, hf, hvalue⟩ := hsaves.saved hown₁ hopen hsaved
    exact ⟨s, f, hs, hpath, (hfiles p hlog).trans hf, hvalue⟩
  refine Does.bind Saves.trans (does_onQueue saves_calls _) fun n =>
    Does.ite ?_ (Does.pure Saves.refl _)
  refine Does.bind Saves.trans (does_onQueue saves_calls _) fun item => ?_
  exact Does.bind Saves.trans (hitem item) fun _ => Does.pure Saves.refl _

/-- **A poll saves.** -/
theorem saves_valueUpdate (hp : p ≠ []) : Does (Saves i p) (valueUpdate : ServerM κ Unit) := by
  have hone : ∀ j, Does (Saves i p) (updateAt j : ServerM κ Unit) := by
    intro j w u w' h
    obtain ⟨r, w₁, hget, h₁⟩ := run_bind_ok h
    obtain ⟨hr, hw⟩ := getResource_eq_ok hget
    obtain ⟨r', w₂, hfile, h₂⟩ := run_bind_ok h₁
    obtain ⟨fs, hrun, rfl⟩ := onFiles_eq_ok hfile
    obtain ⟨-, rfl⟩ := EStateM.Result.ok.inj h₂
    subst hw
    obtain rfl := valueUpdate_files hrun
    have hsame := valueUpdate_same r _ _ _ hrun
    have hself : (w₁.resources.set j r')[j]? = some r' :=
      List.getElem?_set_self (List.getElem?_eq_some_iff.mp hr).1
    refine ⟨fun k s hs => ?_, rfl, fun _ hopen hsaved => ?_⟩
    · by_cases hkj : j = k
      · subst hkj
        rw [hr] at hs
        obtain rfl := Option.some.inj hs
        exact ⟨r', hself, hsame⟩
      · exact ⟨s, (List.getElem?_set_ne hkj).trans hs, rfl, rfl, rfl, rfl⟩
    · obtain ⟨s, f, hs, hpath, hf, hvalue⟩ := hsaved
      by_cases hij : j = i
      · subst hij
        rw [hr] at hs
        obtain rfl := Option.some.inj hs
        subst hpath
        exact ⟨r', f, hself, hsame.dataFilePath, hf,
          valueUpdate_saved hp (congrArg Prod.snd hopen) hf hvalue hrun⟩
      · exact ⟨s, f, (List.getElem?_set_ne hij).trans hs, hpath, hf, hvalue⟩
  have hall : ∀ js : List ℕ, Does (Saves i p) (updateAll js : ServerM κ Unit) := by
    intro js
    induction js with
    | nil => exact Does.pure Saves.refl _
    | cons j js ih => exact Does.bind Saves.trans (hone j) fun _ => ih
  exact Does.bind Saves.trans (Does.get Saves.refl) fun _ => hall _

end Saves

/-! ### Runs -/

variable [DecidableEq κ]

/-- From outside the file at `p` is not changed, nor is who may open it. -/
def Unspoilt (p : Str) (w : CoAPServer κ) : Label κ → Prop
  | .files fs => fs.files p = w.fs.files p ∧ fs.access p = w.fs.access p
  | .request .. | .consume .. | .poll => True

instance (p : Str) (w : CoAPServer κ) (l : Label κ) : Decidable (Unspoilt p w l) :=
  match l with
  | .files fs => inferInstanceAs
      (Decidable (fs.files p = w.fs.files p ∧ fs.access p = w.fs.access p))
  | .request .. | .consume .. | .poll => inferInstanceAs (Decidable True)

/-- **A step saves.** -/
theorem step_saves {re : Matcher} {i : ℕ} {p : Str} (hp : p ≠ []) {w w' : CoAPServer κ} {l : Label κ}
    (hg : Unspoilt p w l) (h : step re w l = some w') : Saves i p w w' := by
  cases l with
  | request uri req type env resp =>
    simp only [step] at h
    split_ifs at h
    obtain ⟨resp', hrun⟩ := after_eq_some h
    exact does_serve saves_calls req type env resp re uri _ _ _ hrun
  | consume env =>
    obtain ⟨u, hrun⟩ := after_eq_some h
    exact saves_consume hp env _ _ _ hrun
  | poll =>
    obtain ⟨u, hrun⟩ := after_eq_some h
    exact saves_valueUpdate hp _ _ _ hrun
  | files fs =>
    obtain rfl := Option.some.inj h
    exact Saves.of_leaves (fun _ _ hr => hr) ⟨fun f hf => hg.1.trans hf, hg.2⟩

/-- **A run saves.** -/
theorem run_saves {re : Matcher} {i : ℕ} {p : Str} (hp : p ≠ []) {w₀ w : CoAPServer κ}
    (h : Runs (step re) (Unspoilt p) w₀ w) : Saves i p w₀ w :=
  Runs.invariant (P := fun w => Saves i p w₀ w)
    (fun _ _ _ hsaves hg hs => hsaves.trans (step_saves hp hg hs)) h (Saves.refl w₀)

/-! ### The start -/

section Start
variable {i : ℕ} {p : Str}

omit [DecidableEq κ]

/-- An attachment that succeeds has given the resource its first value. -/
theorem attach_value {r r' : Resource} {w w' : CoAPServer κ}
    (h : (attach i r).run w = .ok (0, r') w') :
    r.initValue.run w.fs = .ok r' w'.fs ∧ w'.resources = w.resources := by
  obtain ⟨err, hrun⟩ := attach_run i r w
  rw [hrun] at h
  split_ifs at h
  case neg => cases h
  cases hinit : r.initValue.run w.fs with
  | error e fs =>
    rw [hinit] at h
    cases h
  | ok r₁ fs =>
    rw [hinit] at h
    obtain ⟨hr, rfl⟩ := EStateM.Result.ok.inj h
    obtain rfl := (Prod.mk.inj hr).2
    exact ⟨rfl, rfl⟩

/-- **The resources are attached**: the one at `i` takes the value from the file, or puts its first
value there, and the file stays. -/
theorem attachAll_saved (hp : p ≠ []) (is : List ℕ) : ∀ {w w' : CoAPServer κ},
    (attachAll is).run w = .ok 0 w' → w.fs.readable p = true →
    (w.fs.writable p = true ∨ w.fs.files p ≠ none) →
    (∃ r, w.resources[i]? = some r ∧ r.dataFilePath = p) → i ∈ is ∨ Saved i p w →
    Saved i p w' ∧ Leaves p w.fs w'.fs := by
  induction is with
  | nil =>
    rintro w _ ⟨⟩ - - - hsaved
    exact ⟨hsaved.resolve_left List.not_mem_nil, Leaves.refl _⟩
  | cons j is ih =>
    intro w w' h hread hfile hdata hsaved
    obtain ⟨r, w₁, hget, h₁⟩ := run_bind_ok h
    obtain ⟨hr, hw⟩ := getResource_eq_ok hget
    subst hw
    obtain ⟨⟨ret, r'⟩, w₂, hattach, h₂⟩ := run_bind_ok h₁
    simp only [EStateM.run_bind, EStateM.run_modify] at h₂
    by_cases hret : ret ≠ 0
    · rw [if_pos hret] at h₂
      cases h₂
    rw [if_neg hret] at h₂
    obtain rfl := not_not.mp hret
    obtain ⟨hinit, hres⟩ := attach_value hattach
    have hleaves : Leaves p w₁.fs w₂.fs := leaves_initValue r _ _ _ hinit
    have hsame := initValue_same r _ _ _ hinit
    have hfile₂ : w₂.fs.writable p = true ∨ w₂.fs.files p ≠ none := by
      rcases hfile with hw | hf
      · exact Or.inl ((congrArg Prod.fst hleaves.access).trans hw)
      · obtain ⟨f, hf⟩ := Option.ne_none_iff_exists'.mp hf
        exact Or.inr (by rw [hleaves.kept f hf]; exact Option.some_ne_none f)
    obtain ⟨s, hs, hpath⟩ := hdata
    have hset : ∀ k, (w₂.resources.set j r')[k]? = if j = k then some r' else w₁.resources[k]? := by
      intro k
      rw [hres]
      split_ifs with hjk
      · subst hjk
        exact List.getElem?_set_self (List.getElem?_eq_some_iff.mp hr).1
      · exact List.getElem?_set_ne hjk
    -- the resource at `i` as the attachment at `j` leaves it
    have hnext : ∃ s', (w₂.resources.set j r')[i]? = some s' ∧ s'.dataFilePath = p ∧
        (j = i ∨ Saved i p w₁ → ∃ f, w₂.fs.files p = some f ∧ f.content = s'.value) := by
      rw [hset i]
      by_cases hji : j = i
      · subst hji
        rw [hr] at hs
        obtain rfl := Option.some.inj hs
        subst hpath
        refine ⟨r', if_pos rfl, hsame.dataFilePath, fun _ => ?_⟩
        exact initValue_saved hp hread hfile hinit
      · refine ⟨s, by rw [if_neg hji, hs], hpath, fun hcase => ?_⟩
        obtain ⟨s', f, hs', -, hf, hvalue⟩ := hcase.resolve_left hji
        rw [hs] at hs'
        obtain rfl := Option.some.inj hs'
        exact ⟨f, hleaves.kept f hf, hvalue⟩
    obtain ⟨s', hs', hpath', hvalue⟩ := hnext
    obtain ⟨hlast, hleaves'⟩ := ih h₂ ((congrArg Prod.snd hleaves.access).trans hread) hfile₂
      ⟨s', hs', hpath'⟩ (by
      rcases hsaved with hmem | hold
      · rcases List.mem_cons.mp hmem with hij | hmem
        · obtain ⟨f, hf, hval⟩ := hvalue (Or.inl hij.symm)
          exact Or.inr ⟨s', f, hs', hpath', hf, hval⟩
        · exact Or.inl hmem
      · obtain ⟨f, hf, hval⟩ := hvalue (Or.inr hold)
        exact Or.inr ⟨s', f, hs', hpath', hf, hval⟩)
    exact ⟨hlast, hleaves.trans hleaves'⟩

/-- The data file of an object is the configured one. -/
theorem create_dataFile (config : ResourceConfig) (logDir : Str) :
    Yields (fun r => r.config = config ∧ r.dataFilePath = config.dataFile)
      (create config logDir) := by
  have hadd : ∀ (cs : List ResourceMethodConfig) (r : Resource),
      Yields (fun r' => r'.config = r.config ∧ r'.dataFilePath = r.dataFilePath)
        (addMethods config logDir cs r) := by
    intro cs
    induction cs with
    | nil => exact fun r => Yields.pure ⟨rfl, rfl⟩
    | cons c cs ih =>
      exact fun r => Yields.bind_any fun m => Yields.ite (Yields.bind_any fun _ => ih _) (ih _)
  refine Yields.bind (hadd _ _) fun r hr => Yields.pure ?_
  split_ifs with hdata
  · exact ⟨hr.1, rfl⟩
  · exact ⟨hr.1, by rw [hr.2, not_not.mp hdata]⟩

/-- The constructor of the server leaves the file, and its objects have their data files. -/
theorem newServer_leaves {lib : Library} {config : Config} {queue : RequestQueue RequestQueueItem}
    {fs fs' : FileSystem} {w : CoAPServer κ} (h : (newServer lib config queue).run fs = .ok w fs') :
    w.fs = fs' ∧ Leaves p fs fs' ∧ ∀ r ∈ w.resources, r.dataFilePath = r.config.dataFile := by
  have hglobal : Does (Leaves p) (openGlobalLog config.endpoint) :=
    Does.bind Leaves.trans (leaves_openAppend _) fun _ => Does.ite (Does.throw _)
      (Does.pure Leaves.refl _)
  have hcheck : Does (Leaves p) (checkTransport lib config.endpoint) :=
    Does.ite (Does.throw _) (Does.ite (Does.throw _) (Does.pure Leaves.refl _))
  have hadd : ∀ (cfgs dynamic : List ResourceConfig) (resources : List Resource),
      Does (Leaves p) (addResources config.endpoint.logDir cfgs dynamic resources) ∧
      ((∀ r ∈ resources, r.dataFilePath = r.config.dataFile) →
        Yields (fun out : List ResourceConfig × List Resource =>
          ∀ r ∈ out.2, r.dataFilePath = r.config.dataFile)
          (addResources config.endpoint.logDir cfgs dynamic resources)) := by
    intro cfgs
    induction cfgs with
    | nil => exact fun _ _ => ⟨Does.pure Leaves.refl _, fun hall => Yields.pure hall⟩
    | cons cfg cfgs ih =>
      intro dynamic resources
      unfold addResources
      split_ifs
      · exact ih _ _
      · refine ⟨Does.bind Leaves.trans (leaves_create _ _) fun _ => (ih _ _).1, fun hall => ?_⟩
        refine Yields.bind (create_dataFile cfg config.endpoint.logDir) fun r hr => (ih _ _).2 ?_
        intro r' hr'
        rcases List.mem_append.mp hr' with hr' | hr'
        · exact hall r' hr'
        · obtain rfl := List.mem_singleton.mp hr'
          rw [hr.2, hr.1]
  obtain ⟨u₁, fs₁, h₁, hrest⟩ := run_bind_ok h
  obtain ⟨u₂, fs₂, h₂, hrest⟩ := run_bind_ok hrest
  obtain ⟨⟨dynamic, resources⟩, fs₃, h₃, hrest⟩ := run_bind_ok hrest
  obtain ⟨rfl, rfl⟩ := EStateM.Result.ok.inj hrest
  obtain ⟨hleaves, hfiles⟩ := hadd config.resources [] []
  refine ⟨rfl, ((hglobal _ _ _ h₁).trans (hcheck _ _ _ h₂)).trans (hleaves _ _ _ h₃), ?_⟩
  exact hfiles (fun r hr => absurd hr List.not_mem_nil) _ _ _ h₃

/-- **A server that has started has its values saved**, where the data file can be read, and can be
written or is there. -/
theorem started_saved {parse : Str → Except Failure Json} {file : Option Str} {path logDir : Str}
    {lib : Library} {queue : RequestQueue RequestQueueItem} {fs : FileSystem} {config : Config}
    {w : CoAPServer κ} (h : Started parse file path logDir lib queue fs config w)
    {cfg : ResourceConfig} (hcfg : (staticConfigs config)[i]? = some cfg) (hdata : cfg.dataFile ≠ [])
    (hread : fs.readable cfg.dataFile = true)
    (hfile : fs.writable cfg.dataFile = true ∨ fs.files cfg.dataFile ≠ none) :
    Saved i cfg.dataFile w ∧ Leaves cfg.dataFile fs w.fs := by
  obtain ⟨-, wp, fs', hnew, hinit⟩ := h
  obtain ⟨-, hstatic, -, -, -⟩ := newServer_spec lib _ queue _ _ _ hnew
  obtain ⟨rfl, hleaves, hpaths⟩ := newServer_leaves (p := cfg.dataFile) hnew
  obtain ⟨err, hinit⟩ := initServer_ok hinit
  simp only [init, EStateM.run_bind, EStateM.run_get] at hinit
  have hr : ∃ r, wp.resources[i]? = some r ∧ r.config = cfg := by
    have hmap : (wp.resources.map (·.config))[i]? = some cfg := by
      rw [hstatic, staticConfigs, overrideLogDir_resources]
      exact hcfg
    rw [List.getElem?_map, Option.map_eq_some_iff] at hmap
    exact hmap
  obtain ⟨r, hr, rfl⟩ := hr
  have hpath := hpaths r (List.mem_of_getElem? hr)
  have hfile' : wp.fs.writable r.config.dataFile = true ∨ wp.fs.files r.config.dataFile ≠ none := by
    rcases hfile with hw | hf
    · exact Or.inl ((congrArg Prod.fst hleaves.access).trans hw)
    · obtain ⟨f, hf⟩ := Option.ne_none_iff_exists'.mp hf
      exact Or.inr (by rw [hleaves.kept f hf]; exact Option.some_ne_none f)
  have hmem : i ∈ List.range wp.resources.length :=
    List.mem_range.mpr (List.getElem?_eq_some_iff.mp hr).1
  obtain ⟨hsaved, hleaves'⟩ := attachAll_saved hdata _ hinit
    ((congrArg Prod.snd hleaves.access).trans hread) hfile' ⟨r, hr, hpath⟩ (Or.inl hmem)
  exact ⟨hsaved, hleaves.trans hleaves'⟩

end Start

/-! ### A restart -/

/-- **Values survive a restart.** A server has started, with a data file for the resource at `i` that
can be written and read, and then anything has happened, one call after the other, but changes of that
file by others. Wherever a server starts afterwards that finds the file as it was left and can read it,
its resource with this data file, at `j`, has the value that the first server ended with. -/
theorem values_survive_restart {parse parse' : Str → Except Failure Json} {file file' : Option Str}
    {path path' logDir logDir' : Str} {lib lib' : Library}
    {queue queue' : RequestQueue RequestQueueItem} {fs fs' : FileSystem} {config config' : Config}
    {w₀ w w' : CoAPServer κ} (hstart : Started parse file path logDir lib queue fs config w₀)
    {i j : ℕ} {cfg cfg' : ResourceConfig} (hcfg : (staticConfigs config)[i]? = some cfg)
    (hdata : cfg.dataFile ≠ []) (hopen : fs.access cfg.dataFile = (true, true)) {re : Matcher}
    (hrun : Runs (step re) (Unspoilt cfg.dataFile) w₀ w) (hown : Own i cfg.dataFile w)
    (hstart' : Started parse' file' path' logDir' lib' queue' fs' config' w')
    (hcfg' : (staticConfigs config')[j]? = some cfg') (hsame : cfg'.dataFile = cfg.dataFile)
    (hfile : fs'.files cfg.dataFile = w.fs.files cfg.dataFile)
    (hread : fs'.readable cfg.dataFile = true) :
    ∃ r r', w.resources[i]? = some r ∧ w'.resources[j]? = some r' ∧ r'.value = r.value := by
  obtain ⟨hsaved, hleaves⟩ := started_saved hstart hcfg hdata (congrArg Prod.snd hopen)
    (Or.inl (congrArg Prod.fst hopen))
  have hruns := run_saves (i := i) hdata hrun
  obtain ⟨r, f, hr, -, hf, hvalue⟩ :=
    hruns.saved hown (hleaves.access.trans hopen) hsaved
  have hfile' : fs'.files cfg'.dataFile = some f := by rw [hsame, hfile, hf]
  have hexists : fs'.files cfg'.dataFile ≠ none := by
    rw [hfile']
    exact Option.some_ne_none f
  obtain ⟨⟨r', f', hr', -, hf', hvalue'⟩, hleaves'⟩ :=
    started_saved hstart' hcfg' (hsame ▸ hdata) (hsame ▸ hread) (Or.inr hexists)
  rw [hleaves'.kept f hfile'] at hf'
  obtain rfl := Option.some.inj hf'
  exact ⟨r, r', hr, hr', hvalue'.symm.trans hvalue⟩

/-- A document with a resource that has a data file, and a `PUT` that stores. -/
def fileJson (initialValue : Str) : Json :=
  .object [(str "resources", .array [.object [(str "path", .string (str "a")),
    (str "methods", .object [(str "PUT", .object [(str "store", .boolean true)])]),
    (str "datafile", .string (str "a.dat")), (str "value", .string initialValue)]])]

/-- The same, read. -/
def fileConfig (initialValue : Str) : Config :=
  { endpoint := {}
    resources := [{ resourcePath := str "a", dataFile := str "a.dat", initialValue
                    methods := [{ type := .put, store := true }] }] }

/-- The data file with a value. -/
def fileFs (value : Str) : FileSystem :=
  { Registration.openFs with
    files := fun p => if p = str "a.dat" then some { content := value, mtime := 2 } else none }

/-- A byte is put, processed, and there is a poll. -/
def putLabels : List (Label ℕ) :=
  [.request ⟨str "a", by decide⟩ Writes.putByte .put ⟨⟨0, 0⟩, []⟩ ⟨.empty, .con, [], none⟩,
    .consume Writes.quiet, .poll]

/-- The server starts, and takes these steps. -/
theorem putByte_run : ∃ w₀ w : CoAPServer ℕ,
    Started (parserOf (fileJson (str "one"))) (some (fileJson (str "one")).dump) [] []
      Registration.fullLibrary Registration.twoSlots Registration.openFs (fileConfig (str "one")) w₀ ∧
    Runs (step Registration.noMatcher) (Unspoilt (str "a.dat")) w₀ w ∧ w.resources.length = 1 ∧
    (∀ r ∈ w.resources, r.logFile = none ∧ r.value = [7]) ∧
    w.fs.files (str "a.dat") = some { content := [7], mtime := 2 } := by
  obtain ⟨w₀, hstart, hplay⟩ : ∃ w₀ : CoAPServer ℕ,
      Started (parserOf (fileJson (str "one"))) (some (fileJson (str "one")).dump) [] []
        Registration.fullLibrary Registration.twoSlots Registration.openFs (fileConfig (str "one")) w₀ ∧
      (putLabels.foldlM (guarded (step Registration.noMatcher) (Unspoilt (str "a.dat"))) w₀).map
        (fun w => decide (w.resources.length = 1 ∧
          (∀ r ∈ w.resources, r.logFile = none ∧ r.value = [7]) ∧
          w.fs.files (str "a.dat") = some { content := [7], mtime := 2 })) = some true :=
    ⟨_, ⟨newConfig_dump _ _, _, _, rfl, rfl⟩, by decide +kernel⟩
  obtain ⟨w, hrun, hcheck⟩ := Option.map_eq_some_iff.mp hplay
  exact ⟨w₀, w, hstart, runs_of_foldlM putLabels hrun, of_decide_eq_true hcheck⟩

/-- The second server is configured with another first value, and has what was put into the first. -/
theorem values_survive_restart_two : ∃ w w' : CoAPServer ℕ,
    Started (parserOf (fileJson (str "two"))) (some (fileJson (str "two")).dump) [] []
      Registration.fullLibrary Registration.twoSlots (fileFs [7]) (fileConfig (str "two")) w' ∧
    ∃ r r', w.resources[0]? = some r ∧ w'.resources[0]? = some r' ∧ r.value = [7] ∧
      r'.value = r.value := by
  obtain ⟨w₀, w, hstart, hrun, hlen, hall, hfile⟩ := putByte_run
  obtain ⟨w', hstart'⟩ : ∃ w' : CoAPServer ℕ,
      Started (parserOf (fileJson (str "two"))) (some (fileJson (str "two")).dump) [] []
        Registration.fullLibrary Registration.twoSlots (fileFs [7]) (fileConfig (str "two")) w' :=
    ⟨_, newConfig_dump _ _, _, _, rfl, rfl⟩
  have hown : Own 0 (str "a.dat") w := by
    refine ⟨fun j r hr _ => ?_, fun r hr => ?_⟩
    · have hlt := (List.getElem?_eq_some_iff.mp hr).1
      omega
    · rw [(hall r hr).1]
      exact (Option.some_ne_none _).symm
  obtain ⟨r, r', hr, hr', hvalue⟩ := values_survive_restart hstart (i := 0) (j := 0) rfl (by decide)
    rfl hrun hown hstart' rfl rfl hfile.symm rfl
  exact ⟨w, w', hstart', r, r', hr, hr', (hall r (List.mem_of_getElem? hr)).2, hvalue⟩

end CoapServer.Server.Restart
