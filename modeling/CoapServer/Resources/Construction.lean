import CoapServer.Lib.Fallible
import CoapServer.Lib.Outcome
import CoapServer.Resources.Object

/-! # When a resource can be constructed

The constructor of `Resource` throws for a format without a formatter, and for a method that logs
where there is no log file. On files that can all be written nothing else throws, neither in the
constructor (`ends_create`) nor where the first value is set (`ends_initValue`). -/

namespace CoapServer.Resources.Construction

open CoapServer.Basic CoapServer.Config CoapServer.Lib.Fallible CoapServer.Lib.Outcome
open CoapServer.Resources.Files CoapServer.Resources.Formatter CoapServer.Resources.Object

/-- **A format that has a formatter.** -/
def Known (format : Str) : Prop :=
  format = str "STRING" ∨ format = str "HEX" ∨ format = str "BASE64"

instance (format : Str) : Decidable (Known format) := by
  unfold Known
  infer_instance

/-- **A resource that can be constructed**: its formats are known, and a method that logs has a log
file. -/
structure Constructible (config : ResourceConfig) : Prop where
  formats : ∀ c ∈ config.methods, ∀ format ∈ c.format, Known format
  logFile : (∃ c ∈ config.methods, c.logValue = true) → config.logFile ≠ []

/-- **Calls on the files succeed**: every path can be written, every directory created. -/
structure Succeeds (fs : FileSystem) : Prop where
  writable : ∀ p, fs.writable p = true
  creatable : ∀ p, fs.creatable p = true

theorem Succeeds.put {fs : FileSystem} (h : Succeeds fs) (p content : Str) :
    Succeeds (fs.put p content) := ⟨h.writable, h.creatable⟩

/-! ### A method -/

theorem known_iff {format : Str} :
    (∃ fmt, createResourceFormatter format = .ok fmt) ↔ Known format := by
  unfold createResourceFormatter Known
  split_ifs with htext hhex hbase
  · exact ⟨fun _ => Or.inl htext, fun _ => ⟨_, rfl⟩⟩
  · exact ⟨fun _ => Or.inr (Or.inl hhex), fun _ => ⟨_, rfl⟩⟩
  · exact ⟨fun _ => Or.inr (Or.inr hbase), fun _ => ⟨_, rfl⟩⟩
  · refine ⟨?_, fun h => ?_⟩
    · rintro ⟨fmt, ⟨⟩⟩
    · rcases h with h | h | h
      · exact absurd h htext
      · exact absurd h hhex
      · exact absurd h hbase

/-- **When a method can be constructed.** -/
theorem ends_newMethod (c : ResourceMethodConfig) (fs : FileSystem) :
    Ends (MonadExcept.ofExcept (newMethod c) : FsM ResourceMethod) fs
      (∀ format ∈ c.format, Known format) fun m fs' => m.config = c ∧ fs' = fs := by
  have hiff : (∃ fmts, c.format.mapM createResourceFormatter = .ok fmts) ↔
      ∀ format ∈ c.format, Known format := by simp only [mapM_isOk_iff, known_iff]
  unfold newMethod
  cases hfmts : c.format.mapM createResourceFormatter with
  | ok fmts =>
    have hends : Ends (pure ⟨c, fmts⟩ : FsM ResourceMethod) fs True
        fun m fs' => m.config = c ∧ fs' = fs := Ends.pure ⟨rfl, rfl⟩
    exact hends.congr (iff_of_true trivial (hiff.mp ⟨fmts, hfmts⟩))
  | error e =>
    refine (Ends.throw e).congr (iff_of_false id fun h => ?_)
    obtain ⟨fmts, hok⟩ := hiff.mpr h
    rw [hfmts] at hok
    cases hok

/-! ### The log file -/

section Files
variable {fs : FileSystem} (hfs : Succeeds fs)
include hfs

theorem ends_createDirectories (p : Str) :
    Ends (createDirectories p) fs True fun _ => Succeeds := by
  have hrun : (createDirectories p).run fs = .ok ⟨⟩ { fs with created := fs.created ++ [p] } := by
    simp only [createDirectories, EStateM.run_bind, EStateM.run_get, hfs.creatable, if_true,
      EStateM.run_modify]
  exact Ends.of_run hrun ⟨hfs.writable, hfs.creatable⟩

theorem ends_openAppend (p : Str) :
    Ends (openAppend p) fs True fun b fs' => b = true ∧ Succeeds fs' := by
  have hopened : Succeeds { fs with opened := fs.opened ++ [p] } := ⟨hfs.writable, hfs.creatable⟩
  cases hfile : fs.files p with
  | none =>
    have hrun : (openAppend p).run fs =
        .ok true (FileSystem.put { fs with opened := fs.opened ++ [p] } p []) := by
      simp only [openAppend, EStateM.run_bind, EStateM.run_get, hfs.writable, if_true,
        EStateM.run_modify, hfile, Option.isNone_none, EStateM.run_pure]
    exact Ends.of_run hrun ⟨rfl, hopened.put p []⟩
  | some file =>
    have hrun : (openAppend p).run fs = .ok true { fs with opened := fs.opened ++ [p] } := by
      simp only [openAppend, EStateM.run_bind, EStateM.run_get, hfs.writable, if_true,
        EStateM.run_modify, hfile, Option.isNone_some, Bool.false_eq_true, if_false,
        EStateM.run_pure]
    exact Ends.of_run hrun ⟨rfl, hopened⟩

/-- **When the log file is opened.** -/
theorem ends_openLog (config : ResourceConfig) (logDir : Str) :
    Ends (openLog config logDir) fs (config.logFile ≠ []) fun _ => Succeeds := by
  unfold openLog
  by_cases hlog : config.logFile = []
  · rw [if_pos hlog]
    exact (Ends.throw _).congr (iff_of_false id (not_not.mpr hlog))
  · rw [if_neg hlog]
    have hopen : ∀ fs', Succeeds fs' → Ends (do
        if ← openAppend (logPath logDir config.logFile) then
          return logPath logDir config.logFile
        throw (.runtimeError (str "Failed to open log file `" ++ logPath logDir config.logFile ++
          str "` for resource " ++ config.resourcePath)) : FsM Str) fs' True fun _ => Succeeds := by
      intro fs' hfs'
      refine ((ends_openAppend hfs' _).bind (D := True) fun b fs₁ h => ?_).congr (and_true _ ▸ Iff.rfl)
      obtain ⟨rfl, hfs₁⟩ := h
      exact Ends.pure hfs₁
    refine (Ends.ite (fun _ => ?_) fun _ => hopen fs hfs).congr (iff_of_true trivial hlog)
    refine ((ends_createDirectories hfs _).bind fun _ fs' hfs' => hopen fs' hfs').congr ?_
    rw [and_true]

end Files

/-! ### The object -/

/-- **When the loop over the methods returns.** -/
theorem ends_addMethods (config : ResourceConfig) (logDir : Str) (cs : List ResourceMethodConfig) :
    ∀ (r : Resource) (fs : FileSystem), Succeeds fs → Ends (addMethods config logDir cs r) fs
      ((∀ c ∈ cs, ∀ format ∈ c.format, Known format) ∧
        (r.logFile = none → (∃ c ∈ cs, c.logValue = true) → config.logFile ≠ []))
      fun _ => Succeeds := by
  induction cs with
  | nil =>
    intro r fs hfs
    exact (Ends.pure (Q := fun _ => Succeeds) hfs).congr (by simp)
  | cons c cs ih =>
    intro r fs hfs
    have hrest : ∀ m fs', m.config = c ∧ fs' = fs → Ends (do
        let r := { r with methods := r.methods ++ [m] }
        if c.logValue = true ∧ r.logFile = none then
          let path ← openLog config logDir
          addMethods config logDir cs { r with logFile := some path }
        else addMethods config logDir cs r : FsM Resource) fs'
        ((∀ c ∈ cs, ∀ format ∈ c.format, Known format) ∧
          (r.logFile = none → (∃ c' ∈ c :: cs, c'.logValue = true) → config.logFile ≠ []))
        fun _ => Succeeds := by
      rintro m _ ⟨-, rfl⟩
      refine Ends.ite (fun hlog => ?_) fun hlog => ?_
      · obtain ⟨hvalue, hnone⟩ := hlog
        have hopened : ∀ path fs₁, Succeeds fs₁ → Ends (addMethods config logDir cs
            { r with methods := r.methods ++ [m], logFile := some path }) fs₁
            (∀ c ∈ cs, ∀ format ∈ c.format, Known format) fun _ => Succeeds :=
          fun path fs₁ hfs₁ => (ih _ fs₁ hfs₁).congr (by simp)
        refine ((ends_openLog hfs config logDir).bind hopened).congr ?_
        have hlogs : ∃ c' ∈ c :: cs, c'.logValue = true := ⟨c, List.mem_cons_self, hvalue⟩
        rw [forall_prop_of_true hnone, forall_prop_of_true hlogs, and_comm]
      · refine (ih _ _ hfs).congr (and_congr_right' (forall_congr' fun hnone => ?_))
        have hc : ¬ c.logValue = true := fun h => hlog ⟨h, hnone⟩
        simp [hc]
    refine ((ends_newMethod c fs).bind hrest).congr ?_
    rw [List.forall_mem_cons, and_assoc]

/-- **When the constructor returns.** -/
theorem ends_create {fs : FileSystem} (hfs : Succeeds fs) (config : ResourceConfig) (logDir : Str) :
    Ends (create config logDir) fs (Constructible config) fun _ => Succeeds := by
  refine ((ends_addMethods config logDir config.methods _ fs hfs).bind (D := True)
    fun r fs' hfs' => Ends.pure hfs').congr ?_
  rw [and_true]
  exact ⟨fun h => ⟨h.1, h.2 rfl⟩, fun h => ⟨h.formats, fun _ => h.logFile⟩⟩

/-- **The first value can be set.** -/
theorem ends_initValue {fs : FileSystem} (hfs : Succeeds fs) (r : Resource) :
    Ends r.initValue fs True fun _ => Succeeds := by
  by_cases hpath : r.dataFilePath = []
  · rw [initValue_noFile hpath]
    exact Ends.of_run (setValue_noFile hpath _) hfs
  · cases hfile : fs.files r.dataFilePath with
    | some f => exact Ends.of_run (initValue_present hpath hfile) hfs
    | none =>
      have hrun := setValue_run hpath (hfs.writable _) r.config.initialValue
      rw [← initValue_absent hpath hfile] at hrun
      exact Ends.of_run hrun (hfs.put _ _)

end CoapServer.Resources.Construction
