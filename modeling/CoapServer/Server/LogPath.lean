import CoapServer.Lib.Path
import CoapServer.Server.Dispatch

/-! # Where the log files of dynamic resources are

The log file of a dynamic resource is a template that is filled with parts of the URI of a request,
and then prepended with the log directory. The path that is opened is inside the log directory
exactly if the filled template does not climb out of it, or comes back the way it went
(`log_inside_iff`). -/

namespace CoapServer.Server.LogPath

open CoapServer.Basic CoapServer.Config CoapServer.Lib.Frame CoapServer.Lib.Path
open CoapServer.Resources.Files CoapServer.Resources.Object CoapServer.Server.Substitute
open CoapServer.Server.Dynamic CoapServer.Server.Dispatch

/-- `'.'`. -/
def dot : Byte := 0x2e

/-- `lexically_normal`. -/
def lexicallyNormal (path : Str) : NormalPath Byte := normalise separator dot path

/-- **The filled template stays below the log directory**, or climbs no further than it is deep and
comes back down through the same directories. -/
def StaysBelow (logDir template : Str) (sm : List Str) : Prop :=
  ∀ out, Filled template sm out → Returns (lexicallyNormal logDir) (relative separator dot out)

/-! ### What the constructor opens -/

/-- Every path that is opened meets `P`. -/
def Opens (P : Str → Prop) (fs fs' : FileSystem) : Prop := ∀ p ∈ fs'.opened, p ∈ fs.opened ∨ P p

section Opens
variable {P : Str → Prop}

theorem Opens.refl (fs : FileSystem) : Opens P fs fs := fun _ hp => Or.inl hp

theorem Opens.trans {fs fs' fs'' : FileSystem} (h : Opens P fs fs') (h' : Opens P fs' fs'') :
    Opens P fs fs'' := fun p hp => (h' p hp).elim (h p) Or.inr

theorem opens_createDirectories (p : Str) : Moves (Opens P) (createDirectories p) := by
  refine Moves.bind Opens.trans (Moves.get Opens.refl) fun fs => Moves.ite ?_ ?_
  · exact Moves.modify fun fs p hp => Or.inl hp
  · exact Moves.throw Opens.refl _

theorem opens_openAppend {path : Str} (hpath : P path) : Moves (Opens P) (openAppend path) := by
  have hput : Moves (Opens P) (modify fun fs => fs.put path [] : FsM Unit) :=
    Moves.modify fun fs p hp => Or.inl hp
  refine Moves.bind Opens.trans (Moves.get Opens.refl) fun fs => Moves.ite ?_ ?_
  · refine Moves.bind Opens.trans (Moves.modify fun fs p hp => ?_) fun _ => ?_
    · rcases List.mem_append.mp hp with hp | hp
      · exact Or.inl hp
      · obtain rfl := List.mem_singleton.mp hp
        exact Or.inr hpath
    · refine Moves.bind Opens.trans (Moves.get Opens.refl) fun fs => Moves.ite ?_ ?_
      · exact Moves.bind Opens.trans hput fun _ => Moves.pure Opens.refl _
      · exact Moves.pure Opens.refl _
  · exact Moves.pure Opens.refl _

/-- The log file of a configuration that has one. -/
def IsLogPath (config : ResourceConfig) (logDir p : Str) : Prop :=
  p = logPath logDir config.logFile ∧ config.logFile ≠ []

theorem opens_openLog (config : ResourceConfig) (logDir : Str) :
    Moves (Opens (IsLogPath config logDir)) (openLog config logDir) := by
  unfold openLog
  by_cases hlog : config.logFile = []
  · rw [if_pos hlog]
    exact Moves.throw Opens.refl _
  · rw [if_neg hlog]
    refine Moves.ite (Moves.bind Opens.trans (opens_createDirectories _) fun _ => ?_) ?_
    all_goals
      refine Moves.bind Opens.trans (opens_openAppend ⟨rfl, hlog⟩) fun b => Moves.ite ?_ ?_
      · exact Moves.pure Opens.refl _
      · exact Moves.throw Opens.refl _

theorem opens_addMethods (config : ResourceConfig) (logDir : Str) (cs : List ResourceMethodConfig) :
    ∀ r, Moves (Opens (IsLogPath config logDir)) (addMethods config logDir cs r) := by
  induction cs with
  | nil => exact fun r => Moves.pure Opens.refl _
  | cons c cs ih =>
    intro r
    refine Moves.bind Opens.trans ?_ fun m => Moves.ite ?_ (ih _)
    · cases newMethod c with
      | ok m => exact Moves.pure Opens.refl _
      | error e => exact Moves.throw Opens.refl _
    · exact Moves.bind Opens.trans (opens_openLog config logDir) fun path => ih _

/-- **The constructor opens the log file only.** -/
theorem opens_create (config : ResourceConfig) (logDir : Str) :
    Moves (Opens (IsLogPath config logDir)) (create config logDir) :=
  Moves.bind Opens.trans (opens_addMethods _ _ _ _) fun _ => Moves.pure Opens.refl _

end Opens

/-! ### Where the path lies -/

/-- A log file below a log directory. -/
theorem logPath_normal {logDir : Str} (hdir : logDir ≠ []) (logFile : Str) :
    lexicallyNormal (logPath logDir logFile) =
      under (lexicallyNormal logDir) (relative separator dot logFile) := by
  rw [logPath, if_pos hdir, List.append_assoc, List.singleton_append]
  exact normalise_join separator dot hdir logFile

/-- The paths that the constructor of the resource for a URI opens, whether it returns or throws. -/
def openedPaths (cfg : ResourceConfig) (uri : Str) (sm : List Str) (logDir : Str)
    (fs : FileSystem) : List Str :=
  (final ((create (dynamicConfig cfg uri sm) logDir).run { fs with opened := [] })).opened

/-- **A path that is opened is inside the log directory exactly if the filled template stays below
it.** -/
theorem log_inside_iff {cfg : ResourceConfig} {uri : Str} {sm : List Str} {logDir : Str}
    {fs : FileSystem} {p : Str} (hdir : logDir ≠ []) (hp : p ∈ openedPaths cfg uri sm logDir fs) :
    Inside (lexicallyNormal logDir) (lexicallyNormal p) ↔ StaysBelow logDir cfg.logFile sm := by
  have hopen := opens_create (dynamicConfig cfg uri sm) logDir { fs with opened := [] } p hp
  obtain ⟨rfl, hlog⟩ := hopen.resolve_left List.not_mem_nil
  have hfilled : Filled cfg.logFile sm (regexReplace cfg.logFile sm) := filled_of_ne_nil hlog
  rw [logPath_normal hdir, inside_under_iff]
  constructor
  · intro h out hout
    rw [hout.unique hfilled]
    exact h
  · exact fun h => h _ hfilled

/-- The files of a fresh server. -/
def freshFiles : FileSystem := dynamicServer.fs

theorem log_inside_iff_val :
    Inside (lexicallyNormal (str "logs")) (lexicallyNormal (str "logs/dynamic/a/value-7.log")) ↔
      StaysBelow (str "logs") dynamicVal.logFile [str "dyn/a/val7", str "a", str "7"] := by
  have hp : str "logs/dynamic/a/value-7.log" ∈ openedPaths dynamicVal (str "dyn/a/val7")
      [str "dyn/a/val7", str "a", str "7"] (str "logs") freshFiles := by decide
  exact log_inside_iff (by decide) hp

/-- `dyn/../../../etc/val1`. -/
def climbingUri : Uri := ⟨str "dyn/../../../etc/val1", by decide⟩

/-- A matcher that knows the groups of that URI. -/
def climbingMatcher : Matcher := fun pattern uri =>
  if pattern = dynamicVal.resourcePath ∧ uri = climbingUri.path then
    .ok (some [climbingUri.path, str "../../../etc", str "1"])
  else .ok none

/-- The segments of the URI lead out of the log directory. -/
theorem log_climbs : ¬ ∀ (re : Matcher) (cfg : ResourceConfig) (uri : Uri) (sm : List Str)
    (logDir : Str) (fs : FileSystem) (p : Str), cfg.dynamic = true →
    cfg.logFile.head? ≠ some separator → [dot, dot] ∉ cfg.logFile.splitOn separator → logDir ≠ [] →
    re cfg.resourcePath uri.path = .ok (some sm) → p ∈ openedPaths cfg uri.path sm logDir fs →
    Inside (lexicallyNormal logDir) (lexicallyNormal p) := by
  intro h
  have hinside := h climbingMatcher dynamicVal climbingUri
    [climbingUri.path, str "../../../etc", str "1"] (str "logs") freshFiles
    (str "logs/dynamic/../../../etc/value-1.log") rfl (by decide) (by decide) (by decide) rfl
    (by decide)
  exact absurd hinside (by decide)

end CoapServer.Server.LogPath
