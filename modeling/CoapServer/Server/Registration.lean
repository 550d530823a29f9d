import CoapServer.Server.Startup
import Mathlib.Data.List.Nodup

/-! # Live registrations

`coap_add_resource` at a path that is registered deletes what was registered there. A resource whose
registration was deleted is still polled, and notifies its observers through a pointer to nothing.

A resource that is created for a URI is registered at a path that was free, so it deletes nothing,
and nothing deletes it (`created_live`). Of the resources of the configuration two with one path
delete one another: the registrations are live, now and after any run, exactly if the paths differ
(`live_iff_distinct`). -/

namespace CoapServer.Server.Registration

open CoapServer.Basic CoapServer.Config CoapServer.Lib.Run CoapServer.Parse.Constructors
open CoapServer.Resources.Files CoapServer.Resources.Object CoapServer.Queue.Sequential
open CoapServer.Server.World CoapServer.Server.Requests CoapServer.Server.Dynamic
open CoapServer.Server.Creation CoapServer.Server.Machine CoapServer.Server.Dispatch
open CoapServer.Server.Startup

variable {κ : Type} [DecidableEq κ]

/-- **Every resource is registered** at its path, which ends at a zero for the library. -/
def AllLive (w : CoAPServer κ) : Prop :=
  ∀ (i : ℕ) (r : Resource), w.resources[i]? = some r →
    ∃ reg, w.registry (cStr r.config.resourcePath) = some reg ∧ reg.resource = i

/-- The paths of the resources of the configuration differ. -/
def DistinctPaths (config : Config) : Prop :=
  ((staticConfigs config).map fun cfg => cStr cfg.resourcePath).Nodup

instance (config : Config) : Decidable (DistinctPaths config) := by
  unfold DistinctPaths
  infer_instance

/-! ### The layout -/

/-- Every object is registered. -/
def Live (l : Layout) : Prop :=
  ∀ (i : ℕ) (c : ResourceConfig) (ms : List ResourceMethod), l.objects[i]? = some (c, ms) →
    ∃ reg, l.registry (cStr c.resourcePath) = some reg ∧ reg.resource = i

omit [DecidableEq κ] in
theorem live_layout (w : CoAPServer κ) : Live (layout w) ↔ AllLive w := by
  constructor
  · intro h i r hr
    refine h i r.config r.methods ?_
    rw [layout, List.getElem?_map, hr, Option.map_some]
  · intro h i c ms hobj
    rw [layout, List.getElem?_map, Option.map_eq_some_iff] at hobj
    obtain ⟨r, hr, heq⟩ := hobj
    obtain ⟨rfl, -⟩ := Prod.mk.inj heq
    exact h i r hr

/-- **A resource that is created** deletes no registration. -/
theorem created_live {re : Matcher} {l l' : Layout} (h : Created re l l') (hlive : Live l) :
    Live l' := by
  obtain ⟨uri, cfg, sm, ms, hzero, hnone, -, -, rfl⟩ := h
  intro i c ms' hobj
  rcases objects_concat hobj with hobj | ⟨rfl, heq⟩
  · obtain ⟨reg, hreg, hres⟩ := hlive i c ms' hobj
    have hne : cStr c.resourcePath ≠ uri := by
      intro heq
      rw [heq, hnone] at hreg
      cases hreg
    refine ⟨reg, ?_, hres⟩
    simp only [addObject, dynamicConfig, Function.update_of_ne hne]
    exact hreg
  · obtain ⟨rfl, rfl⟩ := Prod.mk.inj heq
    refine ⟨⟨l.objects.length, hasType ms'⟩, ?_, rfl⟩
    simp [addObject, dynamicConfig, cStr_eq_self hzero]

/-- Two objects that are live have different paths. -/
theorem Live.injective {l : Layout} (h : Live l) {i j : ℕ} {c c' : ResourceConfig}
    {ms ms' : List ResourceMethod} (hi : l.objects[i]? = some (c, ms))
    (hj : l.objects[j]? = some (c', ms')) (hpath : cStr c.resourcePath = cStr c'.resourcePath) :
    i = j := by
  obtain ⟨reg, hreg, rfl⟩ := h i c ms hi
  obtain ⟨reg', hreg', rfl⟩ := h j c' ms' hj
  rw [hpath, hreg'] at hreg
  rw [Option.some.inj hreg]

/-- The paths of the objects differ. -/
def DistinctObjects (l : Layout) : Prop :=
  (l.objects.map fun o => cStr o.1.resourcePath).Nodup

/-- **At the start** every object is registered if the paths differ. -/
theorem live_of_attached {l : Layout} (h : Attached l) (hdistinct : DistinctObjects l) : Live l := by
  intro i c ms hobj
  obtain ⟨reg, hreg⟩ := Option.ne_none_iff_exists'.mp (h.complete i c ms hobj)
  refine ⟨reg, hreg, ?_⟩
  obtain ⟨c', ms', hobj', hpath⟩ := h.sound _ _ hreg
  have hat : ∀ {k : ℕ} {c : ResourceConfig} {ms : List ResourceMethod},
      l.objects[k]? = some (c, ms) →
      (l.objects.map fun o => cStr o.1.resourcePath)[k]? = some (cStr c.resourcePath) := by
    intro k c ms hk
    rw [List.getElem?_map, hk, Option.map_some]
  have hlt : reg.resource < (l.objects.map fun o => cStr o.1.resourcePath).length :=
    (List.getElem?_eq_some_iff.mp (hat hobj')).1
  exact (List.getElem?_inj hlt hdistinct).mp (by rw [hat hobj', hat hobj, hpath])

theorem distinct_of_live {l : Layout} (h : Live l) : DistinctObjects l := by
  unfold DistinctObjects
  rw [List.nodup_iff_getElem?_ne_getElem?]
  intro i j hij hj heq
  rw [List.length_map] at hj
  have hi : i < l.objects.length := by omega
  rw [List.getElem?_map, List.getElem?_map, List.getElem?_eq_getElem hi,
    List.getElem?_eq_getElem hj] at heq
  have hsame := h.injective (List.getElem?_eq_getElem hi) (List.getElem?_eq_getElem hj)
    (Option.some.inj heq)
  omega

/-- The objects of the start stay where they are. -/
theorem objects_kept {re : Matcher} {w₀ w : CoAPServer κ} (hrun : Reach (step re) w₀ w) :
    (layout w₀).objects <+: (layout w).objects := by
  refine Runs.invariant (P := fun w => (layout w₀).objects <+: (layout w).objects) ?_ hrun
    List.prefix_rfl
  intro w l w' hpre _ hs
  rcases step_layout hs with hsame | ⟨uri, cfg, sm, ms, -, -, -, -, hadd⟩
  · rw [hsame]
    exact hpre
  · rw [hadd]
    exact hpre.trans (List.prefix_append _ _)

/-- **Along a run** every registration stays live. -/
theorem live_run {re : Matcher} {w₀ w : CoAPServer κ} (h₀ : Live (layout w₀))
    (hrun : Reach (step re) w₀ w) : Live (layout w) := by
  refine Runs.invariant (P := fun w => Live (layout w)) ?_ hrun h₀
  intro w l w' hlive _ hs
  rcases step_layout hs with hsame | hcreated
  · rw [hsame]
    exact hlive
  · exact created_live hcreated hlive

/-! ### The server -/

section Started
variable {parse : Str → Except Failure Json} {file : Option Str} {path logDir : Str} {lib : Library}
  {queue : RequestQueue RequestQueueItem} {fs : FileSystem} {config : Config} {w₀ : CoAPServer κ}
  (hstart : Started parse file path logDir lib queue fs config w₀)
include hstart

omit [DecidableEq κ] in
/-- The objects at the start are those of the configuration. -/
theorem distinct_started : DistinctPaths config ↔ DistinctObjects (layout w₀) := by
  obtain ⟨-, -, hstatic⟩ := started_layout hstart
  unfold DistinctPaths DistinctObjects
  rw [← hstatic, layout, List.map_map, List.map_map]
  rfl

/-- **The registrations are live exactly if the paths of the configuration differ.** In every state
that requests, the queue thread, the poll thread and changes of the files reach after the start, every
resource is registered at its path if and only if no two resources of the configuration that are not
dynamic, explicit ones and those made from templates, have the same path. -/
theorem live_iff_distinct {re : Matcher} {w : CoAPServer κ} (hrun : Reach (step re) w₀ w) :
    AllLive w ↔ DistinctPaths config := by
  obtain ⟨hatt, -, -⟩ := started_layout hstart
  rw [distinct_started hstart, ← live_layout]
  constructor
  · intro hlive
    have hsub := ((objects_kept hrun).map fun o => cStr o.1.resourcePath).sublist
    exact (distinct_of_live hlive).sublist hsub
  · exact fun h => live_run (live_of_attached hatt h) hrun

end Started

/-! ### Two resources -/

/-- A resource without methods. -/
def pathJson (path : Str) : Json :=
  .object [(str "path", .string path), (str "methods", .object [])]

/-- A document with resources at two paths. -/
def twoDocument (p q : Str) : Json :=
  .object [(str "resources", .array [pathJson p, pathJson q])]

/-- The configuration that is read of it. -/
def twoPaths (p q : Str) : Config :=
  { endpoint := {}, resources := [{ resourcePath := p }, { resourcePath := q }] }

/-- The library has everything. -/
def fullLibrary : Library :=
  { dtlsIsSupported := true, tlsIsSupported := true, resolveAddress := true, newContext := true
    setupSecurity := true, newEndpoint := true }

/-- Files that can be written. -/
def openFs : FileSystem :=
  { files := fun _ => none, clock := 0, writable := fun _ => true, creatable := fun _ => true
    opened := [], created := [] }

/-- A queue with two slots. -/
def twoSlots : RequestQueue RequestQueueItem :=
  { maxSize := 2, items := [default, default], start := 0, end_ := 0 }

/-- A server with the two resources can start. -/
theorem twoPaths_started (p q : Str) : ∃ w : CoAPServer ℕ,
    Started (parserOf (twoDocument p q)) (some (twoDocument p q).dump) [] [] fullLibrary twoSlots
      openFs (twoPaths p q) w :=
  ⟨_, newConfig_dump _ _, _, _, rfl, rfl⟩

/-- A matcher that matches nothing. -/
def noMatcher : Matcher := fun _ _ => .ok none

theorem live_iff_distinct_two : ∃ w : CoAPServer ℕ,
    AllLive w ∧ w.resources.length = 2 := by
  obtain ⟨w, hstart⟩ := twoPaths_started (str "a") (str "b")
  have hrun : Reach (step noMatcher) w w := Runs.refl w
  refine ⟨w, (live_iff_distinct hstart hrun).mpr (by decide), ?_⟩
  obtain ⟨-, -, hstatic⟩ := started_layout hstart
  have hlen := congrArg List.length hstatic
  rwa [List.length_map] at hlen

/-- **Two resources with one path**: the first is not registered any more. -/
theorem same_path_deletes : ¬ ∀ (parse : Str → Except Failure Json) (file : Option Str)
    (path logDir : Str) (lib : Library) (queue : RequestQueue RequestQueueItem) (fs : FileSystem)
    (config : Config) (w₀ w : CoAPServer ℕ) (re : Matcher),
    Started parse file path logDir lib queue fs config w₀ → Reach (step re) w₀ w → AllLive w := by
  intro h
  obtain ⟨w, hstart⟩ := twoPaths_started (str "a") (str "a")
  have hlive := h _ _ _ _ _ _ _ _ w w noMatcher hstart (Runs.refl w)
  have hdistinct := (distinct_started hstart).mpr (distinct_of_live ((live_layout w).mpr hlive))
  revert hdistinct
  decide

end CoapServer.Server.Registration
