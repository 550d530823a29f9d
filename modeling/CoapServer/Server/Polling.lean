import CoapServer.Resources.DataFile
import CoapServer.Server.Creation

/-! # Polling converges to the data file

Calls on a resource with a data file are made one after the other, and in between others rewrite,
delete and create the file and change who may read and write it. A call alone is a run of the two
threads that disturbs nothing, so the value and the file agree wherever no poll would read the file
(`Synced`), as long as what a call does to the file takes effect (`Sound`): a value that is not written,
or is written in part, and a file that is not read are never noticed again.

So in a run of sound steps a poll ends with the content of the file, and a second one finds nothing to
do; and after a step that is not sound there are polls that do not (`polling_converges_iff`). -/

namespace CoapServer.Server.Polling

open CoapServer.Basic CoapServer.Config CoapServer.Lib.Run CoapServer.Resources.Files
open CoapServer.Resources.Object CoapServer.Server.World CoapServer.Server.Dynamic
open CoapServer.Server.Creation CoapServer.Blocks.SessionData
open CoapServer.Resources.DataFile (shared Start setValue_alone rewrite_alone)

/-! ### The machine -/

/-- A resource and the files, and if `dataFileLock` is taken between the calls: an exception leaves it
so. -/
structure State where
  resource : Resource
  fs : FileSystem
  locked : Bool

/-- A step: a call, where the data file may have room for some bytes only; another process that writes
or deletes the data file; a change of who may write or read it; or time that passes. -/
inductive Label where
  | setValue (value : Str) (room : Option ℕ)
  | valueUpdate
  | rewrite (content : Str)
  | delete
  | permit (writable readable : Bool)
  | wait (t : ℤ)

/-- The file that the next poll would read, if any. -/
def newFile (s : State) : Option File :=
  (s.fs.files s.resource.dataFilePath).filter fun f => s.resource.dataFileWriteTime < f.mtime

/-- A call of `setValue`, which waits for ever for a lock that is taken. Where it throws, the value is
set and the lock is taken. -/
def setValue (s : State) (value : Str) (room : Option ℕ) : Option State :=
  if s.locked then none
  else match (s.resource.setValueUpTo room value).run s.fs with
    | .ok r fs => some ⟨r, fs, false⟩
    | .error _ fs => some ⟨{ s.resource with value }.notifyObservers, fs, true⟩

/-- A call of `valueUpdate`, which needs the lock for a new file. -/
def valueUpdate (s : State) : Option State :=
  if s.locked = true ∧ newFile s ≠ none then none
  else match s.resource.valueUpdate.run s.fs with
    | .ok r fs => some ⟨r, fs, s.locked⟩
    | .error _ _ => none

/-- **The step.** Every write gets a later time. -/
def step (s : State) : Label → Option State
  | .setValue value room => setValue s value room
  | .valueUpdate => valueUpdate s
  | .rewrite content => some { s with fs := s.fs.put s.resource.dataFilePath content }
  | .delete => some { s with fs := { s.fs with
      files := Function.update s.fs.files s.resource.dataFilePath none } }
  | .permit writable readable => some { s with fs := { s.fs with
      writable := Function.update s.fs.writable s.resource.dataFilePath writable
      readable := Function.update s.fs.readable s.resource.dataFilePath readable } }
  | .wait t => if s.fs.clock ≤ t then some { s with fs := { s.fs with clock := t } } else none

/-- **What a step does to the file takes effect**: `setValue` can write the file and finds room, or the
file has the value already; `valueUpdate` can read a new file, or that has nothing but zeros. -/
def Sound (s : State) : Label → Prop
  | .setValue value room =>
    if s.fs.writable s.resource.dataFilePath then upTo room value = value
    else ∃ f, s.fs.files s.resource.dataFilePath = some f ∧ f.content = value
  | .valueUpdate => ∀ f, newFile s = some f → s.fs.seen s.resource.dataFilePath f = f.content
  | .rewrite _ | .delete | .permit _ _ | .wait _ => True

/-- **What an attachment does takes effect**: it can read a data file that exists, or that has nothing
but zeros; and one that it creates has room for the first value. -/
def SoundAttach (room : Option ℕ) (r : Resource) (fs : FileSystem) : Prop :=
  match fs.files r.dataFilePath with
  | some f => fs.seen r.dataFilePath f = f.content
  | none => upTo room r.config.initialValue = r.config.initialValue

/-- The value that a poll should end with. -/
def latest (s : State) : Str :=
  match s.fs.files s.resource.dataFilePath with
  | some f => f.content
  | none => s.resource.value

/-- **A poll converges**: it leaves the files and ends with the content of the file, where there is
one, and the next one changes nothing. -/
def Polls (s : State) : Prop :=
  ∃ s', valueUpdate s = some s' ∧ s'.fs = s.fs ∧ s'.resource.value = latest s ∧
    valueUpdate s' = some s'

/-! ### Calls -/

theorem newFile_eq_some {s : State} {f : File} : newFile s = some f ↔
    s.fs.files s.resource.dataFilePath = some f ∧ s.resource.dataFileWriteTime < f.mtime := by
  rw [newFile, Option.filter_eq_some_iff, decide_eq_true_iff]

section Calls
variable {r : Resource} {fs : FileSystem} {locked : Bool} (hpath : r.dataFilePath ≠ [])
include hpath

/-- A poll without a new file changes nothing. -/
theorem valueUpdate_same (hnew : newFile ⟨r, fs, locked⟩ = none) :
    valueUpdate ⟨r, fs, locked⟩ = some ⟨r, fs, locked⟩ := by
  have hrun : r.valueUpdate.run fs = .ok r fs := by
    cases hfile : fs.files r.dataFilePath with
    | none => exact valueUpdate_absent hpath hfile
    | some f =>
      refine valueUpdate_old hpath hfile (Int.not_lt.mp fun hlt => ?_)
      have hsome : newFile ⟨r, fs, locked⟩ = some f := newFile_eq_some.mpr ⟨hfile, hlt⟩
      rw [hnew] at hsome
      cases hsome
  rw [valueUpdate, if_neg fun h => h.2 hnew, hrun]

/-- A poll of a new file. -/
theorem valueUpdate_takes {f : File} (hnew : newFile ⟨r, fs, false⟩ = some f) :
    valueUpdate ⟨r, fs, false⟩ = some ⟨r.synced (fs.seen r.dataFilePath f) f.mtime, fs, false⟩ := by
  obtain ⟨hfile, hlt⟩ := newFile_eq_some.mp hnew
  rw [valueUpdate, if_neg fun h => Bool.false_ne_true h.1, valueUpdate_new hpath hfile hlt]

/-- A value that is written, whole or in part. -/
theorem setValue_written (hw : fs.writable r.dataFilePath = true) (value : Str) (room : Option ℕ) :
    setValue ⟨r, fs, false⟩ value room =
      some ⟨r.synced value fs.clock, fs.put r.dataFilePath (upTo room value), false⟩ := by
  rw [setValue, if_neg Bool.false_ne_true, setValueUpTo_run hpath hw]

/-- A value that is not written, where there is a file. -/
theorem setValue_unwritten {f : File} (hw : fs.writable r.dataFilePath = false)
    (hfile : fs.files r.dataFilePath = some f) (value : Str) (room : Option ℕ) :
    setValue ⟨r, fs, false⟩ value room = some ⟨r.synced value f.mtime, fs, false⟩ := by
  rw [setValue, if_neg Bool.false_ne_true, setValueUpTo_denied hpath hw hfile]

/-- Where there is none, the lock is left taken. -/
theorem setValue_thrown (hw : fs.writable r.dataFilePath = false)
    (hfile : fs.files r.dataFilePath = none) (value : Str) (room : Option ℕ) :
    setValue ⟨r, fs, false⟩ value room = some ⟨{ r with value }.notifyObservers, fs, true⟩ := by
  rw [setValue, if_neg Bool.false_ne_true, setValueUpTo_throws hpath hw hfile]

omit hpath in
/-- After a look at the file there is no new one. -/
theorem newFile_synced {f : File} (hfile : fs.files r.dataFilePath = some f) (value : Str) :
    newFile ⟨r.synced value f.mtime, fs, locked⟩ = none := by
  refine Option.eq_none_iff_forall_ne_some.mpr fun f' hf' => ?_
  obtain ⟨hfile', hlt⟩ := newFile_eq_some.mp hf'
  rw [synced_dataFilePath, hfile] at hfile'
  obtain rfl := Option.some.inj hfile'
  exact Int.lt_irrefl _ hlt

/-- **A poll of an old file** converges exactly where the value is that of the file. -/
theorem polls_old_iff {f : File} (hnew : newFile ⟨r, fs, locked⟩ = none)
    (hfile : fs.files r.dataFilePath = some f) : Polls ⟨r, fs, locked⟩ ↔ r.value = f.content := by
  have hpoll := valueUpdate_same hpath hnew
  have hlatest : latest ⟨r, fs, locked⟩ = f.content := by rw [latest, hfile]
  rw [← hlatest]
  refine ⟨?_, fun hvalue => ⟨_, hpoll, rfl, hvalue, hpoll⟩⟩
  rintro ⟨s', hs', -, hvalue, -⟩
  rw [hpoll] at hs'
  obtain rfl := Option.some.inj hs'
  exact hvalue

omit hpath in
/-- A poll without a new file is sound. -/
theorem sound_old {s : State} (hnew : newFile s = none) : Sound s .valueUpdate := by
  intro f hf
  rw [hnew] at hf
  cases hf

omit hpath in
/-- **A poll of a new file waits for ever** for a lock that is taken. -/
theorem not_polls_locked {s : State} (hlocked : s.locked = true) (hnew : newFile s ≠ none) :
    ¬ Polls s := by
  rintro ⟨s', hpoll, -⟩
  rw [valueUpdate, if_pos ⟨hlocked, hnew⟩] at hpoll
  cases hpoll

end Calls

/-! ### The invariant -/

/-- **The value and the file agree**, unless the file is later than the last look at it. -/
structure Synced (s : State) : Prop where
  path : s.resource.dataFilePath ≠ []
  start : Start (shared s.resource s.fs)
  unlocked : s.locked = false

section Synced
variable {r : Resource} {fs : FileSystem} (h : Synced ⟨r, fs, false⟩)
include h

/-- **A poll converges** exactly where it can read a new file. -/
theorem Synced.polls_iff : Polls ⟨r, fs, false⟩ ↔ Sound ⟨r, fs, false⟩ .valueUpdate := by
  cases hnew : newFile ⟨r, fs, false⟩ with
  | none =>
    refine iff_of_true ?_ (sound_old hnew)
    cases hfile : fs.files r.dataFilePath with
    | none =>
      have hpoll := valueUpdate_same h.path hnew
      exact ⟨_, hpoll, rfl, by rw [latest, hfile], hpoll⟩
    | some f =>
      refine (polls_old_iff h.path hnew hfile).mpr
        (h.start.agrees f hfile (Int.not_lt.mp fun hlt => ?_))
      have hsome : newFile ⟨r, fs, false⟩ = some f := newFile_eq_some.mpr ⟨hfile, hlt⟩
      rw [hnew] at hsome
      cases hsome
  | some f =>
    obtain ⟨hfile, hlt⟩ := newFile_eq_some.mp hnew
    have hpoll := valueUpdate_takes h.path hnew
    have hlatest : latest ⟨r, fs, false⟩ = f.content := by rw [latest, hfile]
    have hpath : (r.synced (fs.seen r.dataFilePath f) f.mtime).dataFilePath ≠ [] := by
      rw [synced_dataFilePath]
      exact h.path
    have hsound : Sound ⟨r, fs, false⟩ .valueUpdate ↔ fs.seen r.dataFilePath f = f.content := by
      refine ⟨fun hsound => hsound f hnew, fun hseen f' hf' => ?_⟩
      rw [hnew] at hf'
      obtain rfl := Option.some.inj hf'
      exact hseen
    rw [hsound]
    constructor
    · rintro ⟨s', hs', -, hvalue, -⟩
      rw [hpoll] at hs'
      obtain rfl := Option.some.inj hs'
      rw [← hlatest, ← hvalue]
      exact (synced_value _ _ _).symm
    · intro hseen
      refine ⟨_, hpoll, rfl, ?_, valueUpdate_same hpath (newFile_synced hfile _)⟩
      rw [hlatest, ← hseen]
      exact synced_value _ _ _

theorem Synced.past {f : File} (hfile : fs.files r.dataFilePath = some f) : f.mtime < fs.clock := by
  have hle : f.mtime ≤ fs.clock - 1 := h.start.file f hfile
  omega

theorem Synced.written (value : Str) :
    Synced ⟨r.synced value fs.clock, fs.put r.dataFilePath value, false⟩ := by
  refine ⟨?_, h.start.run (setValue_alone value) ⟨rfl, rfl⟩, rfl⟩
  rw [synced_dataFilePath]
  exact h.path

/-- **The next poll leaves a value that is set.** -/
theorem Synced.setValue_kept {value : Str} {room : Option ℕ}
    (hsound : Sound ⟨r, fs, false⟩ (.setValue value room)) : ∃ s',
    step ⟨r, fs, false⟩ (.setValue value room) = some s' ∧ s'.resource.value = value ∧
      valueUpdate s' = some s' := by
  have hpath : ∀ t, (r.synced value t).dataFilePath ≠ [] := fun t => by
    rw [synced_dataFilePath]
    exact h.path
  simp only [Sound] at hsound
  split_ifs at hsound with hw
  · have hfile : (fs.put r.dataFilePath (upTo room value)).files r.dataFilePath =
        some ⟨upTo room value, fs.clock⟩ := put_files_self _ _ _
    refine ⟨_, setValue_written h.path hw value room, synced_value _ _ _, ?_⟩
    exact valueUpdate_same (hpath _) (newFile_synced hfile value)
  · obtain ⟨f, hf, -⟩ := hsound
    refine ⟨_, setValue_unwritten h.path (Bool.not_eq_true _ ▸ hw) hf value room,
      synced_value _ _ _, ?_⟩
    exact valueUpdate_same (hpath _) (newFile_synced hf value)

/-- **After an exception** a file is created, and the poll that should read it waits. -/
theorem Synced.thrown_waits (value : Str) : ∃ s,
    Reach step ⟨{ r with value }.notifyObservers, fs, true⟩ s ∧ Sound s .valueUpdate ∧ ¬ Polls s := by
  have hstart : Reach step (⟨{ r with value }.notifyObservers, fs, true⟩ : State)
      ⟨{ r with value }.notifyObservers, fs, true⟩ := Runs.refl _
  have htime : ({ r with value } : Resource).notifyObservers.dataFileWriteTime < fs.clock := by
    have hle : r.dataFileWriteTime ≤ fs.clock - 1 := h.start.writeTime
    have hsame : ({ r with value } : Resource).notifyObservers.dataFileWriteTime =
        r.dataFileWriteTime := by
      unfold Resource.notifyObservers
      split_ifs <;> rfl
    omega
  refine ⟨_, hstart.snoc (i := .rewrite []) trivial rfl, fun f hnew => ?_,
    not_polls_locked rfl ?_⟩
  · have hf := (newFile_eq_some.mp hnew).1
    rw [put_files_self] at hf
    obtain rfl := Option.some.inj hf
    unfold FileSystem.seen
    split_ifs <;> rfl
  · rw [newFile_eq_some.mpr ⟨put_files_self _ _ _, htime⟩]
    exact Option.some_ne_none _

end Synced

/-- An object that has taken the content of the file. -/
theorem synced_present {r : Resource} {fs : FileSystem} {f : File} (hpath : r.dataFilePath ≠ [])
    (hfile : fs.files r.dataFilePath = some f) (hpast : f.mtime < fs.clock) :
    Synced ⟨r.synced f.content f.mtime, fs, false⟩ := by
  have hsame : (shared (r.synced f.content f.mtime) fs).file = some f := by
    rw [shared, synced_dataFilePath]
    exact hfile
  have hle : f.mtime ≤ fs.clock - 1 := by omega
  refine ⟨by rw [synced_dataFilePath]; exact hpath,
    ⟨⟨rfl, rfl⟩, fun f' hf' _ => ?_, fun f' hf' => ?_, hle⟩, rfl⟩
  all_goals
    rw [hsame] at hf'
    obtain rfl := Option.some.inj hf'
  · show (r.synced f.content f.mtime).value = f.content
    exact synced_value _ _ _
  · exact hle

/-- **A sound step keeps the invariant.** -/
theorem step_synced {s s' : State} {l : Label} (h : Synced s) (hsound : Sound s l)
    (hs : step s l = some s') : Synced s' := by
  obtain ⟨r, fs, locked⟩ := s
  obtain rfl : locked = false := h.unlocked
  obtain ⟨hrest, hagrees, hfile, hwriteTime⟩ := h.start
  cases l with
  | setValue value room =>
    simp only [step] at hs
    simp only [Sound] at hsound
    split_ifs at hsound with hw
    · rw [setValue_written h.path hw, hsound] at hs
      obtain rfl := Option.some.inj hs
      exact h.written value
    · obtain ⟨f, hf, rfl⟩ := hsound
      rw [setValue_unwritten h.path (Bool.not_eq_true _ ▸ hw) hf] at hs
      obtain rfl := Option.some.inj hs
      exact synced_present h.path hf (h.past hf)
  | valueUpdate =>
    simp only [step] at hs
    cases hnew : newFile ⟨r, fs, false⟩ with
    | none =>
      rw [valueUpdate_same h.path hnew] at hs
      obtain rfl := Option.some.inj hs
      exact h
    | some f =>
      have hf := (newFile_eq_some.mp hnew).1
      rw [valueUpdate_takes h.path hnew, hsound f hnew] at hs
      obtain rfl := Option.some.inj hs
      exact synced_present h.path hf (h.past hf)
  | rewrite content =>
    obtain rfl := Option.some.inj hs
    exact ⟨h.path, h.start.run (rewrite_alone content) ⟨rfl, rfl⟩, rfl⟩
  | delete =>
    obtain rfl := Option.some.inj hs
    have hnone : (shared r { fs with files := Function.update fs.files r.dataFilePath none }).file =
        none := Function.update_self _ _ _
    refine ⟨h.path, ⟨hrest, fun f hf => ?_, fun f hf => ?_, hwriteTime⟩, rfl⟩
    all_goals
      rw [hnone] at hf
      cases hf
  | permit writable readable =>
    obtain rfl := Option.some.inj hs
    exact ⟨h.path, ⟨hrest, hagrees, hfile, hwriteTime⟩, rfl⟩
  | wait t =>
    simp only [step] at hs
    split_ifs at hs with hle
    obtain rfl := Option.some.inj hs
    have hclock : (shared r fs).clock ≤ (shared r { fs with clock := t }).clock :=
      Int.sub_le_sub_right hle 1
    exact ⟨h.path,
      ⟨hrest, hagrees, fun f hf => (hfile f hf).trans hclock, hwriteTime.trans hclock⟩, rfl⟩

/-- **After a step that is not sound a poll can fail** that is. -/
theorem step_unsound {s s' : State} {l : Label} (h : Synced s) (hsound : ¬ Sound s l)
    (hs : step s l = some s') : ∃ s'', Reach step s' s'' ∧ Sound s'' .valueUpdate ∧ ¬ Polls s'' := by
  obtain ⟨r, fs, locked⟩ := s
  obtain rfl : locked = false := h.unlocked
  have hold : ∀ (fs' : FileSystem) (f : File) (value : Str), fs'.files r.dataFilePath = some f →
      value ≠ f.content → Sound ⟨r.synced value f.mtime, fs', false⟩ .valueUpdate ∧
        ¬ Polls ⟨r.synced value f.mtime, fs', false⟩ := by
    intro fs' f value hf hvalue
    have hnew : newFile ⟨r.synced value f.mtime, fs', false⟩ = none := newFile_synced hf value
    refine ⟨sound_old hnew, ?_⟩
    rw [polls_old_iff (by rw [synced_dataFilePath]; exact h.path) hnew
      (by rw [synced_dataFilePath]; exact hf), synced_value]
    exact hvalue
  cases l with
  | setValue value room =>
    simp only [step] at hs
    simp only [Sound] at hsound
    split_ifs at hsound with hw
    · rw [setValue_written h.path hw] at hs
      obtain rfl := Option.some.inj hs
      exact ⟨_, Runs.refl _, hold _ ⟨upTo room value, fs.clock⟩ value (put_files_self _ _ _)
        (Ne.symm hsound)⟩
    · have hw : fs.writable r.dataFilePath = false := Bool.not_eq_true _ ▸ hw
      cases hf : fs.files r.dataFilePath with
      | some f =>
        rw [setValue_unwritten h.path hw hf] at hs
        obtain rfl := Option.some.inj hs
        exact ⟨_, Runs.refl _, hold fs f value hf fun heq => hsound ⟨f, hf, heq.symm⟩⟩
      | none =>
        rw [setValue_thrown h.path hw hf] at hs
        obtain rfl := Option.some.inj hs
        exact h.thrown_waits value
  | valueUpdate =>
    simp only [step] at hs
    simp only [Sound] at hsound
    push Not at hsound
    obtain ⟨f, hnew, hseen⟩ := hsound
    rw [valueUpdate_takes h.path hnew] at hs
    obtain rfl := Option.some.inj hs
    exact ⟨_, Runs.refl _, hold fs f _ (newFile_eq_some.mp hnew).1 hseen⟩
  | rewrite | delete | permit | wait => exact absurd trivial hsound

/-! ### After an attachment -/

variable {κ : Type}

/-- The write time of the data file, if there is one, is in the past. -/
def PastFile (r : Resource) (fs : FileSystem) : Prop :=
  ∀ f, fs.files r.dataFilePath = some f → f.mtime < fs.clock

section Attach
variable {i : ℕ} {room : Option ℕ} {r r' : Resource} {w w' : CoAPServer κ}
  (hpath : r.dataFilePath ≠ [])
include hpath

/-- **What an attachment leaves**: the data file, with the time that is stored. -/
theorem attach_leaves (hpast : PastFile r w.fs)
    (h : (attachUpTo room i r).run w = .ok (0, r') w') : ∃ value f,
      w'.fs.files r.dataFilePath = some f ∧ r' = r.synced value f.mtime ∧ f.mtime < w'.fs.clock ∧
      (value = f.content ↔ SoundAttach room r w.fs) ∧
      ∀ f', w.fs.files r.dataFilePath = some f' → w'.fs = w.fs ∧ f = f' := by
  obtain ⟨err, hrun⟩ := attachUpTo_run room i r w
  rw [hrun] at h
  unfold SoundAttach
  cases hfile : w.fs.files r.dataFilePath with
  | some f =>
    rw [initValueUpTo_present hpath hfile] at h
    split_ifs at h
    · obtain ⟨hr, rfl⟩ := EStateM.Result.ok.inj h
      exact ⟨_, f, hfile, (Prod.mk.inj hr).2.symm, hpast f hfile, Iff.rfl,
        fun f' hf' => ⟨rfl, Option.some.inj hf'⟩⟩
    · cases h
  | none =>
    rw [initValueUpTo_absent hpath hfile] at h
    split_ifs at h
    case neg => cases h
    cases hw : w.fs.writable r.dataFilePath with
    | false =>
      rw [setValueUpTo_throws hpath hw hfile] at h
      cases h
    | true =>
      rw [setValueUpTo_run hpath hw] at h
      obtain ⟨hr, rfl⟩ := EStateM.Result.ok.inj h
      refine ⟨_, ⟨upTo room r.config.initialValue, w.fs.clock⟩, put_files_self _ _ _,
        (Prod.mk.inj hr).2.symm, Int.lt_succ _, eq_comm, ?_⟩
      rintro f' ⟨⟩

/-- **After an attachment the value and the file agree**, exactly where it is sound. -/
theorem attach_polls_iff (hpast : PastFile r w.fs)
    (h : (attachUpTo room i r).run w = .ok (0, r') w') :
    (Polls ⟨r', w'.fs, false⟩ ↔ SoundAttach room r w.fs) ∧
      (SoundAttach room r w.fs → Synced ⟨r', w'.fs, false⟩) := by
  obtain ⟨value, f, hfile, rfl, htime, hvalue, -⟩ := attach_leaves hpath hpast h
  have hnew : newFile ⟨r.synced value f.mtime, w'.fs, false⟩ = none := newFile_synced hfile value
  rw [← hvalue]
  constructor
  · rw [polls_old_iff (by rw [synced_dataFilePath]; exact hpath) hnew
      (by rw [synced_dataFilePath]; exact hfile), synced_value]
  · rintro rfl
    exact synced_present hpath hfile htime

end Attach

/-! ### Convergence -/

/-- **Polling converges while the steps are sound.** A poll after an attachment converges exactly where
that is sound, and then the attachment has taken the content of a data file that exists. After it, in a
run of sound steps, a poll leaves the files and ends with the content of the file, and the next one
changes nothing, exactly where it can read a new file; and after a `setValue` that is sound the next poll
changes nothing. After a step that is not sound, polls that are can end with something else. -/
theorem polling_converges_iff {i : ℕ} {room : Option ℕ} {r r₀ : Resource} {w w₀ : CoAPServer κ}
    (hpath : r.dataFilePath ≠ []) (hpast : PastFile r w.fs)
    (hattach : (attachUpTo room i r).run w = .ok (0, r₀) w₀) :
    (Polls ⟨r₀, w₀.fs, false⟩ ↔ SoundAttach room r w.fs) ∧
    (∀ f, w.fs.files r.dataFilePath = some f → w₀.fs = w.fs ∧
      (r₀.value = f.content ↔ SoundAttach room r w.fs)) ∧
    (SoundAttach room r w.fs → ∀ s, Runs step Sound ⟨r₀, w₀.fs, false⟩ s →
      (Polls s ↔ Sound s .valueUpdate) ∧
      (∀ value room, Sound s (.setValue value room) → ∃ s',
        step s (.setValue value room) = some s' ∧ s'.resource.value = value ∧
        valueUpdate s' = some s') ∧
      ∀ l s', ¬ Sound s l → step s l = some s' →
        ∃ s'', Reach step s' s'' ∧ Sound s'' .valueUpdate ∧ ¬ Polls s'') := by
  obtain ⟨hpolls, hstart⟩ := attach_polls_iff hpath hpast hattach
  refine ⟨hpolls, fun f hf => ?_, fun hsound s hrun => ?_⟩
  · obtain ⟨value, f', -, rfl, -, hvalue, hsame⟩ := attach_leaves hpath hpast hattach
    obtain ⟨hfs, rfl⟩ := hsame f hf
    rw [synced_value]
    exact ⟨hfs, hvalue⟩
  · have hsynced : Synced s := hrun.invariant (fun _ _ _ h hg hs => step_synced h hg hs)
      (hstart hsound)
    obtain ⟨r', fs, locked⟩ := s
    obtain rfl : locked = false := hsynced.unlocked
    exact ⟨hsynced.polls_iff, fun value room h => hsynced.setValue_kept h,
      fun l s' => step_unsound hsynced⟩

/-- A resource with a data file. -/
def fileResource : Resource :=
  { config := { resourcePath := str "file", dataFile := str "value.txt", observable := true }
    methods := []
    value := []
    logFile := none
    dataFilePath := str "value.txt"
    dataFileWriteTime := 0 }

/-- A server whose data file exists. -/
def fileServer : CoAPServer ℕ :=
  { logDir := []
    dynamicResources := []
    resources := [fileResource]
    registry := fun _ => none
    queue := { maxSize := 2, items := [default, default], start := 0, end_ := 0 }
    cache := Cache.empty
    fs := { files := fun p => if p = str "value.txt" then some ⟨str "old", 4⟩ else none
            clock := 7, writable := fun _ => true, creatable := fun _ => true
            opened := [], created := [] }
    stdout := []
    stderr := [] }

theorem fileServer_past : PastFile fileResource fileServer.fs := by
  intro f hf
  obtain rfl : ⟨str "old", 4⟩ = f := Option.some.inj hf
  decide

/-- The attachment of the resource. -/
theorem fileServer_attach : ∃ w₀, (attach 0 fileResource).run fileServer =
    .ok (0, fileResource.synced (str "old") 4) w₀ ∧ w₀.fs = fileServer.fs := by
  obtain ⟨r₀, w₀, hattach⟩ : ∃ r₀ w₀, (attach 0 fileResource).run fileServer = .ok (0, r₀) w₀ :=
    ⟨_, _, rfl⟩
  have hattached : (attachUpTo none 0 fileResource).run fileServer = .ok (0, r₀) w₀ := hattach
  obtain ⟨value, f, hfile, rfl, -, hvalue, hsame⟩ :=
    attach_leaves (by decide) fileServer_past hattached
  obtain ⟨hfs, rfl⟩ := hsame _ rfl
  obtain rfl := hvalue.mpr (seen_readable rfl _)
  exact ⟨w₀, hattach, hfs⟩

/-- A rewrite after the attachment is taken up. -/
theorem polling_converges_iff_val : ∃ s : State,
    s.fs.files s.resource.dataFilePath = some ⟨str "new", 7⟩ ∧ Polls s := by
  obtain ⟨w₀, hattach, hfs⟩ := fileServer_attach
  have hattached : (attachUpTo none 0 fileResource).run fileServer =
      .ok (0, fileResource.synced (str "old") 4) w₀ := hattach
  obtain ⟨-, -, hconverges⟩ := polling_converges_iff (by decide) fileServer_past hattached
  have hstart : Runs step Sound ⟨fileResource.synced (str "old") 4, w₀.fs, false⟩
      ⟨fileResource.synced (str "old") 4, w₀.fs, false⟩ := Runs.refl _
  have hrun := hstart.snoc (i := .rewrite (str "new")) trivial rfl
  rw [hfs] at hrun hconverges
  obtain ⟨hpolls, -, -⟩ := hconverges (seen_readable rfl ⟨str "old", 4⟩) _ hrun
  refine ⟨_, put_files_self _ _ _, hpolls.mpr fun f _ => seen_readable rfl f⟩

/-- The files when nobody may write the data file any more. -/
def deniedFs : FileSystem :=
  { fileServer.fs with
    writable := Function.update fileServer.fs.writable (str "value.txt") false
    readable := Function.update fileServer.fs.readable (str "value.txt") true }

/-- **A value that is not in the file**: another process takes the right to write the file away, and a
value that is set after that differs from the file for good. -/
theorem value_not_in_file : ¬ ∀ (i : ℕ) (r r₀ : Resource) (w w₀ : CoAPServer ℕ) (s : State),
    r.dataFilePath ≠ [] → PastFile r w.fs → (attach i r).run w = .ok (0, r₀) w₀ →
    Reach step ⟨r₀, w₀.fs, false⟩ s → Polls s := by
  intro h
  obtain ⟨w₀, hattach, hfs⟩ := fileServer_attach
  have hpath : (fileResource.synced (str "old") 4).dataFilePath ≠ [] := by decide
  have hfile : deniedFs.files (fileResource.synced (str "old") 4).dataFilePath =
      some ⟨str "old", 4⟩ := rfl
  have hstart : Reach step ⟨fileResource.synced (str "old") 4, fileServer.fs, false⟩
      ⟨fileResource.synced (str "old") 4, fileServer.fs, false⟩ := Runs.refl _
  have hdenied : Reach step ⟨fileResource.synced (str "old") 4, fileServer.fs, false⟩
      ⟨fileResource.synced (str "old") 4, deniedFs, false⟩ :=
    hstart.snoc (i := .permit false true) trivial rfl
  have hunwritten : step ⟨fileResource.synced (str "old") 4, deniedFs, false⟩
      (.setValue (str "new") none) =
        some ⟨(fileResource.synced (str "old") 4).synced (str "new") 4, deniedFs, false⟩ :=
    setValue_unwritten hpath rfl hfile (str "new") none
  have hset := hdenied.snoc trivial hunwritten
  have hold : newFile ⟨(fileResource.synced (str "old") 4).synced (str "new") 4, deniedFs, false⟩ =
      none := newFile_synced hfile _
  have hpolls := h 0 fileResource _ fileServer w₀ _ (by decide) fileServer_past hattach (hfs ▸ hset)
  exact absurd ((polls_old_iff (by decide) hold rfl).mp hpolls) (by decide)

end CoapServer.Server.Polling
