import CoapServer.Lib.Run
import CoapServer.Resources.Object
import Mathlib.Algebra.Order.Ring.Int

/-! # The data file between two threads

The queue thread runs `setValue`, the poll thread `valueUpdate`, and other processes rewrite the data
file. The steps are the sections under `valueLock`, the acquisitions of `dataFileLock`, and the
writes, reads and queries of the file; every write of the file gives it a later time.

The value and the file disagree for good in two ways: the poll thread stores what it has read between
the two sections of a `setValue`, whose write then has the length of the wrong value; or another
process rewrites the file between the write of a `setValue` and its look at the time. `Undisturbed`
excludes both, and nothing more (`agrees_iff_undisturbed`). -/

namespace CoapServer.Resources.DataFile

open CoapServer.Basic CoapServer.Lib.Run CoapServer.Resources.Files CoapServer.Resources.Object

/-! ### The machine -/

/-- Where the queue thread is in `setValue`. -/
inductive Setter where
  | idle
  /-- the value is set -/
  | stored (v : Str)
  /-- `dataFileLock` is held -/
  | locked (v : Str)
  /-- the file is written -/
  | written
  /-- the time of the file is read -/
  | timed (t : ℤ)
  /-- the time is stored -/
  | finishing
  deriving DecidableEq

/-- Where the poll thread is in `valueUpdate`. -/
inductive Poller where
  | idle
  /-- the time of the file is read -/
  | timed (t : ℤ)
  /-- the time is later than `dataFileWriteTime` -/
  | waiting (t : ℤ)
  /-- `dataFileLock` is held -/
  | locked (t : ℤ)
  /-- the file is read -/
  | read (t : ℤ) (data : Str)
  /-- the value is set -/
  | valued (t : ℤ)
  /-- the time is stored -/
  | finishing
  deriving DecidableEq

/-- The queue thread holds `dataFileLock`. -/
def Setter.holds : Setter → Bool
  | .idle | .stored _ => false
  | .locked _ | .written | .timed _ | .finishing => true

/-- The poll thread holds `dataFileLock`. -/
def Poller.holds : Poller → Bool
  | .idle | .timed _ | .waiting _ => false
  | .locked _ | .read _ _ | .valued _ | .finishing => true

/-- **The state.** `clock` is the time of the last write of the file. -/
structure State where
  value : Str
  file : Option File
  clock : ℤ
  writeTime : ℤ
  setter : Setter
  poller : Poller
  deriving DecidableEq

/-- A step: a call of `setValue` with its section under `valueLock`, the next step of it, with the
bytes that follow the argument in memory and the time the file gets, the next step of `valueUpdate`,
or a rewrite of the file by another process. -/
inductive Label where
  | call (v : Str)
  | setter (beyond : Str) (t : ℤ)
  | poll
  | rewrite (content : Str) (t : ℤ)

/-- The next step of `setValue`. The write has the length of the shared value. -/
def setterStep (s : State) (beyond : Str) (t : ℤ) : Option State :=
  match s.setter with
  | .idle => none
  | .stored v => if s.poller.holds then none else some { s with setter := .locked v }
  | .locked v =>
    if s.clock < t ∧ s.value.length ≤ v.length + beyond.length then
      some { s with
        file := some ⟨(v ++ beyond).take s.value.length, t⟩
        clock := t
        setter := .written }
    else none
  | .written => s.file.map fun f => { s with setter := .timed f.mtime }
  | .timed t => some { s with writeTime := t, setter := .finishing }
  | .finishing => some { s with setter := .idle }

/-- The next step of `valueUpdate`. -/
def pollStep (s : State) : Option State :=
  match s.poller with
  | .idle =>
    match s.file with
    | some f => some { s with poller := .timed f.mtime }
    | none => some s
  | .timed t =>
    if t ≤ s.writeTime then some { s with poller := .idle }
    else some { s with poller := .waiting t }
  | .waiting t => if s.setter.holds then none else some { s with poller := .locked t }
  | .locked t => s.file.map fun f => { s with poller := .read t f.content }
  | .read t data => some { s with value := data, poller := .valued t }
  | .valued t => some { s with writeTime := t, poller := .finishing }
  | .finishing => some { s with poller := .idle }

/-- **The step.** -/
def step (s : State) : Label → Option State
  | .call v => if s.setter = .idle then some { s with value := v, setter := .stored v } else none
  | .setter beyond t => setterStep s beyond t
  | .poll => pollStep s
  | .rewrite content t =>
    if s.clock < t then some { s with file := some ⟨content, t⟩, clock := t } else none

/-- No call is in progress. -/
def Rest (s : State) : Prop := s.setter = .idle ∧ s.poller = .idle

/-- The value is the content of the file, unless the file is later than `t`. -/
def UpTo (t : ℤ) (s : State) : Prop := ∀ f, s.file = some f → f.mtime ≤ t → s.value = f.content

/-- **The value and the file agree**, where no poll will read the file again. -/
def Agrees (s : State) : Prop := UpTo s.writeTime s

/-- **The steps that disturb no call**: the poll thread does not store anything else than a beginning
of its argument between the two sections of a `setValue`; and nobody rewrites the file, unless with
the value, between the write and the look at the time, except where the poll thread is about to read
the file. -/
def Undisturbed (s : State) : Label → Prop
  | .poll => ∀ t data v, s.poller = .read t data → s.setter = .stored v → data <+: v
  | .rewrite content _ => s.setter = .written → content = s.value ∨ ∃ t, s.poller = .waiting t
  | .call _ | .setter _ _ => True

/-! ### The invariant -/

/-- The poll thread has seen the time of the file and will read the file. -/
def Waiting (s : State) : Prop := ∃ t, s.poller = .waiting t

/-- What the queue thread can rely on. -/
def SetterOk (s : State) : Prop :=
  match s.setter with
  | .idle =>
    match s.poller with
    | .idle | .timed _ | .finishing => Agrees s
    | .waiting _ | .locked _ | .read _ _ => True
    | .valued t => UpTo t s
  | .stored v | .locked v => s.value <+: v
  | .written => (∀ f, s.file = some f → s.value = f.content) ∨ Waiting s
  | .timed t => UpTo t s ∨ Waiting s
  | .finishing => Agrees s ∨ Waiting s

/-- What the poll thread has read is what the file was at its time. -/
def PollerOk (s : State) : Prop :=
  ∀ t data, s.poller = .read t data → ∀ f, s.file = some f → f.mtime ≤ t → data = f.content

/-- The time the queue thread has read. -/
def Setter.time : Setter → Option ℤ
  | .timed t => some t
  | .idle | .stored _ | .locked _ | .written | .finishing => none

/-- The time the poll thread has read. -/
def Poller.time : Poller → Option ℤ
  | .timed t | .waiting t | .locked t | .read t _ | .valued t => some t
  | .idle | .finishing => none

/-- No time is later than the clock. -/
structure TimesOk (s : State) : Prop where
  file : ∀ f, s.file = some f → f.mtime ≤ s.clock
  writeTime : s.writeTime ≤ s.clock
  setter : ∀ t, s.setter.time = some t → t ≤ s.clock
  poller : ∀ t, s.poller.time = some t → t ≤ s.clock

/-- **The invariant** of undisturbed runs. -/
structure Inv (s : State) : Prop where
  excl : s.setter.holds = true → s.poller.holds = false
  times : TimesOk s
  setter : SetterOk s
  poller : PollerOk s

section Steps
variable {s s' : State}

/-- A call begins. -/
theorem call_inv {v : Str} (h : Inv s) (hs : step s (.call v) = some s') : Inv s' := by
  simp only [step] at hs
  split_ifs at hs with hidle
  obtain rfl := Option.some.inj hs
  refine ⟨by simp [Setter.holds], ⟨h.times.file, h.times.writeTime, by simp [Setter.time],
    h.times.poller⟩, ?_, h.poller⟩
  exact List.prefix_refl v

/-- **The next step of `setValue`** keeps the invariant. -/
theorem setter_inv {beyond : Str} {t : ℤ} (h : Inv s)
    (hs : step s (.setter beyond t) = some s') : Inv s' := by
  obtain ⟨hexcl, htimes, hsetter, hpoller⟩ := h
  unfold SetterOk at hsetter
  simp only [step, setterStep] at hs
  cases hpc : s.setter with
  | idle => simp [hpc] at hs
  | stored v =>
    simp only [hpc] at hs hsetter
    split_ifs at hs with hlock
    obtain rfl := Option.some.inj hs
    refine ⟨fun _ => by simpa using hlock, ⟨htimes.file, htimes.writeTime, by simp [Setter.time],
      htimes.poller⟩, ?_, hpoller⟩
    exact hsetter
  | locked v =>
    simp only [hpc] at hs hsetter
    split_ifs at hs with hwrite
    obtain rfl := Option.some.inj hs
    have hnot : s.poller.holds = false := hexcl (by simp [hpc, Setter.holds])
    refine ⟨fun _ => hnot, ⟨?_, ?_, by simp [Setter.time], ?_⟩, ?_, ?_⟩
    · rintro f hf
      obtain rfl := Option.some.inj hf
      exact Int.le_refl t
    · have := htimes.writeTime
      show s.writeTime ≤ t
      omega
    · intro t' ht'
      have := htimes.poller t' ht'
      show t' ≤ t
      omega
    · -- the shared value is a beginning of the argument, so the write is the shared value
      refine Or.inl fun f hf => ?_
      obtain rfl := Option.some.inj hf
      obtain ⟨rest, rfl⟩ := hsetter
      simp
    · intro t' data hread
      rw [hread] at hnot
      cases hnot
  | written =>
    simp only [hpc] at hs hsetter
    obtain ⟨f, hf, rfl⟩ := Option.map_eq_some_iff.mp hs
    have hnot : s.poller.holds = false := hexcl (by simp [hpc, Setter.holds])
    refine ⟨fun _ => hnot, ⟨htimes.file, htimes.writeTime, ?_, htimes.poller⟩, ?_, hpoller⟩
    · intro t' ht'
      obtain rfl := Option.some.inj ht'
      exact htimes.file f hf
    · rcases hsetter with hsame | hwait
      · exact Or.inl fun f' hf' _ => hsame f' hf'
      · exact Or.inr hwait
  | timed t' =>
    simp only [hpc] at hs hsetter
    obtain rfl := Option.some.inj hs
    have hnot : s.poller.holds = false := hexcl (by simp [hpc, Setter.holds])
    refine ⟨fun _ => hnot, ⟨htimes.file, ?_, by simp [Setter.time], htimes.poller⟩, hsetter, hpoller⟩
    exact htimes.setter t' (by rw [hpc]; rfl)
  | finishing =>
    simp only [hpc] at hs hsetter
    obtain rfl := Option.some.inj hs
    have hnot : s.poller.holds = false := hexcl (by simp [hpc, Setter.holds])
    refine ⟨by simp [Setter.holds], ⟨htimes.file, htimes.writeTime, by simp [Setter.time],
      htimes.poller⟩, ?_, hpoller⟩
    unfold SetterOk
    cases hp : s.poller with
    | idle | timed _ =>
      rcases hsetter with hagrees | ⟨t', hwait⟩
      · exact hagrees
      · rw [hp] at hwait
        cases hwait
    | waiting t' => trivial
    | locked t' | read t' data | valued t' | finishing =>
      rw [hp] at hnot
      cases hnot

/-- Without the lock, the queue thread is before it. -/
theorem not_holds {pc : Setter} (h : pc.holds = false) : pc = .idle ∨ ∃ v, pc = .stored v := by
  cases pc with
  | idle => exact Or.inl rfl
  | stored v => exact Or.inr ⟨v, rfl⟩
  | locked v | written | timed t | finishing => cases h

/-- A later write of the file leaves nothing to agree with up to an earlier time. -/
theorem upTo_of_lt {s : State} {t : ℤ} (h : ∀ f, s.file = some f → t < f.mtime) : UpTo t s := by
  intro f hf hle
  have := h f hf
  omega

/-- **A rewrite by another process** that disturbs no call keeps the invariant. -/
theorem rewrite_inv {content : Str} {t : ℤ} (h : Inv s) (hg : Undisturbed s (.rewrite content t))
    (hs : step s (.rewrite content t) = some s') : Inv s' := by
  obtain ⟨hexcl, htimes, hsetter, hpoller⟩ := h
  simp only [step] at hs
  split_ifs at hs with hlater
  obtain rfl := Option.some.inj hs
  have hlt : ∀ t' ≤ s.clock, UpTo t'
      { s with file := some ⟨content, t⟩, clock := t } := by
    intro t' ht'
    refine upTo_of_lt fun f hf => ?_
    obtain rfl := Option.some.inj hf
    show t' < t
    omega
  have hle : ∀ t' ≤ s.clock, t' ≤ t := fun t' ht' => by omega
  refine ⟨hexcl, ⟨?_, hle _ htimes.writeTime, fun t' ht' => hle _ (htimes.setter t' ht'),
    fun t' ht' => hle _ (htimes.poller t' ht')⟩, ?_, ?_⟩
  · intro f hf
    obtain rfl := Option.some.inj hf
    exact Int.le_refl t
  · unfold SetterOk at hsetter ⊢
    cases hpc : s.setter with
    | idle =>
      simp only [hpc] at hsetter ⊢
      cases hp : s.poller with
      | idle | timed _ | finishing => exact hlt _ htimes.writeTime
      | waiting _ | locked _ | read _ _ => trivial
      | valued t' => exact hlt t' (htimes.poller t' (by rw [hp]; rfl))
    | stored v | locked v =>
      simp only [hpc] at hsetter ⊢
      exact hsetter
    | written =>
      rcases hg hpc with hsame | hwait
      · refine Or.inl fun f hf => ?_
        obtain rfl := Option.some.inj hf
        exact hsame.symm
      · exact Or.inr hwait
    | timed t' => exact Or.inl (hlt t' (htimes.setter t' (by rw [hpc]; rfl)))
    | finishing => exact Or.inl (hlt _ htimes.writeTime)
  · intro t' data hread f hf hle'
    obtain rfl := Option.some.inj hf
    have := htimes.poller t' (by rw [show s.poller = .read t' data from hread]; rfl)
    have hle'' : t ≤ t' := hle'
    omega

/-- What the poll thread can rely on beside an idle queue thread. -/
def IdleOk (s : State) : Prop :=
  match s.poller with
  | .idle | .timed _ | .finishing => Agrees s
  | .waiting _ | .locked _ | .read _ _ => True
  | .valued t => UpTo t s

theorem setterOk_idle (h : s.setter = .idle) : SetterOk s ↔ IdleOk s := by
  unfold SetterOk IdleOk
  rw [h]

theorem setterOk_stored {v : Str} (h : s.setter = .stored v) : SetterOk s ↔ s.value <+: v := by
  unfold SetterOk
  rw [h]

theorem TimesOk.moved {p : Poller} (h : TimesOk s) (hp : ∀ t, p.time = some t → t ≤ s.clock) :
    TimesOk { s with poller := p } := ⟨h.file, h.writeTime, h.setter, hp⟩

/-- **With the queue thread before its lock**, the invariant is about one that is idle and one that
has stored. -/
theorem inv_of_free (hfree : s.setter.holds = false) (htimes : TimesOk s)
    (hidle : s.setter = .idle → IdleOk s) (hstored : ∀ v, s.setter = .stored v → s.value <+: v)
    (hpoller : PollerOk s) : Inv s := by
  refine ⟨fun hholds => ?_, htimes, ?_, hpoller⟩
  · rw [hfree] at hholds
    cases hholds
  · rcases not_holds hfree with hpc | ⟨v, hpc⟩
    · exact (setterOk_idle hpc).mpr (hidle hpc)
    · exact (setterOk_stored hpc).mpr (hstored v hpc)

/-- **A step of the poll thread without the lock**, where it did not wait: only an idle queue thread
relies on it. -/
theorem inv_of_unlocked {p : Poller} (h : Inv s) (hnot : ¬ Waiting s) (hp : p.holds = false)
    (htime : ∀ t, p.time = some t → t ≤ s.clock)
    (hidle : s.setter = .idle → IdleOk { s with poller := p }) : Inv { s with poller := p } := by
  refine ⟨fun _ => hp, h.times.moved htime, ?_, ?_⟩
  · have hsetter := h.setter
    unfold SetterOk at hsetter
    cases hpc : s.setter with
    | idle =>
      have hok := (setterOk_idle (s := { s with poller := p }) hpc).mpr (hidle hpc)
      rw [hpc] at hok
      exact hok
    | stored v | locked v =>
      rw [hpc] at hsetter
      exact hsetter
    | written | timed t | finishing =>
      rw [hpc] at hsetter
      exact Or.inl (hsetter.resolve_right hnot)
  · rintro t data rfl
    cases hp

/-- **The next step of `valueUpdate`** that disturbs no call keeps the invariant. -/
theorem poll_inv (h : Inv s) (hg : Undisturbed s .poll) (hs : step s .poll = some s') : Inv s' := by
  have hfree : s.poller.holds = true → s.setter.holds = false := by
    intro hp
    by_contra hholds
    rw [h.excl (by simpa using hholds)] at hp
    cases hp
  have hstored : ∀ v, s.setter = .stored v → s.value <+: v :=
    fun v hpc => (setterOk_stored hpc).mp h.setter
  have hidle : s.setter = .idle → IdleOk s := fun hpc => (setterOk_idle hpc).mp h.setter
  have hnot : (∀ t, s.poller ≠ .waiting t) → ¬ Waiting s := fun hne ⟨t, hwait⟩ => hne t hwait
  unfold IdleOk at hidle
  simp only [step, pollStep] at hs
  cases hp : s.poller with
  | idle =>
    simp only [hp] at hs hidle
    split at hs
    · next f hf =>
      obtain rfl := Option.some.inj hs
      refine inv_of_unlocked h (hnot (by simp [hp])) rfl ?_ hidle
      intro t ht
      obtain rfl := Option.some.inj ht
      exact h.times.file f hf
    · obtain rfl := Option.some.inj hs
      exact h
  | timed t =>
    simp only [hp] at hs hidle
    have htime : t ≤ s.clock := h.times.poller t (by rw [hp]; rfl)
    split_ifs at hs with hle
    · obtain rfl := Option.some.inj hs
      exact inv_of_unlocked h (hnot (by simp [hp])) rfl (by rintro _ ⟨⟩) hidle
    · obtain rfl := Option.some.inj hs
      refine inv_of_unlocked h (hnot (by simp [hp])) rfl ?_ fun _ => trivial
      rintro _ ⟨⟩
      exact htime
  | waiting t =>
    simp only [hp] at hs
    have htime : t ≤ s.clock := h.times.poller t (by rw [hp]; rfl)
    split_ifs at hs with hlock
    obtain rfl := Option.some.inj hs
    refine inv_of_free (by simpa using hlock) (h.times.moved ?_) (fun _ => trivial) hstored
      (by rintro _ _ ⟨⟩)
    rintro _ ⟨⟩
    exact htime
  | locked t =>
    simp only [hp] at hs
    have htime : t ≤ s.clock := h.times.poller t (by rw [hp]; rfl)
    obtain ⟨f, hf, rfl⟩ := Option.map_eq_some_iff.mp hs
    refine inv_of_free (hfree (by rw [hp]; rfl)) (h.times.moved ?_) (fun _ => trivial) hstored ?_
    · rintro _ ⟨⟩
      exact htime
    · -- what it reads is the content of the file
      rintro t' data ⟨rfl, rfl⟩ f' hf' _
      have hsame : s.file = some f' := hf'
      rw [hf] at hsame
      obtain rfl := Option.some.inj hsame
      rfl
  | read t data =>
    simp only [hp] at hs
    have htime : t ≤ s.clock := h.times.poller t (by rw [hp]; rfl)
    obtain rfl := Option.some.inj hs
    refine inv_of_free (hfree (by rw [hp]; rfl)) ⟨h.times.file, h.times.writeTime, h.times.setter, ?_⟩
      ?_ ?_ (by rintro _ _ ⟨⟩)
    · rintro _ ⟨⟩
      exact htime
    · exact fun _ f hf hle => h.poller t data hp f hf hle
    · -- beside a `setValue` it stores a beginning of the argument
      exact fun v hpc => hg t data v hp hpc
  | valued t =>
    simp only [hp] at hs hidle
    have htime : t ≤ s.clock := h.times.poller t (by rw [hp]; rfl)
    obtain rfl := Option.some.inj hs
    exact inv_of_free (hfree (by rw [hp]; rfl))
      ⟨h.times.file, htime, h.times.setter, by rintro _ ⟨⟩⟩ hidle hstored (by rintro _ _ ⟨⟩)
  | finishing =>
    simp only [hp] at hs hidle
    obtain rfl := Option.some.inj hs
    exact inv_of_free (hfree (by rw [hp]; rfl)) (h.times.moved (by rintro _ ⟨⟩)) hidle hstored
      (by rintro _ _ ⟨⟩)

/-- **A step that disturbs no call** keeps the invariant. -/
theorem step_inv {l : Label} (h : Inv s) (hg : Undisturbed s l) (hs : step s l = some s') :
    Inv s' := by
  cases l with
  | call v => exact call_inv h hs
  | setter beyond t => exact setter_inv h hs
  | poll => exact poll_inv h hg hs
  | rewrite content t => exact rewrite_inv h hg hs

end Steps

/-- **Where a run starts**: no call is in progress, and the value and the file agree. -/
structure Start (s : State) : Prop where
  rest : Rest s
  agrees : Agrees s
  file : ∀ f, s.file = some f → f.mtime ≤ s.clock
  writeTime : s.writeTime ≤ s.clock

theorem Start.inv {s : State} (h : Start s) : Inv s := by
  obtain ⟨hsetter, hpoller⟩ := h.rest
  refine ⟨?_, ⟨h.file, h.writeTime, ?_, ?_⟩, ?_, ?_⟩
  · rw [hsetter]
    rintro ⟨⟩
  · rw [hsetter]
    rintro t ⟨⟩
  · rw [hpoller]
    rintro t ⟨⟩
  · unfold SetterOk
    rw [hsetter, hpoller]
    exact h.agrees
  · intro t data hread
    rw [hpoller] at hread
    cases hread

theorem run_inv {s s' : State} (h : Inv s) (hrun : Runs step Undisturbed s s') : Inv s' :=
  hrun.invariant (fun _ _ _ hinv hg hs => step_inv hinv hg hs) h

/-- With no call in progress, the invariant is the agreement. -/
theorem Inv.agrees {s : State} (h : Inv s) (hrest : Rest s) : Agrees s := by
  have hsetter := h.setter
  unfold SetterOk at hsetter
  rw [hrest.1, hrest.2] at hsetter
  exact hsetter

/-! ### A call alone -/

/-- What the two threads share of a resource and the files, with no call in progress. -/
def shared (r : Resource) (fs : FileSystem) : State :=
  { value := r.value
    file := fs.files r.dataFilePath
    clock := fs.clock - 1
    writeTime := r.dataFileWriteTime
    setter := .idle
    poller := .idle }

/-- A run without a disturbance from where a run starts ends where one starts, if no call is in
progress. -/
theorem Start.run {s s' : State} (h : Start s) (hrun : Runs step Undisturbed s s')
    (hrest : Rest s') : Start s' := by
  have hinv : Inv s' := run_inv h.inv hrun
  exact ⟨hrest, hinv.agrees hrest, hinv.times.file, hinv.times.writeTime⟩

section Alone
variable {r : Resource} {fs : FileSystem}

/-- The state after the value was written to the file. -/
theorem shared_put (value : Str) :
    shared (r.synced value fs.clock) (fs.put r.dataFilePath value) =
      ⟨value, some ⟨value, fs.clock⟩, fs.clock, fs.clock, .idle, .idle⟩ := by
  have hclock : (fs.put r.dataFilePath value).clock - 1 = fs.clock := Int.add_sub_cancel _ _
  rw [shared, synced_value, synced_dataFilePath, put_files_self, hclock]
  rfl

/-- **A `setValue` alone** runs through its steps. -/
theorem setValue_alone (value : Str) : Runs step Undisturbed (shared r fs)
    (shared (r.synced value fs.clock) (fs.put r.dataFilePath value)) := by
  have hwrite : fs.clock - 1 < fs.clock ∧ value.length ≤ value.length + 0 := by omega
  have hidle : Runs step Undisturbed (shared r fs) (shared r fs) := Runs.refl _
  have hcall := hidle.snoc (i := .call value) trivial rfl
  have hlocked := hcall.snoc (i := .setter [] 0) trivial rfl
  have hwritten := hlocked.snoc (i := .setter [] fs.clock) trivial (if_pos hwrite)
  have htimed := (hwritten.snoc (i := .setter [] 0) trivial rfl).snoc (i := .setter [] 0) trivial rfl
  have hdone := htimed.snoc (i := .setter [] 0) trivial rfl
  rw [shared_put]
  simpa [shared] using hdone

/-- **A `valueUpdate` alone**, of a new file. -/
theorem valueUpdate_alone {f : File} (hfile : fs.files r.dataFilePath = some f)
    (hlt : r.dataFileWriteTime < f.mtime) :
    Runs step Undisturbed (shared r fs) (shared (r.synced f.content f.mtime) fs) := by
  have hstart : shared r fs =
      ⟨r.value, some f, fs.clock - 1, r.dataFileWriteTime, .idle, .idle⟩ := by rw [shared, hfile]
  have hend : shared (r.synced f.content f.mtime) fs =
      ⟨f.content, some f, fs.clock - 1, f.mtime, .idle, .idle⟩ := by
    rw [shared, synced_value, synced_dataFilePath, hfile]
    rfl
  rw [hstart, hend]
  have hfree : ∀ s : State, s.setter = .idle → Undisturbed s .poll := by
    rintro s hs t data v - hstored
    rw [hs] at hstored
    cases hstored
  have hidle : Runs step Undisturbed
      ⟨r.value, some f, fs.clock - 1, r.dataFileWriteTime, .idle, .idle⟩
      ⟨r.value, some f, fs.clock - 1, r.dataFileWriteTime, .idle, .idle⟩ := Runs.refl _
  have htimed := hidle.snoc (i := .poll) (hfree _ rfl) rfl
  have hlocked := (htimed.snoc (i := .poll) (hfree _ rfl) (if_neg (Int.not_le.mpr hlt))).snoc
    (i := .poll) (hfree _ rfl) rfl
  have hvalued := (hlocked.snoc (i := .poll) (hfree _ rfl) rfl).snoc (i := .poll) (hfree _ rfl) rfl
  exact (hvalued.snoc (i := .poll) (hfree _ rfl) rfl).snoc (i := .poll) (hfree _ rfl) rfl

/-- **A rewrite by another process**, between calls. -/
theorem rewrite_alone (content : Str) :
    Runs step Undisturbed (shared r fs) (shared r (fs.put r.dataFilePath content)) := by
  have hlater : fs.clock - 1 < fs.clock := by omega
  have hclock : (fs.put r.dataFilePath content).clock - 1 = fs.clock := Int.add_sub_cancel _ _
  have hidle : Runs step Undisturbed (shared r fs) (shared r fs) := Runs.refl _
  have hrewritten := hidle.snoc (i := .rewrite content fs.clock) (by rintro ⟨⟩) (if_pos hlater)
  have hend : shared r (fs.put r.dataFilePath content) =
      { shared r fs with file := some ⟨content, fs.clock⟩, clock := fs.clock } := by
    rw [shared, put_files_self, hclock]
    rfl
  rw [hend]
  exact hrewritten

end Alone

/-! ### What a disturbed call can lead to -/

/-- The list with a byte that differs from the one `data` has there, where `data` goes on. -/
def divert (v data : Str) : Str :=
  match data[v.length]? with
  | some b => List.replicate data.length (b + 1)
  | none => []

/-- What follows the argument in memory can make the write differ from the shared value, which does
not begin the argument. -/
theorem divert_spec {v data : Str} (h : ¬ data <+: v) :
    data.length ≤ v.length + (divert v data).length ∧
      (v ++ divert v data).take data.length ≠ data := by
  unfold divert
  cases hb : data[v.length]? with
  | none =>
    have hle : data.length ≤ v.length := List.getElem?_eq_none_iff.mp hb
    refine ⟨by simpa using hle, fun heq => h ?_⟩
    rw [List.append_nil] at heq
    rw [← heq]
    exact List.take_prefix _ _
  | some b =>
    obtain ⟨hlt, -⟩ := List.getElem?_eq_some_iff.mp hb
    refine ⟨by simp, fun heq => ?_⟩
    have hat : ((v ++ List.replicate data.length (b + 1)).take data.length)[v.length]? =
        some (b + 1) := by
      rw [List.getElem?_take_of_lt hlt, List.getElem?_append_right (Nat.le_refl _), Nat.sub_self,
        List.getElem?_replicate_of_lt (by omega)]
    rw [heq, hb] at hat
    have hne : b ≠ b + 1 := by
      intro hbb
      have hval := congrArg UInt8.toBitVec hbb
      simp at hval
    exact hne (Option.some.inj hat)

/-- From the middle of a `valueUpdate`, beside the first section of a `setValue` with another value:
the file gets the length of the value that was read, and the queue thread stores its time. -/
theorem stored_diverges {s : State} {t : ℤ} {v : Str} (hpoller : s.poller = .valued t)
    (hsetter : s.setter = .stored v) (h : ¬ s.value <+: v) :
    ∃ s', Reach step s s' ∧ Rest s' ∧ ¬ Agrees s' := by
  obtain ⟨hlen, hne⟩ := divert_spec h
  obtain ⟨value, file, clock, writeTime, setter, poller⟩ := s
  obtain rfl : poller = _ := hpoller
  obtain rfl : setter = _ := hsetter
  refine ⟨⟨value, some ⟨(v ++ divert v value).take value.length, clock + 1⟩, clock + 1, clock + 1,
    .idle, .idle⟩, reach_of_foldlM [.poll, .poll, .setter [] 0, .setter (divert v value) (clock + 1),
    .setter [] 0, .setter [] 0, .setter [] 0] ?_, ⟨rfl, rfl⟩, fun hagrees => ?_⟩
  · have hfits : value.length ≤ v.length + (divert v value).length := hlen
    simp [step, pollStep, setterStep, Poller.holds, hfits]
  · exact hne (hagrees _ rfl (Int.le_refl _)).symm

/-- After a rewrite of the file beside a `setValue`, before it looks at the time of its own write. -/
theorem rewritten_diverges {s : State} {f : File} (hfile : s.file = some f)
    (hsetter : s.setter = .written) (hpoller : s.poller = .idle ∨ ∃ t ≤ f.mtime, s.poller = .timed t)
    (h : f.content ≠ s.value) : ∃ s', Reach step s s' ∧ Rest s' ∧ ¬ Agrees s' := by
  obtain ⟨value, file, clock, writeTime, setter, poller⟩ := s
  obtain rfl : file = _ := hfile
  obtain rfl : setter = _ := hsetter
  refine ⟨⟨value, some f, clock, f.mtime, .idle, .idle⟩, ?_, ⟨rfl, rfl⟩, fun hagrees => ?_⟩
  · rcases hpoller with hidle | ⟨t, hle, htimed⟩
    · obtain rfl : poller = _ := hidle
      exact reach_of_foldlM [.setter [] 0, .setter [] 0, .setter [] 0] rfl
    · obtain rfl : poller = _ := htimed
      refine reach_of_foldlM [.setter [] 0, .setter [] 0, .setter [] 0, .poll] ?_
      simp [step, pollStep, setterStep, hle]
  · exact h (hagrees _ rfl (Int.le_refl _)).symm

/-- **A step that disturbs a call** can end in a value that differs from the file for good. -/
theorem disturbed_diverges {s s' : State} {l : Label} (h : Inv s) (hg : ¬ Undisturbed s l)
    (hs : step s l = some s') : ∃ s'', Reach step s' s'' ∧ Rest s'' ∧ ¬ Agrees s'' := by
  cases l with
  | call v => exact absurd trivial hg
  | setter beyond t => exact absurd trivial hg
  | poll =>
    simp only [Undisturbed, not_forall] at hg
    obtain ⟨t, data, v, hpoller, hsetter, hnot⟩ := hg
    simp only [step, pollStep, hpoller] at hs
    obtain rfl := Option.some.inj hs
    exact stored_diverges rfl hsetter hnot
  | rewrite content t =>
    simp only [Undisturbed, not_forall, not_or] at hg
    obtain ⟨hsetter, hne, hwait⟩ := hg
    have hnot : s.poller.holds = false := h.excl (by rw [hsetter]; rfl)
    simp only [step] at hs
    split_ifs at hs with hlater
    obtain rfl := Option.some.inj hs
    refine rewritten_diverges rfl hsetter ?_ hne
    cases hp : s.poller with
    | idle => exact Or.inl rfl
    | timed t' =>
      have hle := h.times.poller t' (by rw [hp]; rfl)
      exact Or.inr ⟨t', Int.le_of_lt (Int.lt_of_le_of_lt hle hlater), rfl⟩
    | waiting t' => exact absurd ⟨t', hp⟩ hwait
    | locked t' | read t' data | valued t' | finishing =>
      rw [hp] at hnot
      cases hnot

/-! ### The value and the file -/

/-- **The value and the file agree along undisturbed runs**, wherever no call is in progress; and
every step that disturbs a call can be continued to where they differ for good. -/
theorem agrees_iff_undisturbed (s₀ : State) (h : Start s₀) :
    (∀ s, Runs step Undisturbed s₀ s → Rest s → Agrees s) ∧
      ∀ s l s', Runs step Undisturbed s₀ s → ¬ Undisturbed s l → step s l = some s' →
        ∃ s'', Reach step s' s'' ∧ Rest s'' ∧ ¬ Agrees s'' :=
  ⟨fun _ hrun hrest => (run_inv h.inv hrun).agrees hrest,
    fun _ _ _ hrun hg hs => disturbed_diverges (run_inv h.inv hrun) hg hs⟩

/-- A resource whose data file has one byte, at the time of the last write. -/
def valState : State := ⟨str "a", some ⟨str "a", 1⟩, 1, 1, .idle, .idle⟩

theorem valState_start : Start valState :=
  ⟨⟨rfl, rfl⟩, by rintro _ ⟨⟩ -; rfl, by rintro _ ⟨⟩; exact Int.le_refl 1, Int.le_refl 1⟩

/-- A `setValue` with `cc` beside a poll that finds nothing new. -/
theorem agrees_iff_undisturbed_val :
    Agrees ⟨str "cc", some ⟨str "cc", 2⟩, 2, 2, .idle, .idle⟩ := by
  have hidle : Runs step Undisturbed valState valState := Runs.refl _
  have hcall := hidle.snoc (i := .call (str "cc")) trivial rfl
  have hlocked := (hcall.snoc (i := .poll) (by rintro _ _ _ ⟨⟩) rfl).snoc (i := .setter [] 0) trivial rfl
  have hwritten := hlocked.snoc (i := .setter [] 2) trivial rfl
  have hpolled := hwritten.snoc (i := .poll) (by rintro _ _ _ ⟨⟩) rfl
  have htimed := (hpolled.snoc (i := .setter [] 0) trivial rfl).snoc (i := .setter [] 0) trivial rfl
  have hdone := htimed.snoc (i := .setter [] 0) trivial rfl
  exact (agrees_iff_undisturbed valState valState_start).1 _ hdone ⟨rfl, rfl⟩

/-- **A permanent mismatch**: the file is rewritten to `b` and read; before the value is stored,
`setValue` with `cc` begins; the value becomes `b`, and the write of `cc` has one byte. -/
theorem value_diverges : ¬ ∀ s₀ s, Start s₀ → Reach step s₀ s → Rest s → Agrees s := by
  intro h
  have hagrees := h valState ⟨str "b", some ⟨str "c", 3⟩, 3, 3, .idle, .idle⟩ valState_start
    (reach_of_foldlM [.rewrite (str "b") 2, .poll, .poll, .poll, .poll, .call (str "cc"), .poll,
      .poll, .poll, .setter [] 0, .setter [] 3, .setter [] 0, .setter [] 0, .setter [] 0] rfl)
    ⟨rfl, rfl⟩
  have hsame : str "b" = str "c" := hagrees _ rfl (Int.le_refl _)
  revert hsame
  decide

end CoapServer.Resources.DataFile
