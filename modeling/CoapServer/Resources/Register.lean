import CoapServer.Basic
import CoapServer.Lib.AtomicObject
import CoapServer.Lib.Mutex

/-! # The value between its threads

The server thread reads the value with `getValue`, the queue thread stores one with `setValue`, the
poll thread with `valueUpdate`. Here a copy is made byte by byte, an assignment leaves any bytes in
between, and each lock is taken and released by itself. `setValue` looks at `value.size()` once more
when it writes the data file, where it holds `dataFileLock` only.

The locks keep the accesses apart (`Inv.no_race`), no thread waits for ever (`Inv.progress`), and the
value is an atomic register: every run has the trace of a register whose reads and stores take effect
at one instant, the moment at which the lock is taken (`value_linearizable`). -/

namespace CoapServer.Resources.Register

open CoapServer.Basic CoapServer.Lib.Mutex CoapServer.Lib.Run CoapServer.Lib.Trace
open CoapServer.Lib.AtomicObject (Call Event Linearizable AtomicTraces)

/-! ### The threads -/

/-- The threads that use a resource. -/
inductive Thread where
  | server
  | queue
  | poll
  deriving DecidableEq

/-- **Where the server thread is in `getValue`.** -/
inductive Getter where
  | idle
  /-- before `valueLock.lock` -/
  | locking
  /-- `valueLock` is held -/
  | sizing
  /-- the first bytes are copied -/
  | copying (size : ℕ) (val : Str)
  /-- the copy is made -/
  | unlocking (val : Str)
  deriving DecidableEq

/-- **Where the queue thread is in `setValue`.** -/
inductive Setter where
  | idle
  /-- before `valueLock.lock` -/
  | locking (v : Str)
  /-- `valueLock` is held -/
  | assigning (v : Str)
  /-- the value is assigned -/
  | unlocking (v : Str)
  /-- before `dataFileLock.lock` -/
  | lockingFile (v : Str)
  /-- `dataFileLock` is held -/
  | writing (v : Str)
  /-- the file is written -/
  | unlockingFile
  deriving DecidableEq

/-- **Where the poll thread is in `valueUpdate`**, once the file is later. -/
inductive Poller where
  | idle
  /-- before `dataFileLock.lock` -/
  | lockingFile
  /-- `dataFileLock` is held -/
  | reading
  /-- the file is read; before `valueLock.lock` -/
  | locking (data : Str)
  /-- both locks are held -/
  | assigning (data : Str)
  /-- the value is assigned -/
  | unlocking
  /-- `valueLock` is released -/
  | unlockingFile
  deriving DecidableEq

/-- **The state.** -/
structure State where
  value : Str
  valueLock : Option Thread
  dataFileLock : Option Thread
  server : Getter
  queue : Setter
  poll : Poller
  deriving DecidableEq

/-- A step: a call, the next step of one, with the bytes that a read of the file finds, or a part of
an assignment, which leaves any bytes. -/
inductive Label where
  | get
  | server
  | set (v : Str)
  | queue
  | update
  | poll (data : Str)
  | assign (junk : Str)

/-- The next step of `getValue`. -/
def serverStep (s : State) : Option State :=
  match s.server with
  | .idle => none
  | .locking =>
    if s.valueLock = none then some { s with valueLock := some .server, server := .sizing }
    else none
  | .sizing => some { s with server := .copying s.value.length [] }
  | .copying size val =>
    if val.length < size then
      s.value[val.length]?.map fun b => { s with server := .copying size (val ++ [b]) }
    else some { s with server := .unlocking val }
  | .unlocking _ => some { s with valueLock := none, server := .idle }

/-- The next step of `setValue`; `hasFile` where the resource has a data file. -/
def queueStep (hasFile : Bool) (s : State) : Option State :=
  match s.queue with
  | .idle => none
  | .locking v =>
    if s.valueLock = none then some { s with valueLock := some .queue, queue := .assigning v }
    else none
  | .assigning v => some { s with value := v, queue := .unlocking v }
  | .unlocking v => some { s with
      valueLock := none
      queue := if hasFile then .lockingFile v else .idle }
  | .lockingFile v =>
    if s.dataFileLock = none then some { s with dataFileLock := some .queue, queue := .writing v }
    else none
  | .writing _ => some { s with queue := .unlockingFile }
  | .unlockingFile => some { s with dataFileLock := none, queue := .idle }

/-- The next step of `valueUpdate`. -/
def pollStep (s : State) (data : Str) : Option State :=
  match s.poll with
  | .idle => none
  | .lockingFile =>
    if s.dataFileLock = none then some { s with dataFileLock := some .poll, poll := .reading }
    else none
  | .reading => some { s with poll := .locking data }
  | .locking data =>
    if s.valueLock = none then some { s with valueLock := some .poll, poll := .assigning data }
    else none
  | .assigning data => some { s with value := data, poll := .unlocking }
  | .unlocking => some { s with valueLock := none, poll := .unlockingFile }
  | .unlockingFile => some { s with dataFileLock := none, poll := .idle }

/-- **The step.** -/
def step (hasFile : Bool) (s : State) : Label → Option State
  | .get => if s.server = .idle then some { s with server := .locking } else none
  | .server => serverStep s
  | .set v => if s.queue = .idle then some { s with queue := .locking v } else none
  | .queue => queueStep hasFile s
  | .update =>
    if hasFile ∧ s.poll = .idle then some { s with poll := .lockingFile } else none
  | .poll data => pollStep s data
  | .assign junk =>
    match s.queue, s.poll with
    | .assigning _, _ | _, .assigning _ => some { s with value := junk }
    | _, _ => none

/-- The threads have been started. -/
def start (value : Str) : State :=
  { value, valueLock := none, dataFileLock := none, server := .idle, queue := .idle, poll := .idle }

/-! ### The locks -/

/-- The thread holds `valueLock`. -/
def Getter.holds : Getter → Bool
  | .sizing | .copying _ _ | .unlocking _ => true
  | .idle | .locking => false

/-- The queue thread holds `valueLock`. -/
def Setter.holdsValue : Setter → Bool
  | .assigning _ | .unlocking _ => true
  | .idle | .locking _ | .lockingFile _ | .writing _ | .unlockingFile => false

/-- The queue thread holds `dataFileLock`. -/
def Setter.holdsFile : Setter → Bool
  | .writing _ | .unlockingFile => true
  | .idle | .locking _ | .assigning _ | .unlocking _ | .lockingFile _ => false

/-- The poll thread holds `valueLock`. -/
def Poller.holdsValue : Poller → Bool
  | .assigning _ | .unlocking => true
  | .idle | .lockingFile | .reading | .locking _ | .unlockingFile => false

/-- The poll thread holds `dataFileLock`. -/
def Poller.holdsFile : Poller → Bool
  | .reading | .locking _ | .assigning _ | .unlocking | .unlockingFile => true
  | .idle | .lockingFile => false

/-- Who takes himself to hold `valueLock`. -/
def holdsValue (s : State) : Thread → Bool
  | .server => s.server.holds
  | .queue => s.queue.holdsValue
  | .poll => s.poll.holdsValue

/-- Who takes himself to hold `dataFileLock`. -/
def holdsFile (s : State) : Thread → Bool
  | .server => false
  | .queue => s.queue.holdsFile
  | .poll => s.poll.holdsFile

/-- What is copied is the value, as far as it is copied. -/
def Getter.Copied (value : Str) : Getter → Prop
  | .copying size val => size = value.length ∧ val <+: value
  | .unlocking val => val = value
  | .idle | .locking | .sizing => True

/-- **The invariant.** -/
structure Inv (s : State) : Prop where
  valueLock : Held (holdsValue s) s.valueLock
  fileLock : Held (holdsFile s) s.dataFileLock
  copied : s.server.Copied s.value

/-- Without `valueLock` nothing is copied, whatever the value becomes. -/
theorem Getter.copied_of_not_holds {pc : Getter} (h : pc.holds = false) (value : Str) :
    pc.Copied value := by
  cases pc with
  | idle | locking | sizing => trivial
  | copying size val | unlocking val => cases h

section Steps
variable {hasFile : Bool} {s s' : State} (h : Inv s)
include h

/-- While another thread holds `valueLock`, the value may change. -/
theorem Inv.copied_of_holds {t : Thread} (ht : holdsValue s t = true) (hne : t ≠ .server)
    (value : Str) : s.server.Copied value := by
  refine Getter.copied_of_not_holds ?_ value
  by_contra hserver
  rw [Bool.not_eq_false] at hserver
  exact hne (h.valueLock.unique ht (show holdsValue s .server = true from hserver))

theorem server_inv (hs : serverStep s = some s') : Inv s' := by
  have hlock := h.valueLock
  have hcopied := h.copied
  have hsame : ∀ pc : Getter, pc.holds = s.server.holds →
      Held (holdsValue { s with server := pc }) s.valueLock := fun pc hpc =>
    hlock.same fun t => by cases t <;> first | rfl | exact hpc
  unfold serverStep at hs
  split at hs
  · cases hs
  · next hpc =>
    split_ifs at hs with hfree
    obtain rfl := Option.some.inj hs
    rw [hfree] at hlock
    exact ⟨hlock.acquire rfl fun t ht => by cases t <;> first | rfl | exact absurd rfl ht,
      h.fileLock, trivial⟩
  · next hpc =>
    obtain rfl := Option.some.inj hs
    exact ⟨hsame _ (by rw [hpc]; rfl), h.fileLock, rfl, List.nil_prefix⟩
  · next size val hpc =>
    rw [hpc] at hcopied
    obtain ⟨hsize, rest, hrest⟩ := hcopied
    split_ifs at hs with hlt
    · obtain ⟨b, hb, rfl⟩ := Option.map_eq_some_iff.mp hs
      refine ⟨hsame _ (by rw [hpc]; rfl), h.fileLock, hsize, ?_⟩
      -- the byte is the next one of the value
      rw [← hrest, List.getElem?_append_right (Nat.le_refl _), Nat.sub_self] at hb
      cases rest with
      | nil => cases hb
      | cons b' rest =>
        obtain rfl := Option.some.inj hb
        exact ⟨rest, by rw [List.append_assoc]; exact hrest⟩
    · obtain rfl := Option.some.inj hs
      have hlen := congrArg List.length hrest
      rw [List.length_append] at hlen
      obtain rfl : rest = [] := List.length_eq_zero_iff.mp (by omega)
      rw [List.append_nil] at hrest
      exact ⟨hsame _ (by rw [hpc]; rfl), h.fileLock, hrest⟩
  · next val hpc =>
    obtain rfl := Option.some.inj hs
    have hold : holdsValue s .server = true := by simp [holdsValue, hpc, Getter.holds]
    refine ⟨hlock.release hold rfl fun t ht => ?_, h.fileLock, trivial⟩
    cases t <;> first | rfl | exact absurd rfl ht

theorem queue_inv (hs : queueStep hasFile s = some s') : Inv s' := by
  have hlock := h.valueLock
  have hfile := h.fileLock
  have hsame : ∀ pc : Setter, pc.holdsValue = s.queue.holdsValue →
      Held (holdsValue { s with queue := pc }) s.valueLock := fun pc hpc =>
    hlock.same fun t => by cases t <;> first | rfl | exact hpc
  have hsame' : ∀ pc : Setter, pc.holdsFile = s.queue.holdsFile →
      Held (holdsFile { s with queue := pc }) s.dataFileLock := fun pc hpc =>
    hfile.same fun t => by cases t <;> first | rfl | exact hpc
  unfold queueStep at hs
  split at hs
  · cases hs
  · next v hpc =>
    split_ifs at hs with hfree
    obtain rfl := Option.some.inj hs
    rw [hfree] at hlock
    exact ⟨hlock.acquire rfl fun t ht => by cases t <;> first | rfl | exact absurd rfl ht,
      hsame' _ (by rw [hpc]; rfl), h.copied⟩
  · next v hpc =>
    obtain rfl := Option.some.inj hs
    refine ⟨hsame _ (by rw [hpc]; rfl), hsame' _ (by rw [hpc]; rfl), ?_⟩
    have hold : holdsValue s .queue = true := by simp [holdsValue, hpc, Setter.holdsValue]
    exact h.copied_of_holds hold (by decide) v
  · next v hpc =>
    obtain rfl := Option.some.inj hs
    have hold : holdsValue s .queue = true := by simp [holdsValue, hpc, Setter.holdsValue]
    refine ⟨hlock.release hold ?_ fun t ht => ?_, hsame' _ ?_, h.copied⟩
    · cases hasFile <;> rfl
    · cases t <;> first | rfl | exact absurd rfl ht
    · cases hasFile <;> rw [hpc] <;> rfl
  · next v hpc =>
    split_ifs at hs with hfree
    obtain rfl := Option.some.inj hs
    rw [hfree] at hfile
    exact ⟨hsame _ (by rw [hpc]; rfl),
      hfile.acquire rfl fun t ht => by cases t <;> first | rfl | exact absurd rfl ht, h.copied⟩
  · next v hpc =>
    obtain rfl := Option.some.inj hs
    exact ⟨hsame _ (by rw [hpc]; rfl), hsame' _ (by rw [hpc]; rfl), h.copied⟩
  · next hpc =>
    obtain rfl := Option.some.inj hs
    have hold : holdsFile s .queue = true := by simp [holdsFile, hpc, Setter.holdsFile]
    refine ⟨hsame _ (by rw [hpc]; rfl), hfile.release hold rfl fun t ht => ?_, h.copied⟩
    cases t <;> first | rfl | exact absurd rfl ht

theorem poll_inv {data : Str} (hs : pollStep s data = some s') : Inv s' := by
  have hlock := h.valueLock
  have hfile := h.fileLock
  have hsame : ∀ pc : Poller, pc.holdsValue = s.poll.holdsValue →
      Held (holdsValue { s with poll := pc }) s.valueLock := fun pc hpc =>
    hlock.same fun t => by cases t <;> first | rfl | exact hpc
  have hsame' : ∀ pc : Poller, pc.holdsFile = s.poll.holdsFile →
      Held (holdsFile { s with poll := pc }) s.dataFileLock := fun pc hpc =>
    hfile.same fun t => by cases t <;> first | rfl | exact hpc
  unfold pollStep at hs
  split at hs
  · cases hs
  · next hpc =>
    split_ifs at hs with hfree
    obtain rfl := Option.some.inj hs
    rw [hfree] at hfile
    exact ⟨hsame _ (by rw [hpc]; rfl),
      hfile.acquire rfl fun t ht => by cases t <;> first | rfl | exact absurd rfl ht, h.copied⟩
  · next hpc =>
    obtain rfl := Option.some.inj hs
    exact ⟨hsame _ (by rw [hpc]; rfl), hsame' _ (by rw [hpc]; rfl), h.copied⟩
  · next data hpc =>
    split_ifs at hs with hfree
    obtain rfl := Option.some.inj hs
    rw [hfree] at hlock
    exact ⟨hlock.acquire rfl fun t ht => by cases t <;> first | rfl | exact absurd rfl ht,
      hsame' _ (by rw [hpc]; rfl), h.copied⟩
  · next data hpc =>
    obtain rfl := Option.some.inj hs
    refine ⟨hsame _ (by rw [hpc]; rfl), hsame' _ (by rw [hpc]; rfl), ?_⟩
    have hold : holdsValue s .poll = true := by simp [holdsValue, hpc, Poller.holdsValue]
    exact h.copied_of_holds hold (by decide) data
  · next hpc =>
    obtain rfl := Option.some.inj hs
    have hold : holdsValue s .poll = true := by simp [holdsValue, hpc, Poller.holdsValue]
    refine ⟨hlock.release hold rfl fun t ht => ?_, hsame' _ (by rw [hpc]; rfl), h.copied⟩
    cases t <;> first | rfl | exact absurd rfl ht
  · next hpc =>
    obtain rfl := Option.some.inj hs
    have hold : holdsFile s .poll = true := by simp [holdsFile, hpc, Poller.holdsFile]
    refine ⟨hsame _ (by rw [hpc]; rfl), hfile.release hold rfl fun t ht => ?_, h.copied⟩
    cases t <;> first | rfl | exact absurd rfl ht

/-- **The step** keeps the invariant. -/
theorem step_inv {l : Label} (hs : step hasFile s l = some s') : Inv s' := by
  cases l with
  | server => exact server_inv h hs
  | queue => exact queue_inv h hs
  | poll data => exact poll_inv h hs
  | get =>
    simp only [step] at hs
    split_ifs at hs with hpc
    obtain rfl := Option.some.inj hs
    refine ⟨h.valueLock.same fun t => ?_, h.fileLock, trivial⟩
    cases t <;> simp [holdsValue, hpc, Getter.holds]
  | set v =>
    simp only [step] at hs
    split_ifs at hs with hpc
    obtain rfl := Option.some.inj hs
    refine ⟨h.valueLock.same fun t => ?_, h.fileLock.same fun t => ?_, h.copied⟩
    · cases t <;> simp [holdsValue, hpc, Setter.holdsValue]
    · cases t <;> simp [holdsFile, hpc, Setter.holdsFile]
  | update =>
    simp only [step] at hs
    split_ifs at hs with hpc
    obtain rfl := Option.some.inj hs
    refine ⟨h.valueLock.same fun t => ?_, h.fileLock.same fun t => ?_, h.copied⟩
    · cases t <;> simp [holdsValue, hpc.2, Poller.holdsValue]
    · cases t <;> simp [holdsFile, hpc.2, Poller.holdsFile]
  | assign junk =>
    simp only [step] at hs
    split at hs
    · next v hpc =>
      obtain rfl := Option.some.inj hs
      exact ⟨h.valueLock, h.fileLock, h.copied_of_holds (t := .queue)
        (by simp [holdsValue, hpc, Setter.holdsValue]) (by decide) junk⟩
    · next hpc _ =>
      obtain rfl := Option.some.inj hs
      exact ⟨h.valueLock, h.fileLock, h.copied_of_holds (t := .poll)
        (by simp [holdsValue, hpc, Poller.holdsValue]) (by decide) junk⟩
    · cases hs

end Steps

theorem start_inv (value : Str) : Inv (start value) :=
  ⟨fun t => by cases t <;> simp [start, holdsValue, Getter.holds, Setter.holdsValue,
      Poller.holdsValue],
    fun t => by cases t <;> simp [start, holdsFile, Setter.holdsFile, Poller.holdsFile], trivial⟩

theorem reach_inv {hasFile : Bool} {value : Str} {s : State}
    (hreach : Reach (step hasFile) (start value) s) : Inv s :=
  Runs.invariant (fun _ _ _ h _ hs => step_inv h hs) hreach (start_inv value)

/-! ### Races and waiting -/

/-- How a step uses the value. -/
inductive Access where
  | read
  | write
  deriving DecidableEq

/-- **How the next step of a thread uses the value.** -/
def access (s : State) : Thread → Option Access
  | .server =>
    match s.server with
    | .sizing | .copying _ _ => some .read
    | .idle | .locking | .unlocking _ => none
  | .queue =>
    match s.queue with
    | .assigning _ => some .write
    | .writing _ => some .read
    | .idle | .locking _ | .unlocking _ | .lockingFile _ | .unlockingFile => none
  | .poll =>
    match s.poll with
    | .assigning _ => some .write
    | .idle | .lockingFile | .reading | .locking _ | .unlocking | .unlockingFile => none

/-- **A data race**: a thread is about to write the value, and another one to use it. -/
def Race (s : State) : Prop :=
  ∃ t t', t ≠ t' ∧ access s t = some .write ∧ access s t' ≠ none

/-- The locks. -/
inductive Lock where
  | valueLock
  | dataFileLock
  deriving DecidableEq

/-- The lock that a thread waits for. -/
def waits (s : State) : Thread → Option Lock
  | .server =>
    match s.server with
    | .locking => some .valueLock
    | .idle | .sizing | .copying _ _ | .unlocking _ => none
  | .queue =>
    match s.queue with
    | .locking _ => some .valueLock
    | .lockingFile _ => some .dataFileLock
    | .idle | .assigning _ | .unlocking _ | .writing _ | .unlockingFile => none
  | .poll =>
    match s.poll with
    | .lockingFile => some .dataFileLock
    | .locking _ => some .valueLock
    | .idle | .reading | .assigning _ | .unlocking | .unlockingFile => none

/-- The holder of a lock. -/
def holder (s : State) : Lock → Option Thread
  | .valueLock => s.valueLock
  | .dataFileLock => s.dataFileLock

/-- The thread is in a call. -/
def Active (s : State) : Thread → Prop
  | .server => s.server ≠ .idle
  | .queue => s.queue ≠ .idle
  | .poll => s.poll ≠ .idle

/-- The next step of a thread, whose read of the file finds `data`. -/
def next (data : Str) : Thread → Label
  | .server => .server
  | .queue => .queue
  | .poll => .poll data

/-- `valueLock` is taken inside of `dataFileLock`. -/
def rank : Lock → ℕ
  | .dataFileLock => 0
  | .valueLock => 1

/-- Who writes the value holds its lock, and the poll thread both. -/
theorem holds_of_write {s : State} {t : Thread} (ht : access s t = some .write) :
    holdsValue s t = true ∧ (t = .poll → holdsFile s t = true) := by
  cases t with
  | server =>
    simp only [access] at ht
    split at ht <;> cases ht
  | queue =>
    simp only [access] at ht
    split at ht
    · next hpc => exact ⟨by simp [holdsValue, hpc, Setter.holdsValue], by rintro ⟨⟩⟩
    all_goals cases ht
  | poll =>
    simp only [access] at ht
    split at ht
    · next hpc =>
      exact ⟨by simp [holdsValue, hpc, Poller.holdsValue],
        fun _ => by simp [holdsFile, hpc, Poller.holdsFile]⟩
    all_goals cases ht

/-- Who reads it holds its lock, or is the queue thread with the lock of the file. -/
theorem holds_of_access {s : State} {t : Thread} (ht : access s t ≠ none) :
    holdsValue s t = true ∨ t = .queue ∧ holdsFile s t = true := by
  cases t with
  | server =>
    simp only [access] at ht
    split at ht
    · next hpc => exact Or.inl (by simp [holdsValue, hpc, Getter.holds])
    · next hpc => exact Or.inl (by simp [holdsValue, hpc, Getter.holds])
    all_goals exact absurd rfl ht
  | queue =>
    simp only [access] at ht
    split at ht
    · next hpc => exact Or.inl (by simp [holdsValue, hpc, Setter.holdsValue])
    · next hpc => exact Or.inr ⟨rfl, by simp [holdsFile, hpc, Setter.holdsFile]⟩
    all_goals exact absurd rfl ht
  | poll =>
    simp only [access] at ht
    split at ht
    · next hpc => exact Or.inl (by simp [holdsValue, hpc, Poller.holdsValue])
    all_goals exact absurd rfl ht

section Locks
variable {hasFile : Bool} {s : State} (h : Inv s)
include h

/-- **No data race**, also where `setValue` looks at the size without `valueLock`. -/
theorem Inv.no_race : ¬ Race s := by
  rintro ⟨t, t', hne, hwrite, hused⟩
  obtain ⟨hvalue, hfile⟩ := holds_of_write hwrite
  rcases holds_of_access hused with hvalue' | ⟨rfl, hfile'⟩
  · exact hne (h.valueLock.unique hvalue hvalue')
  · -- the other writer is the poll thread, which holds the lock of the file
    cases t with
    | server =>
      simp only [access] at hwrite
      split at hwrite <;> cases hwrite
    | queue => exact hne rfl
    | poll => exact hne (h.fileLock.unique (hfile rfl) hfile')

/-- Who holds a lock is in a call, and waits for a lock of higher rank, if for any. -/
theorem Inv.holder_active {l : Lock} {t : Thread} (hl : holder s l = some t) :
    Active s t ∧ ∀ l', waits s t = some l' → rank l < rank l' := by
  cases l with
  | valueLock =>
    have ht := (h.valueLock t).mpr hl
    cases t with
    | server =>
      simp only [Active, waits]
      cases hpc : s.server <;> simp_all [holdsValue, Getter.holds]
    | queue =>
      simp only [Active, waits]
      cases hpc : s.queue <;> simp_all [holdsValue, Setter.holdsValue]
    | poll =>
      simp only [Active, waits]
      cases hpc : s.poll <;> simp_all [holdsValue, Poller.holdsValue]
  | dataFileLock =>
    have ht := (h.fileLock t).mpr hl
    cases t with
    | server => cases ht
    | queue =>
      simp only [Active, waits]
      cases hpc : s.queue <;> simp_all [holdsFile, Setter.holdsFile]
    | poll =>
      simp only [Active, waits]
      cases hpc : s.poll <;> simp_all [holdsFile, Poller.holdsFile, rank]

/-- **A thread that is not blocked takes its next step**; the copy stays within the value. -/
theorem Inv.moves {t : Thread} (hactive : Active s t)
    (hfree : Unblocked (waits s) (holder s) t) (data : Str) :
    ∃ s', step hasFile s (next data t) = some s' := by
  cases t with
  | server =>
    simp only [step, next, serverStep]
    cases hpc : s.server with
    | idle => exact absurd hpc hactive
    | locking =>
      have hnone : s.valueLock = none := hfree .valueLock (by simp only [waits, hpc])
      exact ⟨_, if_pos hnone⟩
    | sizing => exact ⟨_, rfl⟩
    | copying size val =>
      have hcopied := h.copied
      rw [hpc] at hcopied
      simp only
      split_ifs with hlt
      · rw [List.getElem?_eq_getElem (by rw [← hcopied.1]; exact hlt)]
        exact ⟨_, rfl⟩
      · exact ⟨_, rfl⟩
    | unlocking val => exact ⟨_, rfl⟩
  | queue =>
    simp only [step, next, queueStep]
    cases hpc : s.queue with
    | idle => exact absurd hpc hactive
    | locking v =>
      have hnone : s.valueLock = none := hfree .valueLock (by simp only [waits, hpc])
      exact ⟨_, if_pos hnone⟩
    | lockingFile v =>
      have hnone : s.dataFileLock = none := hfree .dataFileLock (by simp only [waits, hpc])
      exact ⟨_, if_pos hnone⟩
    | assigning v | unlocking v | writing v | unlockingFile => exact ⟨_, rfl⟩
  | poll =>
    simp only [step, next, pollStep]
    cases hpc : s.poll with
    | idle => exact absurd hpc hactive
    | locking v =>
      have hnone : s.valueLock = none := hfree .valueLock (by simp only [waits, hpc])
      exact ⟨_, if_pos hnone⟩
    | lockingFile =>
      have hnone : s.dataFileLock = none := hfree .dataFileLock (by simp only [waits, hpc])
      exact ⟨_, if_pos hnone⟩
    | reading | assigning v | unlocking | unlockingFile => exact ⟨_, rfl⟩

/-- **No deadlock**: a thread in a call goes on, or a chain of threads that wait for each other leads
from it to one that does. -/
theorem Inv.progress {t : Thread} (hactive : Active s t) (data : Str) :
    ∃ t' s', Relation.ReflTransGen (WaitsFor (waits s) (holder s)) t t' ∧
      step hasFile s (next data t') = some s' := by
  have hbound : ∀ l, rank l ≤ 1 := fun l => by cases l <;> decide
  obtain ⟨t', hchain, hfree⟩ :=
    ends_of_ranked hbound (fun u l l' hl hw => (h.holder_active hl).2 l' hw) t
  have hactive' : Active s t' := by
    rcases hchain.cases_tail with rfl | ⟨u, -, l, -, hl⟩
    · exact hactive
    · exact (h.holder_active hl).1
  obtain ⟨s', hs'⟩ := h.moves hactive' hfree data
  exact ⟨t', s', hchain, hs'⟩

end Locks

/-! ### The register -/

/-- A use of the value: a copy, an assignment, or a look at its size. -/
inductive Op where
  | get
  | store (v : Str)
  | size
  deriving DecidableEq

/-- What it yields. -/
inductive Answer where
  | value (v : Str)
  | done
  | length (n : ℕ)
  deriving DecidableEq

/-- **The register.** -/
def register (value : Str) : Op → Answer × Str
  | .get => (.value value, value)
  | .store v => (.done, v)
  | .size => (.length value.length, value)

/-- **What is seen of a step**: where a thread begins to use the value, and what it has when it is
done. -/
def seen (s : State) : Label → List (Event Thread Op Answer)
  | .get => [.invoke .server .get]
  | .server =>
    match s.server with
    | .unlocking val => [.respond .server (.value val)]
    | _ => []
  | .set v => [.invoke .queue (.store v)]
  | .queue =>
    match s.queue with
    | .unlocking _ => [.respond .queue .done]
    | .writing _ => [.invoke .queue .size, .respond .queue (.length s.value.length)]
    | _ => []
  | .update => []
  | .poll data =>
    match s.poll with
    | .reading => [.invoke .poll (.store data)]
    | .unlocking => [.respond .poll .done]
    | _ => []
  | .assign _ => []

/-- The call of the server thread. -/
def serverCall (value : Str) : Getter → Call Op Answer
  | .idle => .idle
  | .locking => .invoked .get
  | .sizing | .copying _ _ | .unlocking _ => .performed (.value value)

/-- The call of the queue thread. -/
def queueCall : Setter → Call Op Answer
  | .idle | .lockingFile _ | .writing _ | .unlockingFile => .idle
  | .locking v => .invoked (.store v)
  | .assigning _ | .unlocking _ => .performed .done

/-- The call of the poll thread. -/
def pollCall : Poller → Call Op Answer
  | .idle | .lockingFile | .reading | .unlockingFile => .idle
  | .locking data => .invoked (.store data)
  | .assigning _ | .unlocking => .performed .done

/-- What the queue thread is assigning. -/
def Setter.assigned : Setter → Option Str
  | .assigning v => some v
  | .idle | .locking _ | .unlocking _ | .lockingFile _ | .writing _ | .unlockingFile => none

/-- What the poll thread is assigning. -/
def Poller.assigned : Poller → Option Str
  | .assigning data => some data
  | .idle | .lockingFile | .reading | .locking _ | .unlocking | .unlockingFile => none

/-- The register's value: what is being assigned counts as assigned. -/
def content (s : State) : Str := (s.queue.assigned.or s.poll.assigned).getD s.value

/-- **The register in a state.** -/
def atomic (s : State) : Lib.AtomicObject.State Thread Op Answer Str :=
  { object := content s
    call := fun t => match t with
      | .server => serverCall s.value s.server
      | .queue => queueCall s.queue
      | .poll => pollCall s.poll }

/-- Without `valueLock` the server thread's call does not depend on the value. -/
theorem serverCall_of_not_holds {pc : Getter} (h : pc.holds = false) (v v' : Str) :
    serverCall v pc = serverCall v' pc := by
  cases pc with
  | idle | locking => rfl
  | sizing | copying _ _ | unlocking _ => cases h

theorem Setter.holds_of_assigned {pc : Setter} (h : pc.holdsValue = false) :
    pc.assigned = none := by
  cases pc with
  | assigning v => cases h
  | idle | locking _ | unlocking _ | lockingFile _ | writing _ | unlockingFile => rfl

theorem Poller.holds_of_assigned {pc : Poller} (h : pc.holdsValue = false) :
    pc.assigned = none := by
  cases pc with
  | assigning v => cases h
  | idle | lockingFile | reading | locking _ | unlocking | unlockingFile => rfl

section Matching
variable {hasFile : Bool} {s s' : State}

/-- The register is read off a state part by part. -/
theorem atomic_eq {v : Str} {call : Thread → Call Op Answer} (hobject : content s = v)
    (hcall : ∀ t, (atomic s).call t = call t) : atomic s = { object := v, call } := by
  rw [show atomic s = ⟨content s, (atomic s).call⟩ from rfl, hobject, funext hcall]

/-- A step that leaves the register and the calls. -/
theorem stutter (hobject : content s' = content s)
    (hcall : ∀ t, (atomic s').call t = (atomic s).call t) :
    AtomicTraces register (atomic s) [] (atomic s') := by
  rw [show atomic s' = atomic s from atomic_eq hobject hcall]
  exact .refl

/-- The register is where the step has gone. -/
theorem matched {t : Thread} {c : Call Op Answer} {v : Str} {es : List (Event Thread Op Answer)}
    (hrun : AtomicTraces register (atomic s) es
      { object := v, call := Function.update (atomic s).call t c })
    (hobject : content s' = v) (hself : (atomic s').call t = c)
    (hother : ∀ u, u ≠ t → (atomic s').call u = (atomic s).call u) :
    AtomicTraces register (atomic s) es (atomic s') := by
  have hcall : (atomic s').call = Function.update (atomic s).call t c :=
    Function.eq_update_iff.mpr ⟨hself, hother⟩
  rw [atomic_eq hobject (congrFun hcall)]
  exact hrun

/-- The register's value is that of the state it is read off. -/
theorem content_congr (hqueue : s'.queue.assigned = s.queue.assigned)
    (hpoll : s'.poll.assigned = s.poll.assigned) (hvalue : s'.value = s.value) :
    content s' = content s := by
  rw [content, content, hqueue, hpoll, hvalue]

variable (h : Inv s)
include h

/-- Only the holder of `valueLock` assigns. -/
theorem Inv.not_assigned {t : Thread} (ht : s.valueLock = some t ∨ s.valueLock = none) :
    (t ≠ .queue → s.queue.assigned = none) ∧ (t ≠ .poll → s.poll.assigned = none) := by
  have hnot : ∀ u, t ≠ u → holdsValue s u = false := by
    intro u hne
    by_contra hholds
    rw [Bool.not_eq_false] at hholds
    have hu := (h.valueLock u).mp hholds
    rcases ht with ht | ht <;> rw [ht] at hu
    · exact hne (Option.some.inj hu)
    · cases hu
  exact ⟨fun hne => Setter.holds_of_assigned (hnot .queue hne),
    fun hne => Poller.holds_of_assigned (hnot .poll hne)⟩

/-- While another thread holds `valueLock`, the server thread is not in its copy. -/
theorem Inv.serverCall_eq {t : Thread} (ht : holdsValue s t = true) (hne : t ≠ .server)
    (v : Str) : serverCall v s.server = serverCall s.value s.server := by
  refine serverCall_of_not_holds ?_ _ _
  by_contra hserver
  rw [Bool.not_eq_false] at hserver
  exact hne (h.valueLock.unique ht (show holdsValue s .server = true from hserver))

/-- **A step of `getValue`**: the value is read where the lock is taken. -/
theorem server_atomic (hs : serverStep s = some s') :
    AtomicTraces register (atomic s) (seen s .server) (atomic s') := by
  have hcopied := h.copied
  unfold serverStep at hs
  split at hs
  · cases hs
  · next hpc =>
    split_ifs at hs with hfree
    obtain rfl := Option.some.inj hs
    have hcontent : content s = s.value := by
      obtain ⟨hqueue, hpoll⟩ := h.not_assigned (t := .server) (Or.inr hfree)
      rw [content, hqueue (by decide), hpoll (by decide)]
      rfl
    have hcall : (atomic s).call .server = .invoked .get := by simp only [atomic, hpc, serverCall]
    have happly : register (atomic s).object .get = (.value s.value, content s) := by
      simp only [atomic, register, hcontent]
    simp only [seen, hpc]
    exact matched (Lib.AtomicObject.perform_trace hcall happly) rfl rfl
      fun u hu => by cases u <;> first | rfl | exact absurd rfl hu
  · next hpc =>
    obtain rfl := Option.some.inj hs
    simp only [seen, hpc]
    exact stutter rfl fun u => by cases u <;> simp only [atomic, hpc, serverCall]
  · next size val hpc =>
    simp only [seen, hpc]
    split_ifs at hs with hlt
    · obtain ⟨b, hb, rfl⟩ := Option.map_eq_some_iff.mp hs
      exact stutter rfl fun u => by cases u <;> simp only [atomic, hpc, serverCall]
    · obtain rfl := Option.some.inj hs
      exact stutter rfl fun u => by cases u <;> simp only [atomic, hpc, serverCall]
  · next val hpc =>
    obtain rfl := Option.some.inj hs
    rw [hpc] at hcopied
    obtain rfl : val = s.value := hcopied
    have hcall : (atomic s).call .server = .performed (.value s.value) := by
      simp only [atomic, hpc, serverCall]
    simp only [seen, hpc]
    exact matched (Lib.AtomicObject.respond_trace hcall) rfl rfl
      fun u hu => by cases u <;> first | rfl | exact absurd rfl hu

/-- **A step of `setValue`**: the value is stored where the lock is taken, and its size is looked at
where nobody assigns. -/
theorem queue_atomic (hs : queueStep hasFile s = some s') :
    AtomicTraces register (atomic s) (seen s .queue) (atomic s') := by
  unfold queueStep at hs
  split at hs
  · cases hs
  · next v hpc =>
    split_ifs at hs with hfree
    obtain rfl := Option.some.inj hs
    have hcall : (atomic s).call .queue = .invoked (.store v) := by
      simp only [atomic, hpc, queueCall]
    simp only [seen, hpc]
    exact matched (Lib.AtomicObject.perform_trace hcall rfl) rfl rfl
      fun u hu => by cases u <;> first | rfl | exact absurd rfl hu
  · next v hpc =>
    obtain rfl := Option.some.inj hs
    have hholds : holdsValue s .queue = true := by simp [holdsValue, hpc, Setter.holdsValue]
    have hpoll := (h.not_assigned (Or.inl ((h.valueLock .queue).mp hholds))).2 (by decide)
    simp only [seen, hpc]
    refine stutter ?_ fun u => ?_
    · simp only [content, hpc, hpoll, Setter.assigned]
      rfl
    · cases u with
      | server => exact h.serverCall_eq hholds (by decide) v
      | queue => simp only [atomic, hpc, queueCall]
      | poll => rfl
  · next v hpc =>
    obtain rfl := Option.some.inj hs
    have hcall : (atomic s).call .queue = .performed .done := by
      simp only [atomic, hpc, queueCall]
    simp only [seen, hpc]
    refine matched (Lib.AtomicObject.respond_trace hcall) (content_congr ?_ rfl rfl) ?_
      fun u hu => by cases u <;> first | rfl | exact absurd rfl hu
    · cases hasFile <;> rw [hpc] <;> rfl
    · cases hasFile <;> rfl
  · next v hpc =>
    split_ifs at hs with hfree
    obtain rfl := Option.some.inj hs
    simp only [seen, hpc]
    refine stutter (content_congr ?_ rfl rfl) fun u => ?_
    · rw [hpc]
      rfl
    · cases u <;> simp only [atomic, hpc, queueCall]
  · next v hpc =>
    obtain rfl := Option.some.inj hs
    have hpoll : s.poll.assigned = none := by
      -- the poll thread would hold the lock of the file
      cases hp : s.poll with
      | assigning data =>
        have hqueue : holdsFile s .queue = true := by simp [holdsFile, hpc, Setter.holdsFile]
        have hpoll : holdsFile s .poll = true := by simp [holdsFile, hp, Poller.holdsFile]
        cases h.fileLock.unique hqueue hpoll
      | idle | lockingFile | reading | locking _ | unlocking | unlockingFile => rfl
    have hcontent : content s = s.value := by
      rw [content, hpoll, hpc]
      rfl
    have hcall : (atomic s).call .queue = .idle := by simp only [atomic, hpc, queueCall]
    have happly : register (content s) .size = (.length s.value.length, content s) := by
      simp only [register, hcontent]
    have hafter : atomic { s with queue := .unlockingFile } =
        { object := content s, call := (atomic s).call } := by
      refine atomic_eq ?_ fun u => by cases u <;> simp only [atomic, hpc, queueCall]
      refine content_congr ?_ rfl rfl
      rw [hpc]
      rfl
    simp only [seen, hpc]
    rw [hafter]
    exact Lib.AtomicObject.call_trace hcall happly
  · next hpc =>
    obtain rfl := Option.some.inj hs
    simp only [seen, hpc]
    refine stutter (content_congr ?_ rfl rfl) fun u => ?_
    · rw [hpc]
      rfl
    · cases u <;> simp only [atomic, hpc, queueCall]

/-- **A step of `valueUpdate`**: the value is stored where the lock is taken. -/
theorem poll_atomic {data : Str} (hs : pollStep s data = some s') :
    AtomicTraces register (atomic s) (seen s (.poll data)) (atomic s') := by
  unfold pollStep at hs
  split at hs
  · cases hs
  · next hpc =>
    split_ifs at hs with hfree
    obtain rfl := Option.some.inj hs
    simp only [seen, hpc]
    refine stutter (content_congr rfl ?_ rfl) fun u => ?_
    · rw [hpc]
      rfl
    · cases u <;> simp only [atomic, hpc, pollCall]
  · next hpc =>
    obtain rfl := Option.some.inj hs
    have hcall : (atomic s).call .poll = .idle := by simp only [atomic, hpc, pollCall]
    simp only [seen, hpc]
    refine matched (Lib.AtomicObject.invoke_trace hcall) (content_congr rfl ?_ rfl) rfl
      fun u hu => by cases u <;> first | rfl | exact absurd rfl hu
    rw [hpc]
    rfl
  · next data hpc =>
    split_ifs at hs with hfree
    obtain rfl := Option.some.inj hs
    have hcall : (atomic s).call .poll = .invoked (.store data) := by
      simp only [atomic, hpc, pollCall]
    have hqueue := (h.not_assigned (t := .poll) (Or.inr hfree)).1 (by decide)
    simp only [seen, hpc]
    refine matched (Lib.AtomicObject.perform_trace hcall rfl) ?_ rfl
      fun u hu => by cases u <;> first | rfl | exact absurd rfl hu
    rw [content, hqueue]
    rfl
  · next data hpc =>
    obtain rfl := Option.some.inj hs
    have hholds : holdsValue s .poll = true := by simp [holdsValue, hpc, Poller.holdsValue]
    have hqueue := (h.not_assigned (Or.inl ((h.valueLock .poll).mp hholds))).1 (by decide)
    simp only [seen, hpc]
    refine stutter ?_ fun u => ?_
    · simp only [content, hpc, hqueue, Poller.assigned]
      rfl
    · cases u with
      | server => exact h.serverCall_eq hholds (by decide) data
      | queue => rfl
      | poll => simp only [atomic, hpc, pollCall]
  · next hpc =>
    obtain rfl := Option.some.inj hs
    have hcall : (atomic s).call .poll = .performed .done := by simp only [atomic, hpc, pollCall]
    simp only [seen, hpc]
    refine matched (Lib.AtomicObject.respond_trace hcall) (content_congr rfl ?_ rfl) rfl
      fun u hu => by cases u <;> first | rfl | exact absurd rfl hu
    rw [hpc]
    rfl
  · next hpc =>
    obtain rfl := Option.some.inj hs
    simp only [seen, hpc]
    refine stutter (content_congr rfl ?_ rfl) fun u => ?_
    · rw [hpc]
      rfl
    · cases u <;> simp only [atomic, hpc, pollCall]

/-- **Every step is matched.** -/
theorem step_atomic {l : Label} (hs : step hasFile s l = some s') :
    AtomicTraces register (atomic s) (seen s l) (atomic s') := by
  cases l with
  | server => exact server_atomic h hs
  | queue => exact queue_atomic h hs
  | poll data => exact poll_atomic h hs
  | get =>
    simp only [step] at hs
    split_ifs at hs with hpc
    obtain rfl := Option.some.inj hs
    have hcall : (atomic s).call .server = .idle := by simp only [atomic, hpc, serverCall]
    exact matched (Lib.AtomicObject.invoke_trace hcall) rfl rfl
      fun u hu => by cases u <;> first | rfl | exact absurd rfl hu
  | set v =>
    simp only [step] at hs
    split_ifs at hs with hpc
    obtain rfl := Option.some.inj hs
    have hcall : (atomic s).call .queue = .idle := by simp only [atomic, hpc, queueCall]
    refine matched (Lib.AtomicObject.invoke_trace hcall) (content_congr ?_ rfl rfl) rfl
      fun u hu => by cases u <;> first | rfl | exact absurd rfl hu
    rw [hpc]
    rfl
  | update =>
    simp only [step] at hs
    split_ifs at hs with hpc
    obtain rfl := Option.some.inj hs
    refine stutter (content_congr rfl ?_ rfl) fun u => ?_
    · rw [hpc.2]
      rfl
    · cases u <;> simp only [atomic, hpc.2, pollCall]
  | assign junk =>
    simp only [step] at hs
    split at hs
    · next v hpc =>
      obtain rfl := Option.some.inj hs
      refine stutter ?_ fun u => ?_
      · simp only [content, hpc, Setter.assigned, Option.some_or, Option.getD_some]
      · have hholds : holdsValue s .queue = true := by simp [holdsValue, hpc, Setter.holdsValue]
        cases u with
        | server => exact h.serverCall_eq hholds (by decide) junk
        | queue | poll => rfl
    · next hpc _ =>
      obtain rfl := Option.some.inj hs
      have hholds : holdsValue s .poll = true := by simp [holdsValue, hpc, Poller.holdsValue]
      have hqueue := (h.not_assigned (Or.inl ((h.valueLock .poll).mp hholds))).1 (by decide)
      refine stutter ?_ fun u => ?_
      · simp only [content, hpc, hqueue, Poller.assigned]
        rfl
      · cases u with
        | server => exact h.serverCall_eq hholds (by decide) junk
        | queue | poll => rfl
    · cases hs

end Matching

/-! ### The results -/

/-- **Neither races nor deadlocks.** In every state of every run no thread is about to write the value
while another one is about to use it; and a thread in a call goes on, or a chain of threads that wait
for each other leads from it to one that does. -/
theorem no_race_no_deadlock (hasFile : Bool) (value : Str) {s : State}
    (h : Reach (step hasFile) (start value) s) : ¬ Race s ∧ ∀ t data, Active s t →
      ∃ t' s', Relation.ReflTransGen (WaitsFor (waits s) (holder s)) t t' ∧
        step hasFile s (next data t') = some s' :=
  ⟨(reach_inv h).no_race, fun _ data hactive => (reach_inv h).progress hactive data⟩

/-- The poll thread assigns; the two others wait for it. -/
def contended : State :=
  { value := [9], valueLock := some .poll, dataFileLock := some .poll, server := .locking
    queue := .locking [5], poll := .assigning [7, 8] }

theorem no_race_no_deadlock_contended :
    ¬ Race contended ∧ ∃ t' s', Relation.ReflTransGen
      (WaitsFor (waits contended) (holder contended)) .server t' ∧
        step true contended (next [] t') = some s' := by
  have hreach : Reach (step true) (start [1]) contended :=
    reach_of_foldlM [.update, .get, .poll [], .poll [7, 8], .set [5], .poll [], .assign [9]]
      (by decide)
  exact ⟨(no_race_no_deadlock true [1] hreach).1,
    (no_race_no_deadlock true [1] hreach).2 .server [] (by rintro ⟨⟩)⟩

/-- **The value is an atomic register.** In every run of the three threads, what they see of the value
is what they see of a register whose copies, assignments and looks at the size take effect at one
instant, however the copies and assignments are made. -/
theorem value_linearizable (hasFile : Bool) (value : Str) {es : List (Event Thread Op Answer)}
    {s : State} (h : Traces (step hasFile) (fun _ _ => True) seen (start value) es s) :
    Linearizable register value es := by
  have hstart : atomic (start value) = Lib.AtomicObject.start value :=
    atomic_eq rfl fun t => by cases t <;> rfl
  have hsim : ∀ s l s' t, Inv s ∧ t = atomic s → True → step hasFile s l = some s' →
      ∃ t', AtomicTraces register t (seen s l) t' ∧ Inv s' ∧ t' = atomic s' := by
    rintro s l s' t ⟨hinv, rfl⟩ - hs
    exact ⟨atomic s', step_atomic hinv hs, step_inv hinv hs, rfl⟩
  obtain ⟨t, htrace, -⟩ := h.simulation hsim ⟨start_inv value, hstart.symm⟩
  exact ⟨t, htrace⟩

/-- A copy that begins before an assignment and is made after it. -/
def lateCopy : List (Event Thread Op Answer) :=
  [.invoke .server .get, .invoke .poll (.store [7, 8]), .respond .poll .done,
    .respond .server (.value [7, 8])]

theorem value_linearizable_lateCopy : Linearizable register [1] lateCopy := by
  have hplay : play (step true) seen [.update, .get, .poll [], .poll [7, 8], .poll [], .assign [9],
      .poll [], .poll [], .server, .server, .server, .server, .server, .server] (start [1]) =
        some (lateCopy, ⟨[7, 8], none, some .poll, .idle, .idle, .unlockingFile⟩) := by
    decide +kernel
  exact value_linearizable true [1] (traces_of_play _ (fun _ _ _ => trivial) hplay)

end CoapServer.Resources.Register
