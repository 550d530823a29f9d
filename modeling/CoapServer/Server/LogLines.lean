import CoapServer.Server.Machine

/-! # The lines of an item

Every formatter of a method yields one text, or two where the input of the command is logged too, and
every text one line: of the payload and of the output of the command nothing can end a line
(`newline_itemLines`). The lines are written after the value is stored, so none is written where
storing it throws (`processItem_saves`, `processItem_throws`). -/

namespace CoapServer.Server.LogLines

open CoapServer.Basic CoapServer.Config CoapServer.Lib.Frame CoapServer.Resources.Files
open CoapServer.Resources.Formatter CoapServer.Resources.Object CoapServer.Server.World
open CoapServer.Server.Requests CoapServer.Server.Process CoapServer.Server.Timestamps

variable {κ : Type}

/-- `'\n'`. -/
def newline : Byte := 0x0a

/-! ### The texts -/

section Texts
variable (env : ProcEnv) (r : Resource) (m : ResourceMethod)

/-- **What the command leaves in the stream** of formatter `k`: its output, or where it runs too long
what was there. -/
def cmdOutput (k : ℕ) (decoded : Str) : Str :=
  match env.shell k m.config.cmd decoded r.getPath (methStringify m.getMethodType)
      (if m.config.cmdStdin then decoded else []) with
  | .exited _ out => firstLines out
  | .timedOut | .threw => decoded

/-- The texts of formatter `k`. -/
def textsOf (data : Str) (k : ℕ) (fmt : Format) : List Str :=
  if m.config.cmd = [] then [fmt.decode data]
  else (if m.config.cmdLogInput then [fmt.decode data] else []) ++
    [cmdOutput env r m k (fmt.decode data)]

/-- The texts of the formatters from number `k` on. -/
def textsFrom (data : Str) : ℕ → List Format → List Str
  | _, [] => []
  | k, fmt :: fmts => textsOf env r m data k fmt ++ textsFrom data (k + 1) fmts

/-- **The lines of an item.** -/
def itemLines (item : RequestQueueItem) : List Str :=
  (textsFrom env r m item.data 0 m.fmts).map
    (linePrefix m (env.timestamp item.time) r.getPath ++ ·)

end Texts

/-- The content of a file, which is empty if the file does not exist. -/
def contentAt (fs : FileSystem) (p : Str) : Str :=
  match fs.files p with
  | some f => f.content
  | none => []

/-- **Storing does not throw**: there is nothing to store, or no data file, or it can be written or at
least exists. -/
def Saves (r : Resource) (m : ResourceMethod) (fs : FileSystem) : Prop :=
  Sets m → r.dataFilePath ≠ [] → fs.writable r.dataFilePath = true ∨ fs.files r.dataFilePath ≠ none

/-- The value that is stored: the last text of the first formatter of a `GET`, or else the data. -/
def storedValue (env : ProcEnv) (r : Resource) (m : ResourceMethod) (data : Str) : Str :=
  if m.getMethodType = .get then
    (m.fmts.head?.elim [] (textsOf env r m data 0)).getLast?.getD []
  else data

/-- The files after a value was stored, as far as the data file has room. -/
def saved (room : Option ℕ) (r : Resource) (value : Str) (fs : FileSystem) : FileSystem :=
  if r.dataFilePath ≠ [] ∧ fs.writable r.dataFilePath = true then
    fs.put r.dataFilePath (upTo room value)
  else fs

/-! ### No line breaks -/

/-- The parts of a text between separators have none. -/
theorem not_mem_of_mem_splitOn {s part : Str} {sep : Byte} (h : part ∈ s.splitOn sep) :
    sep ∉ part := by
  induction s generalizing part with
  | nil =>
    obtain rfl : part = [] := by simpa using h
    exact List.not_mem_nil
  | cons c cs ih =>
    rw [List.splitOn_cons_eq_if_modifyHead] at h
    split_ifs at h with hc
    · rcases List.mem_cons.mp h with rfl | h
      · exact List.not_mem_nil
      · exact ih h
    · obtain ⟨first, rest, hsplit⟩ := List.exists_cons_of_ne_nil (List.splitOn_ne_nil sep cs)
      rw [hsplit, List.modifyHead_cons] at h
      rcases List.mem_cons.mp h with rfl | h
      · have hfirst : sep ∉ first := ih (hsplit ▸ List.mem_cons_self)
        intro hmem
        rcases List.mem_cons.mp hmem with rfl | hmem
        · exact hc (beq_self_eq_true sep)
        · exact hfirst hmem
      · exact ih (hsplit ▸ List.mem_cons_of_mem _ h)

theorem newline_firstLines (out : Str) : newline ∉ firstLines out := by
  intro h
  obtain ⟨part, hpart, hmem⟩ := List.mem_flatten.mp h
  exact not_mem_of_mem_splitOn ((List.takeWhile_prefix _).subset hpart) hmem

theorem newline_timestamp (env : ProcEnv) (t : Time) : newline ∉ env.timestamp t :=
  notMem_timebuf (by decide) (by decide) _ _

theorem newline_decode (fmt : Format) (data : Str) : newline ∉ fmt.decode data := by
  intro h
  have hprint := decode_printable fmt data _ h
  revert hprint
  decide

section Lines
variable {env : ProcEnv} {r : Resource} {m : ResourceMethod}

theorem newline_textsOf (data : Str) (k : ℕ) (fmt : Format) :
    ∀ text ∈ textsOf env r m data k fmt, newline ∉ text := by
  have hdecode := newline_decode fmt data
  have hout : newline ∉ cmdOutput env r m k (fmt.decode data) := by
    unfold cmdOutput
    split
    · exact newline_firstLines _
    · exact hdecode
    · exact hdecode
  intro text htext
  unfold textsOf at htext
  split_ifs at htext
  · obtain rfl := List.mem_singleton.mp htext
    exact hdecode
  · rcases List.mem_append.mp htext with htext | htext
    · obtain rfl := List.mem_singleton.mp htext
      exact hdecode
    · obtain rfl := List.mem_singleton.mp htext
      exact hout
  · rw [List.nil_append] at htext
    obtain rfl := List.mem_singleton.mp htext
    exact hout

theorem newline_textsFrom (data : Str) (fmts : List Format) :
    ∀ k, ∀ text ∈ textsFrom env r m data k fmts, newline ∉ text := by
  induction fmts with
  | nil => simp [textsFrom]
  | cons fmt fmts ih =>
    intro k text htext
    rcases List.mem_append.mp htext with htext | htext
    · exact newline_textsOf data k fmt text htext
    · exact ih (k + 1) text htext

/-- How many texts there are. -/
theorem length_textsFrom (data : Str) (fmts : List Format) : ∀ k,
    (textsFrom env r m data k fmts).length =
      fmts.length * if m.config.cmd ≠ [] ∧ m.config.cmdLogInput = true then 2 else 1 := by
  have hone : ∀ k fmt, (textsOf env r m data k fmt).length =
      if m.config.cmd ≠ [] ∧ m.config.cmdLogInput = true then 2 else 1 := by
    intro k fmt
    unfold textsOf
    by_cases hcmd : m.config.cmd = []
    · rw [if_pos hcmd, if_neg fun h => h.1 hcmd]
      rfl
    · by_cases hinput : m.config.cmdLogInput = true
      · rw [if_neg hcmd, if_pos hinput, if_pos ⟨hcmd, hinput⟩]
        rfl
      · rw [if_neg hcmd, if_neg hinput, if_neg fun h => hinput h.2]
        rfl
  induction fmts with
  | nil => simp [textsFrom]
  | cons fmt fmts ih =>
    intro k
    rw [textsFrom, List.length_append, hone, ih, List.length_cons, Nat.succ_mul, Nat.add_comm]

/-- **No line has a line break**, whatever the payload and the output of the command. -/
theorem newline_itemLines (hpath : newline ∉ r.getPath) (item : RequestQueueItem) :
    ∀ line ∈ itemLines env r m item, newline ∉ line := by
  intro line hline
  obtain ⟨text, htext, rfl⟩ := List.mem_map.mp hline
  have hmethod : newline ∉ methStringify m.getMethodType := by
    cases m.getMethodType <;> decide
  have hbar : newline ∉ str " | " := by decide
  have hcolon : newline ∉ str ":" := by decide
  have hspace : newline ∉ str ": " := by decide
  simp only [linePrefix, List.mem_append, not_or]
  exact ⟨⟨⟨⟨⟨⟨newline_timestamp _ _, hbar⟩, hpath⟩, hcolon⟩, hmethod⟩, hspace⟩,
    newline_textsFrom _ _ _ _ htext⟩

end Lines

/-! ### The formatters -/

section Formatters
variable {env : ProcEnv} (henv : env.Launches) (room : Option ℕ) (i : ℕ) (r : Resource)
  (m : ResourceMethod)
include henv

/-- The stream after the command. -/
theorem executeCmd_output (k : ℕ) (data : Str) (w : CoAPServer κ) : ∃ code err,
    (executeCmd r m env k data).run w =
      .ok (code, cmdOutput env r m k data) { w with stderr := err } := by
  unfold cmdOutput
  cases hshell : env.shell k m.config.cmd data r.getPath (methStringify m.getMethodType)
      (if m.config.cmdStdin then data else []) with
  | threw => exact absurd hshell (henv _ _ _ _ _ _)
  | timedOut =>
    refine ⟨-1, w.stderr ++ [notExited m.config.cmd m.config.cmdTimeout], ?_⟩
    simp only [executeCmd, hshell, EStateM.run_bind, writeErr_run, EStateM.run_pure]
  | exited code out =>
    refine ⟨code, w.stderr, ?_⟩
    simp only [executeCmd, hshell, EStateM.run_pure]

theorem formatItem_texts (data : Str) (fmt : Format) (k : ℕ) (w : CoAPServer κ) : ∃ err,
    (formatItem (serverOpsUpTo room i r m env) m data fmt k).run w =
      .ok (textsOf env r m data k fmt) { w with stderr := err } := by
  unfold textsOf
  by_cases hcmd : m.config.cmd = []
  · refine ⟨w.stderr, ?_⟩
    simp only [formatItem, hcmd, ne_eq, not_true_eq_false, if_false, if_true, EStateM.run_pure]
  · obtain ⟨code, err, hrun⟩ := executeCmd_output henv r m k (fmt.decode data) w
    refine ⟨err, ?_⟩
    simp only [formatItem, serverOpsUpTo, serverOps, hcmd, ne_eq, not_false_eq_true, if_true, if_false,
      EStateM.run_bind, hrun, EStateM.run_pure]

/-- The loop over the formatters, where it does not store. -/
theorem formatLoop_texts (data : Str) (fmts : List Format) : ∀ (k : ℕ) (sss : List Str)
    (w : CoAPServer κ), (m.getMethodType = .get → m.config.store = true → 0 < k) → ∃ err,
      (formatLoop (serverOpsUpTo room i r m env) m data fmts k sss).run w =
        .ok (sss ++ textsFrom env r m data k fmts) { w with stderr := err } := by
  induction fmts with
  | nil =>
    intro k sss w _
    refine ⟨w.stderr, ?_⟩
    simp only [formatLoop, textsFrom, List.append_nil, EStateM.run_pure]
  | cons fmt fmts ih =>
    intro k sss w hk
    have hnot : ¬ (m.getMethodType = .get ∧ m.config.store = true ∧ k = 0) := by
      rintro ⟨hget, hstore, rfl⟩
      exact absurd (hk hget hstore) (Nat.lt_irrefl 0)
    obtain ⟨err₁, hrun₁⟩ := formatItem_texts henv room i r m data fmt k w
    obtain ⟨err, hrun⟩ := ih (k + 1) (sss ++ textsOf env r m data k fmt)
      { w with stderr := err₁ } fun _ _ => Nat.succ_pos k
    refine ⟨err, ?_⟩
    simp only [formatLoop, storeFirst, if_neg hnot, EStateM.run_bind, EStateM.run_pure, hrun₁, hrun,
      textsFrom, List.append_assoc]

end Formatters

/-! ### Storing -/

section Store
variable {w : CoAPServer κ} {i : ℕ} {r : Resource} (hr : w.resources[i]? = some r)
  (room : Option ℕ)
include hr

/-- A value that is set where the data file can be written or exists. -/
theorem setValueUpToAt_saves (hsave : r.dataFilePath ≠ [] →
    w.fs.writable r.dataFilePath = true ∨ w.fs.files r.dataFilePath ≠ none) (value : Str) : ∃ w',
      (setValueUpToAt room i value).run w = .ok ⟨⟩ w' ∧ w'.fs = saved room r value w.fs := by
  have hset : ∃ r', (r.setValueUpTo room value).run w.fs = .ok r' (saved room r value w.fs) := by
    unfold saved
    by_cases hpath : r.dataFilePath = []
    · rw [if_neg fun h => h.1 hpath]
      exact ⟨_, setValueUpTo_noFile hpath room value⟩
    · cases hw : w.fs.writable r.dataFilePath with
      | true =>
        rw [if_pos ⟨hpath, rfl⟩]
        exact ⟨_, setValueUpTo_run hpath hw room value⟩
      | false =>
        have hsome : w.fs.files r.dataFilePath ≠ none :=
          (hsave hpath).resolve_left (by rw [hw]; exact Bool.false_ne_true)
        obtain ⟨f, hf⟩ := Option.ne_none_iff_exists'.mp hsome
        rw [if_neg fun h => Bool.false_ne_true h.2]
        exact ⟨_, setValueUpTo_denied hpath hw hf room value⟩
  obtain ⟨r', hrun⟩ := hset
  refine ⟨{ w with fs := saved room r value w.fs, resources := w.resources.set i r' }, ?_, rfl⟩
  simp only [setValueUpToAt, EStateM.run_bind, getResource_run hr, onFiles_ok hrun, EStateM.run_modify]

/-- A value that cannot be saved. -/
theorem setValueUpToAt_throws (hpath : r.dataFilePath ≠ [])
    (hw : w.fs.writable r.dataFilePath = false) (hfile : w.fs.files r.dataFilePath = none)
    (value : Str) :
    (setValueUpToAt room i value).run w = .error (.filesystemError r.dataFilePath) w := by
  simp only [setValueUpToAt, EStateM.run_bind, getResource_run hr,
    onFiles_error (setValueUpTo_throws hpath hw hfile room value)]

end Store

section Process
variable {env : ProcEnv} (henv : env.Launches) {w : CoAPServer κ} {i : ℕ} {r : Resource}
  (hr : w.resources[i]? = some r) (room : Option ℕ) {m : ResourceMethod}
include henv hr

omit hr in
/-- A `GET` with a formatter, from the storing of the first value on. -/
theorem get_run (hget : m.getMethodType = .get) {fmt : Format} {fmts : List Format}
    (hfmts : m.fmts = fmt :: fmts) (data : Str) : ∃ err,
      (processItem (serverOpsUpTo room i r m env) m data).run w =
        (storeFirst (serverOpsUpTo room i r m env) m 0 (textsOf env r m data 0 fmt) >>= fun _ =>
          formatLoop (serverOpsUpTo room i r m env) m data fmts 1 (textsOf env r m data 0 fmt)).run
            { w with stderr := err } := by
  obtain ⟨err, hrun⟩ := formatItem_texts henv room i r m data fmt 0 w
  refine ⟨err, ?_⟩
  simp only [processItem_get _ m hget, hfmts, formatLoop, EStateM.run_bind, hrun, List.nil_append]

/-- **The texts are there, and the value is stored.** -/
theorem processItem_saves (htype : Queueable m.getMethodType) (hsave : Saves r m w.fs)
    (data : Str) : ∃ w', (processItem (serverOpsUpTo room i r m env) m data).run w =
        .ok (textsFrom env r m data 0 m.fmts) w' ∧
      (Sets m → w'.fs = saved room r (storedValue env r m data) w.fs) ∧
      (¬ Sets m → w'.fs = w.fs) := by
  by_cases hget : m.getMethodType = .get
  · cases hfmts : m.fmts with
    | nil =>
      refine ⟨w, ?_, fun hsets => absurd hfmts (hsets.2 hget), fun _ => rfl⟩
      simp only [processItem_get _ m hget, hfmts, formatLoop, textsFrom, EStateM.run_pure]
    | cons fmt fmts =>
      obtain ⟨err, hrun⟩ := get_run (w := w) (i := i) (r := r) henv room hget hfmts data
      have hvalue : (textsOf env r m data 0 fmt).getLast?.getD [] = storedValue env r m data := by
        rw [storedValue, if_pos hget, hfmts]
        rfl
      obtain ⟨w₁, hstore, h₁⟩ : ∃ w₁,
          (storeFirst (serverOpsUpTo room i r m env) m 0 (textsOf env r m data 0 fmt)).run
            { w with stderr := err } = .ok ⟨⟩ w₁ ∧
          (Sets m → w₁.fs = saved room r (storedValue env r m data) w.fs) ∧
          (¬ Sets m → w₁.fs = w.fs) := by
        unfold storeFirst
        by_cases hstore : m.config.store = true
        · have hsets : Sets m := ⟨hstore, fun _ => by simp [hfmts]⟩
          obtain ⟨w₁, hset, hfs⟩ :=
            setValueUpToAt_saves (w := { w with stderr := err }) hr room (hsave hsets)
              (storedValue env r m data)
          rw [if_pos ⟨hget, hstore, rfl⟩, hvalue]
          exact ⟨w₁, hset, fun _ => hfs, fun h => absurd hsets h⟩
        · rw [if_neg fun h => hstore h.2.1]
          exact ⟨_, rfl, fun hsets => absurd hsets.1 hstore, fun _ => rfl⟩
      obtain ⟨err', hloop⟩ := formatLoop_texts henv room i r m data fmts 1
        (textsOf env r m data 0 fmt) w₁ fun _ _ => Nat.one_pos
      refine ⟨{ w₁ with stderr := err' }, ?_, h₁⟩
      rw [hrun, EStateM.run_bind, hstore]
      exact hloop
  · have hvalue : storedValue env r m data = data := if_neg hget
    obtain ⟨err, hloop⟩ := formatLoop_texts henv room i r m data m.fmts 0 [] w fun h => absurd h hget
    rw [processItem_body _ _ (htype.resolve_left hget), EStateM.run_bind, hloop]
    show ∃ w', (storeData (serverOpsUpTo room i r m env) m data >>= fun _ => pure _).run _ = _ ∧ _
    by_cases hstore : m.config.store = true
    · have hsets : Sets m := ⟨hstore, fun h => absurd h hget⟩
      obtain ⟨w₁, hset, hfs⟩ :=
        setValueUpToAt_saves (w := { w with stderr := err }) hr room (hsave hsets) data
      have hset : ((serverOpsUpTo room i r m env).setValue data).run { w with stderr := err } =
          .ok ⟨⟩ w₁ := hset
      refine ⟨w₁, ?_, fun _ => by rw [hvalue, hfs], fun h => absurd hsets h⟩
      rw [storeData, if_pos hstore, EStateM.run_bind, hset]
      rfl
    · refine ⟨{ w with stderr := err }, ?_, fun h => absurd h.1 hstore, fun _ => rfl⟩
      rw [storeData, if_neg hstore]
      rfl

/-- **Storing throws**: nothing is written. -/
theorem processItem_throws (htype : Queueable m.getMethodType) (hsave : ¬ Saves r m w.fs)
    (data : Str) : ∃ w', (processItem (serverOpsUpTo room i r m env) m data).run w =
      .error (.filesystemError r.dataFilePath) w' := by
  unfold Saves at hsave
  push Not at hsave
  obtain ⟨⟨hstore, hfmts⟩, hpath, hw, hfile⟩ := hsave
  have hw : w.fs.writable r.dataFilePath = false := by simpa using hw
  by_cases hget : m.getMethodType = .get
  · obtain ⟨fmt, fmts, hfmt⟩ := List.exists_cons_of_ne_nil (hfmts hget)
    obtain ⟨err, hrun⟩ := get_run (w := w) (i := i) (r := r) henv room hget hfmt data
    refine ⟨{ w with stderr := err }, ?_⟩
    have hset : ∀ value, ((serverOpsUpTo room i r m env).setValue value).run { w with stderr := err } =
        .error (.filesystemError r.dataFilePath) { w with stderr := err } :=
      setValueUpToAt_throws (w := { w with stderr := err }) hr room hpath hw hfile
    rw [hrun, storeFirst, if_pos ⟨hget, hstore, rfl⟩, EStateM.run_bind, hset]
  · obtain ⟨err, hloop⟩ := formatLoop_texts henv room i r m data m.fmts 0 [] w fun h => absurd h hget
    refine ⟨{ w with stderr := err }, ?_⟩
    have hset : ((serverOpsUpTo room i r m env).setValue data).run { w with stderr := err } =
        .error (.filesystemError r.dataFilePath) { w with stderr := err } :=
      setValueUpToAt_throws (w := { w with stderr := err }) hr room hpath hw hfile data
    rw [processItem_body _ _ (htype.resolve_left hget), EStateM.run_bind, hloop]
    dsimp only
    rw [storeData, if_pos hstore, EStateM.run_bind, hset]

end Process

end CoapServer.Server.LogLines
