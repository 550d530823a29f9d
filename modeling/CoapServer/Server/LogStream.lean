import CoapServer.Lib.Streams
import CoapServer.Server.LogLines

/-! # The streams of the lines

A resource opens its log file once, when it is constructed. From then on its lines go to that file,
wherever it is: somebody may have moved or removed it, and it may be the data file of the resource.
Neither this stream nor the standard output is asked if a write has failed. Here an item is processed
over these streams. As long as they and the data file take everything, and the log file is where it was
opened, the rest of the server cannot tell the difference (`streams_refine`).

The lines are appended exactly where storing the value neither throws nor overwrites the log, and no
write fails (`lines_iff_delivers`). -/

namespace CoapServer.Server.LogStream

open CoapServer.Basic CoapServer.Config CoapServer.Lib.Erasure CoapServer.Lib.Streams
open CoapServer.Resources.Files CoapServer.Resources.Formatter CoapServer.Resources.Object
open CoapServer.Server.World CoapServer.Server.Requests CoapServer.Server.Process
open CoapServer.Server.LogLines

variable {κ : Type}

/-! ### An item over the streams -/

/-- Where the file of the log stream is: at a path, or unlinked, with its content. -/
inductive Place where
  | path (p : Str)
  | unlinked (content : Str)
  deriving DecidableEq

/-- **The streams**: `logFile` of the resource, and the standard output. -/
structure Streams where
  logFile : Stream Byte
  place : Place
  cout : Stream Byte

/-- What is in the log file. -/
def Streams.content (st : Streams) (fs : FileSystem) : Str :=
  match st.place with
  | .path p => contentAt fs p
  | .unlinked content => content

/-- The devices of the streams, and how many bytes of a value the data file has room for. -/
structure Devices where
  logFile : Device
  cout : Device
  dataFile : Option ℕ

/-- A call over the streams and the server. -/
abbrev StreamM (κ : Type) := EStateM Failure (Streams × CoAPServer κ)

/-- The device of the log file takes bytes. -/
def appendBytes (bytes : Str) : StreamM κ Unit := do
  if bytes ≠ [] then
    match (← get).1.place with
    | .path p => beside (onFiles (appendFile p bytes))
    | .unlinked content => onGhost fun st => { st with place := .unlinked (content ++ bytes) }

/-- `Resource::writeLog`: nothing is written to a stream that is not open. -/
def writeLog (devices : Devices) (r : Resource) (line : Str) : StreamM κ Unit := do
  if r.logFile ≠ none then
    let piece := line ++ [newline]
    let bytes := (← get).1.logFile.taken devices.logFile piece
    onGhost fun st => { st with logFile := st.logFile.write devices.logFile piece }
    appendBytes bytes

/-- `std::cout << line << std::endl`. -/
def writeOut (devices : Devices) (line : Str) : StreamM κ Unit := do
  onGhost fun st => { st with cout := st.cout.write devices.cout (line ++ [newline]) }
  beside (World.writeOut line)

/-- The calls for the method `m` of the resource `r` at `i`. -/
def streamOps (devices : Devices) (i : ℕ) (r : Resource) (m : ResourceMethod) (env : ProcEnv) :
    ItemOps (StreamM κ) :=
  { executeCmd := fun k data => beside (executeCmd r m env k data)
    setValue := fun value => beside (setValueUpToAt devices.dataFile i value)
    writeOut := writeOut devices
    writeLog := writeLog devices r }

/-- `ResourceMethod::handleRequestQueueItem`. -/
def handleRequestQueueItem (devices : Devices) (item : RequestQueueItem) (env : ProcEnv) :
    StreamM κ ℤ := do
  let r ← beside (getResource item.src.resource)
  match r.methods[item.src.method]? with
  | none => throw (.outOfBounds item.src.method)
  | some m =>
    handleItem (streamOps devices item.src.resource r m env) m (env.timestamp item.time) r.getPath
      item.data

/-! ### What the lines are -/

/-- Every line with its end. -/
def ended (lines : List Str) : List Str := lines.map (· ++ [newline])

/-- How many lines an item of the method has. -/
def lineCount (m : ResourceMethod) : ℕ :=
  m.fmts.length * if m.config.cmd ≠ [] ∧ m.config.cmdLogInput = true then 2 else 1

/-- **The lines are written**: to the log, which is what it was before and then the lines, and to the
standard output if the method prints; one for each formatter, or two where the input of the command is
logged; and none of them has a line break. -/
structure Written (env : ProcEnv) (r : Resource) (m : ResourceMethod) (item : RequestQueueItem)
    (s s' : Streams × CoAPServer κ) : Prop where
  written : s'.1.logFile.written =
    s.1.logFile.written ++ (ended (itemLines env r m item)).flatten
  content : s'.1.content s'.2.fs = s.1.content s.2.fs ++ (ended (itemLines env r m item)).flatten
  cout : s'.1.cout.written = s.1.cout.written ++
    if m.config.printValue then (ended (itemLines env r m item)).flatten else []
  count : (itemLines env r m item).length = lineCount m
  single : ∀ line ∈ itemLines env r m item, newline ∉ line

/-- `handleRequestQueueItem` returns, and the lines are written. -/
def WritesLines (devices : Devices) (env : ProcEnv) (r : Resource) (m : ResourceMethod)
    (item : RequestQueueItem) (s : Streams × CoAPServer κ) : Prop :=
  ∃ s', (handleRequestQueueItem devices item env).run s = .ok 0 s' ∧ Written env r m item s s'

/-- **Nothing is lost**: storing does not throw; where the log is the data file that is written, it has
what is stored already; and the streams take as many pieces as there are lines. -/
structure Delivers (devices : Devices) (env : ProcEnv) (r : Resource) (m : ResourceMethod)
    (item : RequestQueueItem) (s : Streams × CoAPServer κ) : Prop where
  saves : Saves r m s.2.fs
  apart : Sets m → r.dataFilePath ≠ [] → s.2.fs.writable r.dataFilePath = true →
    s.1.place = .path r.dataFilePath →
      contentAt s.2.fs r.dataFilePath = upTo devices.dataFile (storedValue env r m item.data)
  logFile : s.1.logFile.Takes devices.logFile (lineCount m)
  cout : m.config.printValue = true → s.1.cout.Takes devices.cout (lineCount m)

/-! ### The work before the lines -/

section Beside
variable {ε τ γ : Type} {ops : ItemOps (EStateM ε (γ × τ))} {ops' : ItemOps (EStateM ε τ)}
  (hcmd : ∀ k data, ops.executeCmd k data = beside (ops'.executeCmd k data))
  (hset : ∀ value, ops.setValue value = beside (ops'.setValue value)) (m : ResourceMethod)
include hcmd hset

theorem formatLoop_beside (data : Str) (fmts : List Format) : ∀ (k : ℕ) (sss : List Str),
    formatLoop ops m data fmts k sss = beside (formatLoop ops' m data fmts k sss) := by
  induction fmts with
  | nil => exact fun k sss => rfl
  | cons fmt fmts ih =>
    intro k sss
    have hfmt : formatItem ops m data fmt k = beside (formatItem ops' m data fmt k) := by
      rw [formatItem, formatItem, beside_ite, beside_bind, hcmd]
      rfl
    have hstore : ∀ streams, storeFirst ops m k streams = beside (storeFirst ops' m k streams) := by
      intro streams
      rw [storeFirst, storeFirst, beside_ite, hset]
      rfl
    simp only [formatLoop, beside_bind, hfmt, hstore, ih]

/-- **The work before the lines leaves the streams.** -/
theorem processItem_beside (data : Str) :
    processItem ops m data = beside (processItem ops' m data) := by
  have hstore : storeData ops m data = beside (storeData ops' m data) := by
    rw [storeData, storeData, beside_ite, hset]
    rfl
  unfold processItem
  cases m.getMethodType with
  | get => exact formatLoop_beside hcmd hset m data m.fmts 0 []
  | put | post => simp only [formatLoop_beside hcmd hset, hstore, beside_bind]; rfl
  | _ => rfl

end Beside

theorem processItem_streams (devices : Devices) (i : ℕ) (r : Resource) (m : ResourceMethod)
    (env : ProcEnv) (data : Str) :
    processItem (streamOps devices i r m env : ItemOps (StreamM κ)) m data =
      beside (processItem (serverOpsUpTo devices.dataFile i r m env) m data) :=
  processItem_beside (fun _ _ => rfl) (fun _ => rfl) m data

/-! ### The lines over the streams -/

section Write
variable (devices : Devices) {i : ℕ} {r : Resource} {m : ResourceMethod} {env : ProcEnv}

/-- Bytes go to the end of the file. -/
theorem appendBytes_run (bytes : Str) (st : Streams) (w : CoAPServer κ) : ∃ place fs,
    (appendBytes bytes).run (st, w) = .ok ⟨⟩ ({ st with place }, { w with fs }) ∧
      { st with place }.content fs = st.content w.fs ++ bytes := by
  by_cases hbytes : bytes = []
  · refine ⟨st.place, w.fs, ?_, by rw [hbytes, List.append_nil]⟩
    rw [appendBytes, if_neg (not_not.mpr hbytes)]
    rfl
  cases hplace : st.place with
  | unlinked content =>
    refine ⟨.unlinked (content ++ bytes), w.fs, ?_, ?_⟩
    · simp only [appendBytes, if_pos hbytes, EStateM.run_bind, EStateM.run_get, hplace]
      rfl
    · simp only [Streams.content, hplace]
  | path p =>
    obtain ⟨fs, hrun, hfs⟩ : ∃ fs, (appendFile p bytes).run w.fs = .ok ⟨⟩ fs ∧
        contentAt fs p = contentAt w.fs p ++ bytes := by
      cases hfile : w.fs.files p with
      | some f =>
        refine ⟨w.fs.put p (f.content ++ bytes), ?_, ?_⟩
        · simp only [appendFile, EStateM.run_bind, EStateM.run_get, hfile, EStateM.run_modify]
        · rw [contentAt, contentAt, put_files_self, hfile]
      | none =>
        refine ⟨w.fs.put p bytes, ?_, ?_⟩
        · simp only [appendFile, EStateM.run_bind, EStateM.run_get, hfile, EStateM.run_modify]
        · rw [contentAt, contentAt, put_files_self, hfile, List.nil_append]
    refine ⟨.path p, fs, ?_, ?_⟩
    · simp only [appendBytes, if_pos hbytes, EStateM.run_bind, EStateM.run_get, hplace]
      rw [beside_run_ok (onFiles_ok hrun) st, ← hplace]
    · simp only [Streams.content, hplace, hfs]

variable (hlog : r.logFile ≠ none)
include hlog

theorem writeLog_run (line : Str) (st : Streams) (w : CoAPServer κ) : ∃ place fs,
    (writeLog devices r line).run (st, w) = .ok ⟨⟩
      ({ st with logFile := st.logFile.write devices.logFile (line ++ [newline]), place },
        { w with fs }) ∧
      { st with place }.content fs =
        st.content w.fs ++ st.logFile.taken devices.logFile (line ++ [newline]) := by
  obtain ⟨place, fs, hrun, hcontent⟩ := appendBytes_run (κ := κ)
    (st.logFile.taken devices.logFile (line ++ [newline]))
    { st with logFile := st.logFile.write devices.logFile (line ++ [newline]) } w
  refine ⟨place, fs, ?_, hcontent⟩
  simp only [writeLog, if_pos hlog, EStateM.run_bind, EStateM.run_get]
  exact hrun

/-- **One line for each text**, handed to the log and, where the method prints, to the standard
output. -/
theorem writeValues_streams (hvalue : m.config.logValue = true) (pre : Str) (sss : List Str) :
    ∀ (st : Streams) (w : CoAPServer κ), ∃ st' w',
      (writeValues (streamOps devices i r m env) m pre sss).run (st, w) = .ok ⟨⟩ (st', w') ∧
      st'.logFile = st.logFile.writeAll devices.logFile (ended (sss.map (pre ++ ·))) ∧
      st'.content w'.fs = st.content w.fs ++
        st.logFile.takenAll devices.logFile (ended (sss.map (pre ++ ·))) ∧
      st'.cout = if m.config.printValue then
        st.cout.writeAll devices.cout (ended (sss.map (pre ++ ·))) else st.cout := by
  induction sss with
  | nil =>
    intro st w
    refine ⟨st, w, rfl, rfl, (List.append_nil _).symm, ?_⟩
    split_ifs <;> rfl
  | cons ss sss ih =>
    intro st w
    obtain ⟨cout, out, hprint, hcout⟩ : ∃ cout out,
        (printLine (streamOps devices i r m env) m (pre ++ ss)).run (st, w) =
          .ok ⟨⟩ ({ st with cout }, { w with stdout := out }) ∧
        cout = if m.config.printValue then
          st.cout.write devices.cout (pre ++ ss ++ [newline]) else st.cout := by
      unfold printLine
      split_ifs
      · refine ⟨st.cout.write devices.cout (pre ++ ss ++ [newline]), w.stdout ++ [pre ++ ss], ?_, rfl⟩
        exact beside_run_ok (World.writeOut_run (pre ++ ss)) _
      · exact ⟨st.cout, w.stdout, rfl, rfl⟩
    obtain ⟨place, fs, hwrite, hcontent⟩ :=
      writeLog_run devices hlog (pre ++ ss) { st with cout } { w with stdout := out }
    obtain ⟨st', w', hrun, hst', hcontent', hcout'⟩ := ih
      { st with
        logFile := st.logFile.write devices.logFile (pre ++ ss ++ [newline]), place, cout }
      { w with stdout := out, fs }
    refine ⟨st', w', ?_, hst', ?_, ?_⟩
    · have hline : logLine (streamOps devices i r m env : ItemOps (StreamM κ)) m (pre ++ ss) =
          writeLog devices r (pre ++ ss) := if_pos hvalue
      simp only [writeValues, EStateM.run_bind, hprint, hline, hwrite, hrun]
    · rw [hcontent']
      have hfirst : Streams.content { st with
          logFile := st.logFile.write devices.logFile (pre ++ ss ++ [newline]), place, cout } fs =
            st.content w.fs ++ st.logFile.taken devices.logFile (pre ++ ss ++ [newline]) := hcontent
      rw [hfirst, List.append_assoc]
      rfl
    · rw [hcout', hcout]
      split_ifs <;> rfl

end Write

/-! ### Streams that take everything -/

/-- **The log stream is as it was opened**: good, and its file is at the path `p`. -/
def AsOpened (p : Str) (st : Streams) : Prop := st.logFile.good = true ∧ st.place = .path p

theorem writeOut_refines {p : Str} (devices : Devices) (line : Str) :
    ErasesOn (AsOpened p) (writeOut devices line) (World.writeOut line : ServerM κ Unit) := by
  intro st w hst
  exact ⟨{ st with cout := st.cout.write devices.cout (line ++ [newline]) }, hst, rfl⟩

section Refines
variable {devices : Devices} (hdevice : ∀ k, devices.logFile k = none) {r : Resource} {p : Str}
  (hp : ∀ log, r.logFile = some log → log = p)
include hdevice hp

theorem writeLog_refines (line : Str) :
    ErasesOn (AsOpened p) (writeLog devices r line) (onFiles (r.writeLog line) : ServerM κ Unit) := by
  rintro st w ⟨hgood, hplace⟩
  cases hlog : r.logFile with
  | none =>
    refine ⟨st, ⟨hgood, hplace⟩, ?_⟩
    rw [writeLog, if_neg (not_not.mpr hlog)]
    simp only [Resource.writeLog, hlog]
    rfl
  | some log =>
    obtain rfl := hp log hlog
    have htaken : st.logFile.taken devices.logFile (line ++ [newline]) = line ++ [newline] :=
      Stream.taken_of_none hgood (hdevice _) _
    have hne : line ++ [newline] ≠ [] := List.append_ne_nil_of_right_ne_nil _ (List.cons_ne_nil _ _)
    have hopen : r.logFile ≠ none := by rw [hlog]; exact Option.some_ne_none log
    have hstill : AsOpened log
        { st with logFile := st.logFile.write devices.logFile (line ++ [newline]) } :=
      ⟨by simp [Stream.write, hgood, hdevice], hplace⟩
    obtain ⟨st', hst', hrun⟩ := ErasesOn.of_beside (I := AsOpened log)
      (onFiles (appendFile log (line ++ [newline])) : ServerM κ Unit) _ w hstill
    refine ⟨st', hst', ?_⟩
    have hpath : (writeLog devices r line).run (st, w) =
        (beside (onFiles (appendFile log (line ++ [newline])))).run
          ({ st with logFile := st.logFile.write devices.logFile (line ++ [newline]) }, w) := by
      simp only [writeLog, if_pos hopen, EStateM.run_bind, EStateM.run_get, htaken, appendBytes,
        if_pos hne, onGhost, EStateM.run_modify, hplace]
    rw [hpath, hrun, Resource.writeLog, hlog]
    rfl

theorem writeValues_refines (i : ℕ) (m : ResourceMethod) (env : ProcEnv) (pre : Str)
    (sss : List Str) : ErasesOn (AsOpened p) (writeValues (streamOps devices i r m env) m pre sss)
      (writeValues (serverOps i r m env) m pre sss : ServerM κ Unit) := by
  induction sss with
  | nil => exact ErasesOn.pure _
  | cons ss sss ih =>
    refine ErasesOn.bind (ErasesOn.ite (writeOut_refines devices _) (ErasesOn.pure _)) fun _ => ?_
    exact ErasesOn.bind (ErasesOn.ite (writeLog_refines hdevice hp _) (ErasesOn.pure _)) fun _ => ih

end Refines

/-- **A log stream that takes everything, with its file where it was opened, is not noticed**: where the
data file has room, the server does with an item what it does without streams. -/
theorem streams_refine {devices : Devices} (hdevice : ∀ k, devices.logFile k = none)
    (hroom : devices.dataFile = none) {st : Streams}
    {p : Str} (hst : AsOpened p st) {w : CoAPServer κ} {item : RequestQueueItem} {r : Resource}
    (hr : w.resources[item.src.resource]? = some r) (hp : ∀ log, r.logFile = some log → log = p)
    (env : ProcEnv) : ∃ st', AsOpened p st' ∧
      (handleRequestQueueItem devices item env).run (st, w) =
        withGhost st' ((Process.handleRequestQueueItem item env).run w) := by
  have hitem : ∀ m, ErasesOn (AsOpened p)
      (handleItem (streamOps devices item.src.resource r m env) m (env.timestamp item.time) r.getPath
        item.data)
      (handleItem (serverOps item.src.resource r m env) m (env.timestamp item.time) r.getPath
        item.data : ServerM κ ℤ) := by
    intro m
    unfold handleItem
    rw [processItem_streams, hroom]
    refine ErasesOn.bind (ErasesOn.of_beside _) fun sss => ?_
    exact ErasesOn.bind (writeValues_refines hdevice hp _ m env _ sss) fun _ => ErasesOn.pure _
  simp only [handleRequestQueueItem, Process.handleRequestQueueItem, EStateM.run_bind,
    beside_run_ok (getResource_run hr), getResource_run hr]
  cases r.methods[item.src.method]? with
  | none => exact ⟨st, hst, rfl⟩
  | some m => exact hitem m st w hst

/-! ### When the lines are written -/

section Main
variable {devices : Devices} {env : ProcEnv} {r₀ r : Resource} {m : ResourceMethod}
  {config : ResourceConfig} {logDir : Str} {fs₀ fs₁ : FileSystem} {s : Streams × CoAPServer κ}
  {w : CoAPServer κ} {item : RequestQueueItem}

theorem length_itemLines (env : ProcEnv) (r : Resource) (m : ResourceMethod)
    (item : RequestQueueItem) : (itemLines env r m item).length = lineCount m := by
  rw [itemLines, List.length_map, length_textsFrom, lineCount]

/-- A stream gets all lines exactly where its next writes succeed. -/
theorem takenAll_lines (env : ProcEnv) (r : Resource) (m : ResourceMethod)
    (item : RequestQueueItem) (stream : Stream Byte) (device : Device) :
    stream.takenAll device (ended (itemLines env r m item)) =
      (ended (itemLines env r m item)).flatten ↔ stream.Takes device (lineCount m) := by
  rw [Stream.takenAll_eq_iff, ended, List.length_map, length_itemLines]
  intro piece hpiece
  obtain ⟨line, -, rfl⟩ := List.mem_map.mp hpiece
  exact List.append_ne_nil_of_right_ne_nil _ (List.cons_ne_nil _ _)

/-- Storing leaves the log, unless it is the data file and gets another content. -/
theorem content_saved (st : Streams) (room : Option ℕ) (value : Str) (fs : FileSystem) :
    st.content (saved room r value fs) = st.content fs ↔
      (r.dataFilePath ≠ [] → fs.writable r.dataFilePath = true → st.place = .path r.dataFilePath →
        contentAt fs r.dataFilePath = upTo room value) := by
  have hput : contentAt (fs.put r.dataFilePath (upTo room value)) r.dataFilePath =
      upTo room value := by
    rw [contentAt, put_files_self]
  unfold saved
  split_ifs with h
  · by_cases hplace : st.place = .path r.dataFilePath
    · have hst : ∀ fs : FileSystem, st.content fs = contentAt fs r.dataFilePath := fun fs => by
        simp only [Streams.content, hplace]
      rw [hst, hst, hput]
      exact ⟨fun heq _ _ _ => heq.symm, fun heq => (heq h.1 h.2 hplace).symm⟩
    · refine ⟨fun _ _ _ hpath => absurd hpath hplace, fun _ => ?_⟩
      cases hst : st.place with
      | unlinked content => simp only [Streams.content, hst]
      | path p =>
        have hp : p ≠ r.dataFilePath := fun hp => hplace (by rw [hst, hp])
        simp only [Streams.content, hst, contentAt, FileSystem.put]
        rw [Function.update_of_ne hp]
  · exact ⟨fun _ hpath hw _ => absurd ⟨hpath, hw⟩ h, fun _ => rfl⟩

theorem handle_streams (hr : w.resources[item.src.resource]? = some r)
    (hm : r.methods[item.src.method]? = some m) (st : Streams) :
    (handleRequestQueueItem devices item env).run (st, w) =
      (handleItem (streamOps devices item.src.resource r m env) m (env.timestamp item.time) r.getPath
        item.data).run (st, w) := by
  simp only [handleRequestQueueItem, EStateM.run_bind, beside_run_ok (getResource_run hr), hm]

/-- **What an item leaves** where storing does not throw: first a value may go to the data file, then
the lines go to the streams. -/
theorem handle_saved (henv : env.Launches) (hopen : r.logFile ≠ none)
    (hr : w.resources[item.src.resource]? = some r) (hm : r.methods[item.src.method]? = some m)
    (htype : Queueable m.getMethodType) (hvalue : m.config.logValue = true)
    (hsave : Saves r m w.fs) (st : Streams) : ∃ fs st' w',
      (handleRequestQueueItem devices item env).run (st, w) = .ok 0 (st', w') ∧
      (st.content fs = st.content w.fs ↔ (Sets m → r.dataFilePath ≠ [] →
        w.fs.writable r.dataFilePath = true → st.place = .path r.dataFilePath →
          contentAt w.fs r.dataFilePath =
            upTo devices.dataFile (storedValue env r m item.data))) ∧
      st'.logFile.written = st.logFile.written ++
        st.logFile.takenAll devices.logFile (ended (itemLines env r m item)) ∧
      st'.content w'.fs = st.content fs ++
        st.logFile.takenAll devices.logFile (ended (itemLines env r m item)) ∧
      st'.cout.written = st.cout.written ++ if m.config.printValue then
        st.cout.takenAll devices.cout (ended (itemLines env r m item)) else [] := by
  obtain ⟨w₁, hrun₁, hsets, hkeeps⟩ :=
    processItem_saves henv hr devices.dataFile htype hsave item.data
  obtain ⟨st', w', hwrite, hlog, hcontent, hcout⟩ := @writeValues_streams κ devices
    item.src.resource r m env hopen hvalue (linePrefix m (env.timestamp item.time) r.getPath)
    (textsFrom env r m item.data 0 m.fmts) st w₁
  have hlines : (textsFrom env r m item.data 0 m.fmts).map
      (linePrefix m (env.timestamp item.time) r.getPath ++ ·) = itemLines env r m item := rfl
  rw [hlines] at hlog hcontent hcout
  refine ⟨w₁.fs, st', w', ?_, ?_, ?_, hcontent, ?_⟩
  · simp only [handle_streams hr hm, handleItem, EStateM.run_bind, processItem_streams,
      beside_run_ok hrun₁, hwrite, EStateM.run_pure]
  · by_cases h : Sets m
    · rw [hsets h, content_saved]
      exact ⟨fun heq _ => heq, fun heq => heq h⟩
    · rw [hkeeps h]
      exact ⟨fun _ hset => absurd hset h, fun _ => rfl⟩
  · rw [hlog, Stream.writeAll_written]
  · rw [hcout]
    split_ifs
    · exact Stream.writeAll_written _ _
    · exact (List.append_nil _).symm

/-- **A log entry for each formatter, exactly where nothing is lost.** Of a queued `GET`, `PUT` or
`POST` on a method that logs, whatever the data and the commands do, the lines are written if and only
if storing the value neither throws nor overwrites the log, and no write of a line fails. -/
theorem lines_iff_delivers (henv : env.Launches)
    (hnew : (create config logDir).run fs₀ = .ok r₀ fs₁) (hsame : SameObject r₀ r)
    (hr : s.2.resources[item.src.resource]? = some r)
    (hm : r.methods[item.src.method]? = some m) (htype : Queueable m.getMethodType)
    (hvalue : m.config.logValue = true) (hpath : newline ∉ r.getPath) :
    WritesLines devices env r m item s ↔ Delivers devices env r m item s := by
  obtain ⟨st, w⟩ := s
  have hmem : m ∈ r₀.methods := hsame.methods ▸ List.mem_of_getElem? hm
  have hopen : r.logFile ≠ none :=
    hsame.logFile ▸ create_logOpen config logDir _ _ _ hnew m hmem hvalue
  have htakes := takenAll_lines env r m item
  unfold WritesLines
  by_cases hsave : Saves r m w.fs
  · obtain ⟨fs, st', w', hrun, hstored, hwritten, hcontent, hcout⟩ :=
      @handle_saved κ devices env r m w item henv hopen hr hm htype hvalue hsave st
    rw [hrun]
    constructor
    · rintro ⟨s', hs', hdone⟩
      obtain ⟨-, rfl⟩ := EStateM.Result.ok.inj hs'
      have htaken := List.append_cancel_left (hwritten.symm.trans hdone.written)
      rw [htaken] at hcontent
      have hkept := List.append_cancel_right (hcontent.symm.trans hdone.content)
      refine ⟨hsave, hstored.mp hkept, (htakes _ _).mp htaken, fun hprint => ?_⟩
      have hout := List.append_cancel_left (hcout.symm.trans hdone.cout)
      rw [if_pos hprint, if_pos hprint] at hout
      exact (htakes _ _).mp hout
    · rintro ⟨-, hapart, htakesLog, htakesOut⟩
      have htaken := (htakes _ _).mpr htakesLog
      refine ⟨(st', w'), rfl, ?_, ?_, ?_, length_itemLines env r m item,
        newline_itemLines hpath item⟩
      · rw [hwritten, htaken]
      · show st'.content w'.fs = _
        rw [hcontent, htaken, hstored.mpr hapart]
      · show st'.cout.written = _
        rw [hcout]
        split_ifs with hprint
        · rw [(htakes _ _).mpr (htakesOut hprint)]
        · rfl
  · obtain ⟨w₁, hthrow⟩ := processItem_throws henv hr devices.dataFile htype hsave item.data
    refine ⟨?_, fun h => absurd h.saves hsave⟩
    rintro ⟨s', hs', -⟩
    simp only [handle_streams hr hm, handleItem, EStateM.run_bind, processItem_streams,
      beside_run_error hthrow] at hs'
    cases hs'

end Main

/-! ### A value that cannot be saved -/

/-- A `PUT` that logs and stores; its resource has a data file. -/
def valueConfig : ResourceConfig :=
  { resourcePath := str "val"
    logFile := str "log"
    dataFile := str "data/val"
    methods := [{ type := .put, format := [str "HEX"], logValue := true, store := true }] }

/-- Its method. -/
def valueMethod : ResourceMethod :=
  ⟨{ type := .put, format := [str "HEX"], logValue := true, store := true }, [.hex]⟩

/-- No file is there yet, and only some can be written. -/
def emptyFs (writable : Str → Bool) : FileSystem :=
  { files := fun _ => none, clock := 0, writable, creatable := fun _ => true, opened := []
    created := [] }

/-- Only the log file can be written. -/
def logOnly (p : Str) : Bool := p = str "log"

/-- The resource, constructed. -/
def valueResource : Resource :=
  { config := valueConfig
    methods := [valueMethod]
    value := []
    logFile := some (str "log")
    dataFilePath := str "data/val"
    dataFileWriteTime := 0 }

/-- A server with that resource, and its log file. -/
def valueServer (writable : Str → Bool) : CoAPServer ℕ :=
  { logDir := []
    dynamicResources := []
    resources := [valueResource]
    registry := fun _ => none
    queue := { maxSize := 2, items := [default, default], start := 0, end_ := 0 }
    cache := Blocks.SessionData.Cache.empty
    fs := (emptyFs writable).put (str "log") []
    stdout := []
    stderr := [] }

/-- The surroundings of an item whose method has no command. -/
def idle : ProcEnv :=
  { localtime := fun _ => Timestamps.epoch, shell := fun _ _ _ _ _ _ => .exited 0 [] }

theorem idle_launches : idle.Launches := by
  rintro _ _ _ _ _ _ ⟨⟩

/-- A write of one byte. -/
def valueItem : RequestQueueItem := ⟨⟨0, 0⟩, [0xab], ⟨0, 0⟩⟩

/-- Devices that take everything. -/
def endless : Devices := ⟨fun _ => none, fun _ => none, none⟩

/-- The streams after the start. -/
def valueStreams : Streams := ⟨⟨true, 0, []⟩, .path (str "log"), ⟨true, 0, []⟩⟩

theorem lines_iff_delivers_val : WritesLines endless idle valueResource valueMethod valueItem
    (valueStreams, valueServer fun _ => true) := by
  obtain ⟨fs₁, hnew⟩ : ∃ fs₁,
      (create valueConfig []).run (emptyFs fun _ => true) = .ok valueResource fs₁ := ⟨_, rfl⟩
  refine (lines_iff_delivers (κ := ℕ) idle_launches hnew ⟨rfl, rfl, rfl, rfl⟩ rfl rfl
    (Or.inr (Or.inl rfl)) rfl (by decide)).mpr ⟨fun _ _ => Or.inl rfl, ?_, ?_, ?_⟩
  · rintro - - - ⟨⟩
  · exact fun _ => ⟨rfl, fun _ _ => rfl⟩
  · rintro ⟨⟩

/-- **A write without a line**: the data file cannot be created, and no line is written, although the
streams take everything. -/
theorem value_not_logged : ¬ ∀ (devices : Devices) (env : ProcEnv) (config : ResourceConfig)
    (logDir : Str) (fs₀ fs₁ : FileSystem) (r₀ r : Resource) (m : ResourceMethod)
    (s : Streams × CoAPServer ℕ) (log : Str) (item : RequestQueueItem), env.Launches →
    (create config logDir).run fs₀ = .ok r₀ fs₁ → SameObject r₀ r →
    s.2.resources[item.src.resource]? = some r → r.methods[item.src.method]? = some m →
    Queueable m.getMethodType → m.config.logValue = true → newline ∉ r.getPath →
    (∀ k, devices.logFile k = none ∧ devices.cout k = none) →
    s.1.logFile.good = true → s.1.cout.good = true → r.logFile = some log →
    s.1.place = .path log → log ≠ r.dataFilePath → WritesLines devices env r m item s := by
  intro h
  obtain ⟨fs₁, hnew⟩ : ∃ fs₁, (create valueConfig []).run (emptyFs logOnly) =
      .ok valueResource fs₁ := ⟨_, rfl⟩
  obtain ⟨s', hrun, -⟩ := h endless idle valueConfig [] _ fs₁ valueResource valueResource valueMethod
    (valueStreams, valueServer logOnly) (str "log") valueItem idle_launches hnew
    ⟨rfl, rfl, rfl, rfl⟩ rfl rfl (Or.inr (Or.inl rfl)) rfl (by decide) (fun _ => ⟨rfl, rfl⟩) rfl rfl
    rfl rfl (by decide)
  have hthrow : (handleRequestQueueItem endless valueItem idle).run
      (valueStreams, valueServer logOnly) =
        .error (.filesystemError (str "data/val")) (valueStreams, valueServer logOnly) := rfl
  rw [hthrow] at hrun
  cases hrun

end CoapServer.Server.LogStream
