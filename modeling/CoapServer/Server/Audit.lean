import CoapServer.Lib.Fields
import CoapServer.Resources.Lossless
import CoapServer.Server.Ledger

/-! # A log can be read back

A line of a log has the time, the path and the method of a request before its value. Where the methods
that log to a file have one formatter each, which is `HEX` or `BASE64`, and no command, the reader
`readLog` takes the file apart into its entries again, with the bytes of the payloads: after every run
they are those of the items processed, behind the entries that were there (`log_reads_back`). A path
with a line break would forge an entry, so there must be none. -/

namespace CoapServer.Server.Audit

open CoapServer.Basic CoapServer.Config CoapServer.Lib.BaseEncoding CoapServer.Lib.Fallible
open CoapServer.Lib.Fields
open CoapServer.Lib.Trace CoapServer.Resources.Files CoapServer.Resources.Formatter
open CoapServer.Resources.Object CoapServer.Resources.Lossless
open CoapServer.Blocks.SessionData CoapServer.Queue.Sequential
open CoapServer.Server.World CoapServer.Server.Process CoapServer.Server.Dynamic
open CoapServer.Server.Creation CoapServer.Server.Machine CoapServer.Server.Acknowledgement
open CoapServer.Server.Dispatch CoapServer.Server.LogLines CoapServer.Server.Effects
open CoapServer.Server.Ledger CoapServer.Server.Timestamps

variable {κ : Type} [DecidableEq κ]

/-! ### Entries -/

/-- **What an entry of a log says.** -/
structure Entry where
  timestamp : Str
  path : Str
  method : Str
  data : Str
  deriving DecidableEq

/-- `' '`. -/
def blank : Byte := 0x20

/-- `':'`. -/
def colon : Byte := 0x3a

/-- The line of an entry. -/
def writeEntry (A : Alphabet Byte) (e : Entry) : Str :=
  e.timestamp ++ str " | " ++ e.path ++ str ":" ++ e.method ++ str ": " ++ A.encode e.data

/-- **The entry of a line**: the value has no blanks, the method no colons, and the time no blanks. -/
def readEntry (A : Alphabet Byte) (line : Str) : Option Entry := do
  let (head, value) ← splitLast blank line
  let data ← A.decode value
  let (head, rest) ← splitLast colon head
  let (head, method) ← splitLast colon head
  let (timestamp, path) ← splitFirst blank head
  if rest = [] ∧ path.take 2 = str "| " then
    return { timestamp, path := path.drop 2, method, data }
  else none

/-- **The entries of a log.** -/
def readLog (A : Alphabet Byte) (text : Str) : Option (List Entry) :=
  (lines newline text).mapM (readEntry A)

/-- The entry can be told apart. -/
structure Clean (e : Entry) : Prop where
  timestamp : blank ∉ e.timestamp ∧ newline ∉ e.timestamp
  path : newline ∉ e.path
  method : colon ∉ e.method ∧ newline ∉ e.method

/-- An alphabet without blanks and line breaks. -/
structure Solid (A : Alphabet Byte) : Prop where
  blank : blank ∉ A.pad :: A.chars
  newline : newline ∉ A.pad :: A.chars

/-- The base encoding that a formatter writes, if any. -/
def alphabetOf : Format → Option (Alphabet Byte)
  | .text => none
  | .hex => some base16
  | .base64 => some base64

section Alphabet
variable {A : Alphabet Byte}

theorem solid_of_alphabetOf {fmt : Format} (h : alphabetOf fmt = some A) : Solid A := by
  cases fmt with
  | text => cases h
  | hex =>
    obtain rfl := Option.some.inj h
    exact ⟨by decide, by decide⟩
  | base64 =>
    obtain rfl := Option.some.inj h
    exact ⟨by decide, by decide⟩

theorem decode_of_alphabetOf {fmt : Format} (h : alphabetOf fmt = some A) (data : Str) :
    fmt.decode data = A.encode data := by
  cases fmt with
  | text => cases h
  | hex =>
    obtain rfl := Option.some.inj h
    exact decodeHex_eq data
  | base64 =>
    obtain rfl := Option.some.inj h
    exact decodeBase64_eq data

/-! ### One entry -/

variable {e : Entry}

/-- The separators of a line. -/
theorem writeEntry_eq (A : Alphabet Byte) (e : Entry) : writeEntry A e =
    ((e.timestamp ++ blank :: (str "| " ++ e.path)) ++ colon :: e.method ++ colon :: []) ++
      blank :: A.encode e.data := by
  have hbar : str " | " = blank :: str "| " := rfl
  have hcolon : str ":" = [colon] := rfl
  have hend : str ": " = [colon, blank] := rfl
  simp only [writeEntry, hbar, hcolon, hend, List.append_assoc, List.cons_append, List.nil_append]

/-- **An entry is read back.** -/
theorem readEntry_write (hA : Solid A) (he : Clean e) :
    readEntry A (writeEntry A e) = some e := by
  have hvalue : blank ∉ A.encode e.data := fun h => hA.blank (encode_mem A _ _ h)
  have hdecode : A.decode (A.encode e.data) = some e.data := (decode_eq_some_iff A).mpr rfl
  have htake : (str "| " ++ e.path).take 2 = str "| " := rfl
  have hdrop : (str "| " ++ e.path).drop 2 = e.path := rfl
  simp only [readEntry, writeEntry_eq, splitLast_append _ hvalue, hdecode,
    splitLast_append _ List.not_mem_nil, splitLast_append _ he.method.1,
    splitFirst_append he.timestamp.1, htake, hdrop, Option.bind_eq_bind, Option.bind_some,
    and_self, if_true]
  rfl

/-- An entry is one line. -/
theorem newline_writeEntry (hA : Solid A) (he : Clean e) : newline ∉ writeEntry A e := by
  have hvalue : newline ∉ A.encode e.data := fun h => hA.newline (encode_mem A _ _ h)
  have hbar : newline ∉ str " | " := by decide
  have hcolon : newline ∉ str ":" := by decide
  have hend : newline ∉ str ": " := by decide
  simp only [writeEntry, List.mem_append, not_or]
  exact ⟨⟨⟨⟨⟨⟨he.timestamp.2, hbar⟩, he.path⟩, hcolon⟩, he.method.2⟩, hend⟩, hvalue⟩

/-- **Entries are read back** behind a text of whole lines. -/
theorem readLog_append (hA : Solid A) {text : Str} {before after : List Entry}
    (htext : Terminated newline text) (hbefore : readLog A text = some before)
    (hafter : ∀ e ∈ after, Clean e) :
    Terminated newline (text ++ terminate newline (after.map (writeEntry A))) ∧
    readLog A (text ++ terminate newline (after.map (writeEntry A))) = some (before ++ after) := by
  have hlines : ∀ l ∈ after.map (writeEntry A), newline ∉ l := by
    intro l hl
    obtain ⟨e, he, rfl⟩ := List.mem_map.mp hl
    exact newline_writeEntry hA (hafter e he)
  have hread : (after.map (writeEntry A)).mapM (readEntry A) = some after := by
    rw [mapM_map_eq_some fun e he => readEntry_write hA (hafter e he), List.map_id']
  refine ⟨htext.append ⟨_, hlines, rfl⟩, ?_⟩
  rw [readLog, htext.lines_append, lines_terminate hlines, List.mapM_append]
  rw [readLog] at hbefore
  rw [hbefore, hread]
  rfl

end Alphabet

/-! ### The entries of a run -/

/-- The entry that a processed item leaves in the log at `p`, if any. -/
def entryOf (w : CoAPServer κ) (p : Str) (job : ProcEnv × RequestQueueItem) : List Entry :=
  match sourceAt w job.2.src with
  | some (r, m) =>
    if m.config.logValue = true ∧ r.logFile = some p then
      [{ timestamp := job.1.timestamp job.2.time, path := r.getPath
         method := methStringify m.getMethodType, data := job.2.data }]
    else []
  | none => []

/-- **What the resource logs can be read**: its path has no line break, and a method that logs has the
one formatter `fmt` and no command. -/
structure Readable (fmt : Format) (r : Resource) : Prop where
  path : newline ∉ r.getPath
  methods : ∀ m ∈ r.methods, m.config.logValue = true → m.fmts = [fmt] ∧ m.config.cmd = []

theorem timestamp_clean (env : ProcEnv) (t : Time) :
    blank ∉ env.timestamp t ∧ newline ∉ env.timestamp t :=
  ⟨notMem_timebuf (by decide) (by decide) _ _, newline_timestamp env t⟩

theorem methStringify_clean (type : ResourceMethodType) :
    colon ∉ methStringify type ∧ newline ∉ methStringify type := by
  cases type <;> decide

section Entries
variable {w : CoAPServer κ} {p : Str} {fmt : Format} {A : Alphabet Byte}
  {job : ProcEnv × RequestQueueItem}

omit [DecidableEq κ]

theorem entryOf_clean (hread : ∀ r ∈ w.resources, r.logFile = some p → Readable fmt r) :
    ∀ e ∈ entryOf w p job, Clean e := by
  intro e he
  unfold entryOf at he
  cases hsrc : sourceAt w job.2.src with
  | none =>
    rw [hsrc] at he
    cases he
  | some src =>
    obtain ⟨r, m⟩ := src
    simp only [hsrc] at he
    split_ifs at he with hlog
    · obtain ⟨hr, -⟩ := sourceAt_eq_some.mp hsrc
      obtain rfl := List.mem_singleton.mp he
      exact ⟨timestamp_clean _ _, (hread r (List.mem_of_getElem? hr) hlog.2).path,
        methStringify_clean _⟩
    · cases he

/-- **A processed item leaves the line of its entry.** -/
theorem loggedOf_eq (hfmt : alphabetOf fmt = some A)
    (hread : ∀ r ∈ w.resources, r.logFile = some p → Readable fmt r)
    (job : ProcEnv × RequestQueueItem) :
    loggedOf w p job = terminate newline ((entryOf w p job).map (writeEntry A)) := by
  unfold loggedOf entryOf
  cases hsrc : sourceAt w job.2.src with
  | none => rfl
  | some src =>
    obtain ⟨r, m⟩ := src
    obtain ⟨hr, hm⟩ := sourceAt_eq_some.mp hsrc
    simp only [logged]
    split_ifs with hlog
    · obtain ⟨hone, hcmd⟩ := (hread r (List.mem_of_getElem? hr) hlog.2).methods m
        (List.mem_of_getElem? hm) hlog.1
      have htext : textsFrom job.1 r m job.2.data 0 m.fmts = [A.encode job.2.data] := by
        rw [hone, textsFrom, textsFrom, textsOf, if_pos hcmd, List.append_nil,
          decode_of_alphabetOf hfmt]
      rw [itemLines, htext]
      rfl
    · rfl

/-- **The lines of processed items are read back** behind a text of whole lines. -/
theorem readLog_logged {text : Str} {before : List Entry} (hfmt : alphabetOf fmt = some A)
    (hread : ∀ r ∈ w.resources, r.logFile = some p → Readable fmt r)
    (jobs : List (ProcEnv × RequestQueueItem))
    (htext : Terminated newline text) (hbefore : readLog A text = some before) :
    Terminated newline (text ++ jobs.flatMap (loggedOf w p)) ∧
    readLog A (text ++ jobs.flatMap (loggedOf w p)) =
      some (before ++ jobs.flatMap (entryOf w p)) := by
  have hlines : jobs.flatMap (loggedOf w p) =
      terminate newline ((jobs.flatMap (entryOf w p)).map (writeEntry A)) := by
    rw [List.map_flatMap, terminate_flatMap]
    exact List.flatMap_congr fun job _ => loggedOf_eq hfmt hread job
  have hclean : ∀ e ∈ jobs.flatMap (entryOf w p), Clean e := by
    intro e he
    obtain ⟨job, hjob, he⟩ := List.mem_flatMap.mp he
    exact entryOf_clean hread e he
  rw [hlines]
  exact readLog_append (solid_of_alphabetOf hfmt) htext hbefore hclean

end Entries

/-- **A log is read back**: in every run after `init` in which nobody else changes the file at
`p`, which is no data file and has whole readable lines at the start, the reader finds the
entries that were there and then those of the items processed, in their order, with the bytes
of the payloads. -/
theorem log_reads_back {re : Matcher} {p : Str} {wp w₀ w : CoAPServer κ} {es : List Event}
    {fmt : Format} {A : Alphabet Byte} {before : List Entry}
    (hempty : wp.registry = fun _ => none) (hqueue : Represents wp.queue [])
    (hinit : init.run wp = .ok 0 w₀)
    (h : Traces (step re) (Untouched p) (events re) w₀ es w)
    (hdata : ∀ r ∈ w.resources, r.dataFilePath ≠ p)
    (hfmt : alphabetOf fmt = some A)
    (hread : ∀ r ∈ w.resources, r.logFile = some p → Readable fmt r)
    (hstart : Terminated newline (contentAt w₀.fs p))
    (hbefore : readLog A (contentAt w₀.fs p) = some before) :
    Terminated newline (contentAt w.fs p) ∧
    readLog A (contentAt w.fs p) = some (before ++ (processedIn es).flatMap (entryOf w p)) := by
  have hjournal : contentAt w.fs p =
      contentAt w₀.fs p ++ (processedIn es).flatMap (loggedOf w p) :=
    (run_books hempty hqueue hinit h).2 (fun _ _ hg => hg) hdata
  rw [hjournal]
  exact readLog_logged hfmt hread _ hstart hbefore

/-- A dynamic configuration that logs payloads in `HEX`. -/
def hexVal : ResourceConfig :=
  { resourcePath := str "dyn/(.*)/val([0-9]*)"
    logFile := str "dynamic/$1/value-$2.log"
    dynamic := true
    methods := [{ type := .put, format := [str "HEX"], logValue := true }] }

/-- A server with that configuration. -/
def hexServer : CoAPServer ℕ := { dynamicServer with dynamicResources := [hexVal] }

theorem log_reads_back_hex : ∃ es w,
    Traces (step valMatcher) (Untouched valLog) (events valMatcher) hexServer es w ∧
    readLog base16 (contentAt w.fs valLog) = some ((processedIn es).flatMap (entryOf w valLog)) ∧
    ((processedIn es).flatMap (entryOf w valLog)).length = 1 := by
  have hplay : (play (step valMatcher) (events valMatcher) putVal hexServer).map (fun x =>
      decide (((processedIn x.1).flatMap (entryOf x.2 valLog)).length = 1 ∧
        (∀ r ∈ x.2.resources, r.dataFilePath ≠ valLog) ∧
        ∀ r ∈ x.2.resources, newline ∉ r.getPath ∧
          ∀ m ∈ r.methods, m.fmts = [.hex] ∧ m.config.cmd = [])) =
      some true := by decide +kernel
  obtain ⟨⟨es, w⟩, hrun, hcheck⟩ := Option.map_eq_some_iff.mp hplay
  obtain ⟨hone, hdata, hread⟩ := of_decide_eq_true hcheck
  have htrace := traces_of_play putVal untouched_putVal hrun
  have hreadable : ∀ r ∈ w.resources, r.logFile = some valLog → Readable .hex r :=
    fun r hr _ => ⟨(hread r hr).1, fun m hm _ => (hread r hr).2 m hm⟩
  have hempty : hexServer.registry = fun _ => none := rfl
  obtain ⟨-, hback⟩ := log_reads_back hempty (putServer_queue Cache.empty) rfl htrace hdata rfl
    hreadable ⟨[], by simp, rfl⟩ rfl
  exact ⟨es, w, htrace, hback, hone⟩

end CoapServer.Server.Audit
