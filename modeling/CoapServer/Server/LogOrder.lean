import CoapServer.Server.Audit

/-! # A log and the clock

An entry has the time at which its request was handled, as local time. A log is written in the order in
which requests are processed, which is the order in which they were acknowledged. So what a run adds to
a log is sorted by its texts if and only if the local times of the requests recorded do not go back
(`log_in_order_iff`). They do where the clock is set back, and at the end of summer time. -/

namespace CoapServer.Server.LogOrder

open CoapServer.Basic CoapServer.Lib.BaseEncoding CoapServer.Lib.Fields CoapServer.Lib.Trace
open CoapServer.Resources.Files CoapServer.Resources.Formatter CoapServer.Blocks.SessionData
open CoapServer.Queue.Sequential CoapServer.Server.World CoapServer.Server.Process
open CoapServer.Server.Creation CoapServer.Server.Machine CoapServer.Server.Dynamic
open CoapServer.Server.LogLines CoapServer.Server.Acknowledgement CoapServer.Server.Ledger
open CoapServer.Server.Timestamps CoapServer.Server.Dispatch CoapServer.Server.Audit

variable {κ : Type} [DecidableEq κ]

/-- The texts of the times in what the log at `p` has got. -/
def recordedTexts (w : CoAPServer κ) (p : Str) (jobs : List (ProcEnv × RequestQueueItem)) :
    List Str :=
  (jobs.flatMap (entryOf w p)).map Entry.timestamp

/-- The times of the requests that are recorded in the log at `p`. -/
def recordedTimes (w : CoAPServer κ) (p : Str) (jobs : List (ProcEnv × RequestQueueItem)) :
    List Time :=
  jobs.flatMap fun job => (entryOf w p job).map fun _ => job.2.time

/-- The times of the acknowledged requests. -/
def acknowledgedTimes (es : List Event) : List Time :=
  (acknowledgedIn es).filterMap fun item => item.map RequestQueueItem.time

/-- **The local times do not go back.** -/
def Forward (localtime : ℕ → Tm) (ts : List Time) : Prop :=
  (ts.map (moment localtime)).Pairwise (· ≤ ·)

/-- The file at `p` is not changed from outside, and the queue thread is in one time zone. -/
def InZone (localtime : ℕ → Tm) (p : Str) (w : CoAPServer κ) (l : Label κ) : Prop :=
  Untouched p w l ∧ ∀ env, l = .consume env → env.localtime = localtime

/-- The items of such a run were processed in the zone. -/
theorem processed_zone {re : Matcher} {localtime : ℕ → Tm} {p : Str} {w₀ w : CoAPServer κ}
    {es : List Event} (h : Traces (step re) (InZone localtime p) (events re) w₀ es w) :
    ∀ job ∈ processedIn es, job.1.localtime = localtime := by
  refine Traces.invariant (P := fun es _ => ∀ job ∈ processedIn es, job.1.localtime = localtime)
    ?_ h fun job hjob => absurd hjob List.not_mem_nil
  intro es w l w' hall hg _ job hjob
  rw [processedIn, List.filterMap_append, ← processedIn, List.mem_append] at hjob
  rcases hjob with hjob | hjob
  · exact hall job hjob
  obtain ⟨e, he, hone⟩ := List.mem_filterMap.mp hjob
  cases l with
  | request uri req type env resp =>
    simp only [events] at he
    split at he
    · split_ifs at he
      · obtain rfl := List.mem_singleton.mp he
        cases hone
      · cases he
    · cases he
  | consume env =>
    obtain ⟨item, -, rfl⟩ := List.mem_map.mp he
    obtain rfl := Option.some.inj hone
    exact hg.2 env rfl
  | poll => cases he
  | files fs => cases he

section Recorded
variable {w : CoAPServer κ} {p : Str} {localtime : ℕ → Tm}

omit [DecidableEq κ]

/-- An item leaves at most one entry. -/
theorem recordedTimes_sublist (jobs : List (ProcEnv × RequestQueueItem)) :
    (recordedTimes w p jobs).Sublist (jobs.map fun job => job.2.time) := by
  induction jobs with
  | nil => exact List.Sublist.refl _
  | cons job jobs ih =>
    have hone : ((entryOf w p job).map fun _ => job.2.time).Sublist [job.2.time] := by
      unfold entryOf
      split
      · split_ifs
        · exact List.Sublist.refl _
        · exact List.nil_sublist _
      · exact List.nil_sublist _
    exact hone.append ih

/-- The texts in the entries are those of the times. -/
theorem entries_timestamp {jobs : List (ProcEnv × RequestQueueItem)}
    (hclock : ∀ job ∈ jobs, job.1.localtime = localtime) :
    recordedTexts w p jobs = (recordedTimes w p jobs).map (timestamp localtime) := by
  rw [recordedTexts, recordedTimes, List.map_flatMap, List.map_flatMap]
  refine List.flatMap_congr fun job hjob => ?_
  have htext : job.1.timestamp job.2.time = timestamp localtime job.2.time := by
    rw [ProcEnv.timestamp, hclock job hjob]
  unfold entryOf
  split
  · split_ifs
    · exact congrArg (fun s => [s]) htext
    · rfl
  · rfl

/-- Texts are sorted if and only if the local times do not go back. -/
theorem sorted_iff {ts : List Time} (h : ∀ t ∈ ts, Ordinary localtime t) :
    (ts.map (timestamp localtime)).Pairwise (· ≤ ·) ↔ Forward localtime ts := by
  rw [Forward, List.pairwise_map, List.pairwise_map]
  exact List.Pairwise.iff_of_mem fun ht ht' => timestamp_le_iff (h _ ht) (h _ ht')

end Recorded

/-- **A log is in order exactly where the clock does not go back.** In every run after `init` in which
nobody else changes the file at `p`, which is no data file and has whole readable lines at the start,
and the time zone stays: what the log has got at the end is sorted by its texts if and only if the local
times of the requests it records do not go back; and it is, where those of the acknowledged requests
do not. -/
theorem log_in_order_iff {re : Matcher} {p : Str} {wp w₀ w : CoAPServer κ} {es : List Event}
    {fmt : Format} {A : Alphabet Byte} {before : List Entry} {localtime : ℕ → Tm}
    (hempty : wp.registry = fun _ => none) (hqueue : Represents wp.queue [])
    (hinit : init.run wp = .ok 0 w₀)
    (h : Traces (step re) (InZone localtime p) (events re) w₀ es w)
    (hdata : ∀ r ∈ w.resources, r.dataFilePath ≠ p)
    (hfmt : alphabetOf fmt = some A)
    (hread : ∀ r ∈ w.resources, r.logFile = some p → Readable fmt r)
    (hstart : Terminated newline (contentAt w₀.fs p))
    (hbefore : readLog A (contentAt w₀.fs p) = some before)
    (hordinary : ∀ t ∈ recordedTimes w p (processedIn es), Ordinary localtime t) :
    readLog A (contentAt w.fs p) = some (before ++ (processedIn es).flatMap (entryOf w p)) ∧
      ((recordedTexts w p (processedIn es)).Pairwise (· ≤ ·) ↔
        Forward localtime (recordedTimes w p (processedIn es))) ∧
      (Forward localtime (acknowledgedTimes es) →
        (recordedTexts w p (processedIn es)).Pairwise (· ≤ ·)) := by
  obtain ⟨⟨L, hbooks⟩, hjournal⟩ := run_books (p := p) hempty hqueue hinit h
  have hlogged := readLog_logged hfmt hread (processedIn es) hstart hbefore
  rw [← hjournal (fun _ _ hg => hg.1) hdata] at hlogged
  have hsorted := sorted_iff hordinary
  rw [← entries_timestamp (processed_zone h)] at hsorted
  refine ⟨hlogged.2, hsorted, fun hforward => hsorted.mpr ?_⟩
  have hsub : (recordedTimes w p (processedIn es)).Sublist (acknowledgedTimes es) := by
    have hall : acknowledgedTimes es =
        (processedIn es).map (fun job => job.2.time) ++ L.map RequestQueueItem.time := by
      rw [acknowledgedTimes, hbooks.balance, List.filterMap_map]
      simp
    rw [hall]
    exact (recordedTimes_sublist _).trans (List.sublist_append_left _ _)
  exact hforward.sublist (hsub.map _)

/-- Two requests, the second five milliseconds later. -/
def twoPuts : List (Label ℕ) :=
  [.request valUri Writes.putByte .put ⟨⟨0, 0⟩, []⟩ ⟨.empty, .con, [], none⟩, .consume Writes.quiet,
    .request valUri Writes.putByte .put ⟨⟨0, 5000⟩, []⟩ ⟨.empty, .con, [], none⟩,
    .consume Writes.quiet]

theorem twoPuts_inZone : ∀ l ∈ twoPuts, ∀ w, InZone (fun _ => epoch) valLog w l := by
  intro l hl w
  simp only [twoPuts, List.mem_cons, List.not_mem_nil, or_false] at hl
  rcases hl with rfl | rfl | rfl | rfl
  · exact ⟨trivial, by rintro env ⟨⟩⟩
  · exact ⟨trivial, by rintro env ⟨⟩; rfl⟩
  · exact ⟨trivial, by rintro env ⟨⟩⟩
  · exact ⟨trivial, by rintro env ⟨⟩; rfl⟩

/-- Both are recorded, in order. -/
theorem log_in_order_iff_two : ∃ es w,
    Traces (step valMatcher) (InZone (fun _ => epoch) valLog) (events valMatcher) hexServer es w ∧
    (recordedTexts w valLog (processedIn es)).Pairwise (· ≤ ·) ∧
    recordedTimes w valLog (processedIn es) = [⟨0, 0⟩, ⟨0, 5000⟩] := by
  have hplay : (play (step valMatcher) (events valMatcher) twoPuts hexServer).map (fun x =>
      decide (recordedTimes x.2 valLog (processedIn x.1) = [⟨0, 0⟩, ⟨0, 5000⟩] ∧
        acknowledgedTimes x.1 = [⟨0, 0⟩, ⟨0, 5000⟩] ∧
        (∀ r ∈ x.2.resources, r.dataFilePath ≠ valLog) ∧
        ∀ r ∈ x.2.resources, newline ∉ r.getPath ∧
          ∀ m ∈ r.methods, m.fmts = [.hex] ∧ m.config.cmd = [])) =
      some true := by decide +kernel
  obtain ⟨⟨es, w⟩, hrun, hcheck⟩ := Option.map_eq_some_iff.mp hplay
  obtain ⟨hrecorded, hacknowledged, hdata, hread⟩ := of_decide_eq_true hcheck
  have htrace := traces_of_play twoPuts twoPuts_inZone hrun
  have hreadable : ∀ r ∈ w.resources, r.logFile = some valLog → Readable .hex r :=
    fun r hr _ => ⟨(hread r hr).1, fun m hm _ => (hread r hr).2 m hm⟩
  have hempty : hexServer.registry = fun _ => none := rfl
  have hordinary : ∀ usec < 1000000, Ordinary (fun _ => epoch) ⟨0, usec⟩ := fun usec husec =>
    ⟨by decide, by decide, by decide, by decide, by decide, by decide, husec⟩
  have hforward : Forward (fun _ => epoch) (acknowledgedTimes es) := by
    rw [hacknowledged, Forward]
    decide
  obtain ⟨-, -, hsorted⟩ := log_in_order_iff hempty (putServer_queue Cache.empty) rfl
    htrace hdata rfl hreadable ⟨[], by simp, rfl⟩ rfl (by
      rw [hrecorded]
      intro t ht
      simp only [List.mem_cons, List.not_mem_nil, or_false] at ht
      rcases ht with rfl | rfl
      · exact hordinary 0 (by decide)
      · exact hordinary 5000 (by decide))
  exact ⟨es, w, htrace, hsorted hforward, hrecorded⟩

end CoapServer.Server.LogOrder
