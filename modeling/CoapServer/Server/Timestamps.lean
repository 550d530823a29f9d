import CoapServer.Lib.Numerals
import CoapServer.Server.World

/-! # The text of a time

`timebuf` is the text of a time in its 24 bytes, from `strftime` and then `snprintf`. With a year of four
digits it has all of the local time, to the millisecond, and such texts compare as the local times do
(`timestamp_le_iff`); a longer year pushes the last digits out. Whatever the time is, the text has only
digits and its marks (`notMem_timebuf`). -/

namespace CoapServer.Server.Timestamps

open CoapServer.Basic CoapServer.Lib.Numerals CoapServer.Server.World

/-! ### The buffer -/

/-- What is printed of a `struct tm`: the year is `tm_year + 1900`, and the month `tm_mon + 1`. -/
structure Tm where
  year : ℕ
  month : ℕ
  day : ℕ
  hour : ℕ
  minute : ℕ
  second : ℕ
  deriving DecidableEq

/-- The local time 0 in a zone without an offset. -/
def epoch : Tm := ⟨1970, 1, 1, 0, 0, 0⟩

/-- The letter of a digit. -/
def letter (k : ℕ) : Byte := UInt8.ofNat (0x30 + k)

/-- A decimal number with at least `w` digits. -/
def decimal (w n : ℕ) : Str := numeral 10 letter w n

/-- `"%Y-%m-%dT%H:%M:%S"`. -/
def dateText (tm : Tm) : Str :=
  decimal 1 tm.year ++ str "-" ++ decimal 2 tm.month ++ str "-" ++ decimal 2 tm.day ++ str "T" ++
    decimal 2 tm.hour ++ str ":" ++ decimal 2 tm.minute ++ str ":" ++ decimal 2 tm.second

/-- `strftime(buf, max, "%Y-%m-%dT%H:%M:%S", tm)`, which writes nothing where the text does not fit
with its zero. -/
def strftime (max : ℕ) (tm : Tm) : Str :=
  if (dateText tm).length < max then dateText tm else []

/-- `snprintf(buf, size, ".%03u", n)`, which cuts the text to leave room for its zero. -/
def snprintf (size n : ℕ) : Str := (str "." ++ decimal 3 n).take (size - 1)

/-- `TIMEBUF_SZ`. -/
def timebufSize : ℕ := 24

/-- **What is in `timebuf`** before its zero. -/
def timebuf (tm : Tm) (usec : ℕ) : Str :=
  let text := strftime timebufSize tm
  text ++ snprintf (timebufSize - text.length) (usec / 1000 % 2 ^ 32)

/-- The text of a time, by what `localtime` makes of its seconds. -/
def timestamp (localtime : ℕ → Tm) (t : Time) : Str := timebuf (localtime t.sec) t.usec

/-- **The local time**, to the millisecond. -/
def moment (localtime : ℕ → Tm) (t : Time) : List ℕ :=
  let tm := localtime t.sec
  [tm.year, tm.month, tm.day, tm.hour, tm.minute, tm.second, t.usec / 1000]

/-- **A time as `gettimeofday` and `localtime` give it**, with a year of four digits. -/
structure Ordinary (localtime : ℕ → Tm) (t : Time) : Prop where
  year : 1000 ≤ (localtime t.sec).year ∧ (localtime t.sec).year ≤ 9999
  month : (localtime t.sec).month ≤ 12
  day : (localtime t.sec).day ≤ 31
  hour : (localtime t.sec).hour ≤ 23
  minute : (localtime t.sec).minute ≤ 59
  second : (localtime t.sec).second ≤ 60
  usec : t.usec < 1000000

/-! ### The text of a time -/

/-- The columns of a text with all of its digits. -/
def layout : List (Column Byte) :=
  [⟨[], 4⟩, ⟨str "-", 2⟩, ⟨str "-", 2⟩, ⟨str "T", 2⟩, ⟨str ":", 2⟩, ⟨str ":", 2⟩, ⟨str ".", 3⟩]

theorem letter_lt : ∀ i j, i < j → j < 10 → letter i < letter j := by
  intro i j hij hj
  interval_cases j <;> interval_cases i <;> decide

section Ordinary
variable {localtime : ℕ → Tm} {t t' : Time}

theorem Ordinary.fits (h : Ordinary localtime t) : Fits 10 layout (moment localtime t) := by
  obtain ⟨hyear, hmonth, hday, hhour, hminute, hsecond, husec⟩ := h
  simp only [Fits, layout, moment, List.forall₂_cons, List.forall₂_nil_right_iff, Nat.reducePow,
    and_true]
  omega

/-- A year of four digits has all of them. -/
theorem decimal_year {n : ℕ} (h : 1000 ≤ n ∧ n ≤ 9999) : decimal 1 n = numeral 10 letter 4 n := by
  have hlen : 3 < (Nat.digits 10 n).length := (Nat.lt_digits_length_iff (by decide) n).mpr h.1
  rw [decimal, numeral_eq_digits (by omega), numeral_eq_digits hlen]

/-- **The buffer has all columns.** -/
theorem timestamp_eq (h : Ordinary localtime t) :
    timestamp localtime t = columns 10 letter layout (moment localtime t) := by
  have hfits := h.fits
  have hdate : (columns 10 letter (layout.take 6) ((moment localtime t).take 6)).length = 19 :=
    length_columns (by decide) (List.forall₂_take 6 hfits)
  have hcolumns : columns 10 letter (layout.take 6) ((moment localtime t).take 6) =
      dateText (localtime t.sec) := by
    rw [dateText, decimal_year h.year]
    simp [columns, layout, moment, decimal]
  rw [hcolumns] at hdate
  have htext : strftime timebufSize (localtime t.sec) = dateText (localtime t.sec) := by
    rw [strftime, hdate, if_pos (by decide)]
  have hms : t.usec / 1000 % 2 ^ 32 = t.usec / 1000 ∧ t.usec / 1000 < 10 ^ 3 := by
    have := h.usec
    omega
  have hmillis : snprintf 5 (t.usec / 1000) = str "." ++ numeral 10 letter 3 (t.usec / 1000) := by
    have hlen : (numeral 10 letter 3 (t.usec / 1000)).length = 3 := length_numeral (by decide) hms.2
    exact List.take_of_length_le (by rw [List.length_append, decimal, hlen]; decide)
  have hcut : timebufSize - 19 = 5 := rfl
  rw [timestamp, timebuf, htext, hdate, hms.1, hcut, hmillis, dateText, decimal_year h.year]
  simp [columns, layout, moment, decimal]

/-- **Texts compare as local times.** -/
theorem timestamp_le_iff (h : Ordinary localtime t) (h' : Ordinary localtime t') :
    timestamp localtime t ≤ timestamp localtime t' ↔ moment localtime t ≤ moment localtime t' := by
  rw [timestamp_eq h, timestamp_eq h']
  exact columns_le_iff (by decide) letter_lt h.fits h'.fits

end Ordinary

/-- **A text has only digits and its marks**, whatever the time is. -/
theorem notMem_timebuf {c : Byte} (hdigits : ∀ k < 10, letter k ≠ c) (hmarks : c ∉ str "-T:.")
    (tm : Tm) (usec : ℕ) : c ∉ timebuf tm usec := by
  have hdecimal : ∀ w n, c ∉ decimal w n := by
    intro w n hc
    obtain ⟨k, hk, hkc⟩ := mem_numeral (by decide) hc
    exact hdigits k hk hkc
  have hmark : ∀ s : Str, s ⊆ str "-T:." → c ∉ s := fun s hs hc => hmarks (hs hc)
  have hdate : c ∉ dateText tm := by
    simp only [dateText, List.mem_append, not_or, hdecimal, hmark (str "-") (by decide),
      hmark (str "T") (by decide), hmark (str ":") (by decide), not_false_eq_true, and_self]
  have hmillis : c ∉ str "." ++ decimal 3 (usec / 1000 % 2 ^ 32) := by
    rw [List.mem_append, not_or]
    exact ⟨hmark (str ".") (by decide), hdecimal 3 _⟩
  rw [timebuf, List.mem_append, not_or]
  refine ⟨?_, fun hc => hmillis (List.mem_of_mem_take hc)⟩
  unfold strftime
  split_ifs
  · exact hdate
  · exact List.not_mem_nil

end CoapServer.Server.Timestamps
