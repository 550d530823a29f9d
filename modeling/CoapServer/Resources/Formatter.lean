import CoapServer.Basic
import Mathlib.Data.List.GetD

/-! # Formatters

A formatter turns the data of a request into text: `STRING` writes printable characters as they are
and `\xhh` for the others, `HEX` two hexadecimal digits a byte, `BASE64` four characters for three
bytes. Whatever the data, the text is printable (`decode_printable`). -/

namespace CoapServer.Resources.Formatter

open CoapServer.Basic

/-- The formatters. -/
inductive Format where
  | text
  | hex
  | base64
  deriving DecidableEq, Repr

/-- `ResourceFormatter::createResourceFormatter`. -/
def createResourceFormatter (format : Str) : Except Failure Format :=
  if format = str "STRING" then .ok .text
  else if format = str "HEX" then .ok .hex
  else if format = str "BASE64" then .ok .base64
  else .error (.runtimeError (str "Invalid resource format type: " ++ format))

/-- `std::isprint`. -/
def isPrint (ch : Byte) : Bool := 0x20 ≤ ch && ch ≤ 0x7e

/-- A character of a table. -/
def charAt (chars : Str) (i : Byte) : Byte := chars.getD i.toNat 0x3f

/-- A byte in two digits of a table of sixteen. -/
def twoDigits (digits : Str) (b : Byte) : Str := [charAt digits (b / 16), charAt digits (b % 16)]

/-- `ResourceFormatterText::decode`. -/
def decodeText (data : Str) : Str :=
  data.flatMap fun ch =>
    if isPrint ch then [ch] else str "\\x" ++ twoDigits (str "0123456789abcdef") ch

/-- `ResourceFormatterHex::decode`. -/
def decodeHex (data : Str) : Str := data.flatMap (twoDigits (str "0123456789ABCDEF"))

/-- `_base64_chars`. -/
def base64Chars : Str := str "ABCDEFGHIJKLMNOPQRSTUVWXYZabcdefghijklmnopqrstuvwxyz0123456789+/"

/-- `ResourceFormatterBase64::decode`. -/
def decodeBase64 : Str → Str
  | [] => []
  | [a] => [charAt base64Chars (a >>> 2), charAt base64Chars ((a <<< 4) &&& (0x30 : Byte))] ++ str "=="
  | [a, b] =>
    [charAt base64Chars (a >>> 2), charAt base64Chars (((a <<< 4) &&& (0x30 : Byte)) ||| (b >>> 4)),
      charAt base64Chars ((b <<< 2) &&& (0x3c : Byte))] ++ str "="
  | a :: b :: c :: rest =>
    [charAt base64Chars (a >>> 2), charAt base64Chars (((a <<< 4) &&& (0x30 : Byte)) ||| (b >>> 4)),
      charAt base64Chars (((b <<< 2) &&& (0x3c : Byte)) ||| (c >>> 6)),
      charAt base64Chars (c &&& (0x3f : Byte))] ++
      decodeBase64 rest

/-- `ResourceFormatter::decode`. -/
def Format.decode : Format → Str → Str
  | .text => decodeText
  | .hex => decodeHex
  | .base64 => decodeBase64

/-! ### The text is printable -/

/-- A character of a printable table is printable. -/
theorem charAt_printable {chars : Str} (h : ∀ ch ∈ chars, isPrint ch) (i : Byte) :
    isPrint (charAt chars i) := by
  unfold charAt
  by_cases hi : i.toNat < chars.length
  · rw [List.getD_eq_getElem _ _ hi]
    exact h _ (List.getElem_mem hi)
  · rw [List.getD_eq_default _ _ (by omega)]
    rfl

theorem twoDigits_printable {digits : Str} (h : ∀ ch ∈ digits, isPrint ch) (b : Byte) :
    ∀ ch ∈ twoDigits digits b, isPrint ch := by
  intro ch hch
  simp only [twoDigits, List.mem_cons, List.not_mem_nil, or_false] at hch
  obtain rfl | rfl := hch
  · exact charAt_printable h _
  · exact charAt_printable h _

theorem decodeText_printable (data : Str) : ∀ ch ∈ decodeText data, isPrint ch := by
  intro ch hch
  obtain ⟨b, -, hb⟩ := List.mem_flatMap.mp hch
  by_cases hprint : isPrint b
  · rw [if_pos hprint, List.mem_singleton] at hb
    rw [hb]
    exact hprint
  · rw [if_neg hprint] at hb
    rcases List.mem_append.mp hb with hb | hb
    · exact List.all_eq_true.mp (by decide : (str "\\x").all isPrint) ch hb
    · exact twoDigits_printable (List.all_eq_true.mp (by decide)) b ch hb

theorem decodeHex_printable (data : Str) : ∀ ch ∈ decodeHex data, isPrint ch := by
  intro ch hch
  obtain ⟨b, -, hb⟩ := List.mem_flatMap.mp hch
  exact twoDigits_printable (List.all_eq_true.mp (by decide)) b ch hb

theorem base64Chars_printable (i : Byte) : isPrint (charAt base64Chars i) :=
  charAt_printable (List.all_eq_true.mp (by decide)) i

theorem decodeBase64_printable (data : Str) : ∀ ch ∈ decodeBase64 data, isPrint ch := by
  have hpad : ∀ ch ∈ str "==", isPrint ch := List.all_eq_true.mp (by decide)
  fun_induction decodeBase64 data with
  | case1 => simp
  | case2 a =>
    intro ch hch
    rcases List.mem_append.mp hch with hch | hch
    · simp only [List.mem_cons, List.not_mem_nil, or_false] at hch
      rcases hch with rfl | rfl <;> exact base64Chars_printable _
    · exact hpad ch hch
  | case3 a b =>
    intro ch hch
    rcases List.mem_append.mp hch with hch | hch
    · simp only [List.mem_cons, List.not_mem_nil, or_false] at hch
      rcases hch with rfl | rfl | rfl <;> exact base64Chars_printable _
    · exact List.all_eq_true.mp (by decide : (str "=").all isPrint) ch hch
  | case4 a b c rest ih =>
    intro ch hch
    rcases List.mem_append.mp hch with hch | hch
    · simp only [List.mem_cons, List.not_mem_nil, or_false] at hch
      rcases hch with rfl | rfl | rfl | rfl <;> exact base64Chars_printable _
    · exact ih ch hch

/-- **The text of a formatter is printable**, whatever the data. -/
theorem decode_printable (fmt : Format) (data : Str) : ∀ ch ∈ fmt.decode data, isPrint ch := by
  cases fmt with
  | text => exact decodeText_printable data
  | hex => exact decodeHex_printable data
  | base64 => exact decodeBase64_printable data

end CoapServer.Resources.Formatter
