import Mathlib.Algebra.Group.Nat.Defs
import Mathlib.Data.List.Basic
import Mathlib.Tactic.Common

/-! # Bytes, strings, `size_t` and failures

A `std::string` is its list of bytes, so is a `std::vector<std::byte>`. A `size_t` is a natural
number below `2^64`, with the arithmetic of the machine. A call that does not return ends in a
`Failure`: an exception of the standard library, or an operation without a defined result. -/

namespace CoapServer.Basic

/-- `std::byte`, `uint8_t` and `char`. -/
abbrev Byte := UInt8

/-- `std::string` and `std::vector<std::byte>`. -/
abbrev Str := List Byte

/-- The bytes of a string literal. -/
def str (s : String) : Str := s.toList.map fun c => UInt8.ofNat c.toNat

/-- The number of values of `size_t`. -/
def sizeMod : ℕ := 2 ^ 64

/-- `a + b` in `size_t`. -/
def sizeAdd (a b : ℕ) : ℕ := (a + b) % sizeMod

/-- `a - b` in `size_t`. -/
def sizeSub (a b : ℕ) : ℕ := (a + sizeMod - b) % sizeMod

/-- `PTRDIFF_MAX`, which the size of an array or a vector does not exceed. -/
def ptrdiffMax : ℕ := 2 ^ 63 - 1

theorem three_le_ptrdiffMax : 3 ≤ ptrdiffMax := by decide

theorem sizeAdd_eq {a b : ℕ} (h : a + b < sizeMod) : sizeAdd a b = a + b := Nat.mod_eq_of_lt h

theorem sizeSub_eq {a b : ℕ} (hba : b ≤ a) (ha : a < sizeMod) : sizeSub a b = a - b := by
  unfold sizeSub
  rw [show a + sizeMod - b = (a - b) + sizeMod by omega, Nat.add_mod_right,
    Nat.mod_eq_of_lt (by omega)]

/-- `'$'`. -/
def dollar : Byte := 0x24

/-- `isdigit`, and the value of the digit. -/
def digit (c : Byte) : Option ℕ := if 0x30 ≤ c ∧ c ≤ 0x39 then some (c.toNat - 0x30) else none

theorem digit_dollar : digit dollar = none := by decide

/-- A digit more in a `size_t`. -/
def growIndex (idx d : ℕ) : ℕ := sizeAdd (idx * 10) d

/-- **How a call ends** when it does not return. -/
inductive Failure where
  /-- a remainder by zero -/
  | remByZero
  /-- an access outside an array -/
  | outOfBounds (i : ℕ)
  /-- `std::runtime_error` -/
  | runtimeError (what : Str)
  /-- `std::filesystem::filesystem_error` -/
  | filesystemError (path : Str)
  /-- `std::regex_error` -/
  | regexError (pattern : Str)
  /-- `std::bad_alloc` -/
  | badAlloc
  /-- `boost::process::process_error` -/
  | processError (cmd : Str)
  deriving DecidableEq, Repr

end CoapServer.Basic
