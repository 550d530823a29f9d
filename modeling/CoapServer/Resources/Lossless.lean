import CoapServer.Lib.BaseEncoding
import CoapServer.Resources.Formatter

/-! # `HEX` and `BASE64` are lossless

`ResourceFormatterHex` and `ResourceFormatterBase64` group the bits of the data by arithmetic on
bytes. What they write is the base encoding of the data (`decodeHex_eq`, `decodeBase64_eq`), so a
strict decoder reads it back, and every canonical text is what they write for one payload
(`renderings_lossless`). -/

namespace CoapServer.Resources.Lossless

open CoapServer.Basic CoapServer.Lib.BaseEncoding CoapServer.Resources.Formatter

/-! ### Base16 -/

/-- The upper-case hexadecimal digits. -/
def hexChars : Str := str "0123456789ABCDEF"

/-- `'='`. -/
def equals : Byte := 0x3d

/-- **Base16.** Its texts need no padding. -/
def base16 : Alphabet Byte where
  chars := hexChars
  width := 4
  unit := 2
  pad := equals
  length_eq := rfl
  nodup := by decide
  pad_notMem := by decide
  width_pos := by decide
  width_le := by decide

/-- A character of a table is the letter of its index. -/
theorem charAt_letter (A : Alphabet Byte) {i : Byte} (hi : i.toNat < 2 ^ A.width) :
    charAt A.chars i = A.letter i.toNat := by
  have hlt : i.toNat < A.chars.length := by rwa [A.length_eq]
  rw [charAt, Alphabet.letter, List.getD_eq_getElem _ _ hlt, List.getD_eq_getElem _ _ hlt]

/-- The two digits of a byte. -/
def hexDigits (data : Str) : List ℕ := data.flatMap fun b => [b.toNat / 16, b.toNat % 16]

theorem digits_hexDigits (data : Str) : Digits 4 (hexDigits data) := by
  intro d hd
  obtain ⟨b, -, hb⟩ := List.mem_flatMap.mp hd
  have hlt : b.toNat < 2 ^ 8 := b.toNat_lt
  simp only [List.mem_cons, List.not_mem_nil, or_false] at hb
  obtain rfl | rfl := hb <;> omega

/-- A byte is two digits. -/
theorem pack_hexDigits (data : Str) : pack 4 (hexDigits data) = byteBits data := by
  induction data with
  | nil => rfl
  | cons b data ih =>
    have hlt : b.toNat < 2 ^ 8 := b.toNat_lt
    have hcut : bits 8 b.toNat = bits 4 (b.toNat / 16) ++ bits 4 (b.toNat % 16) := by
      rw [bits_add 4 4, ← bits_mod 4 b.toNat]
      rfl
    show bits 4 (b.toNat / 16) ++ (bits 4 (b.toNat % 16) ++ pack 4 (hexDigits data)) =
      bits 8 b.toNat ++ byteBits data
    rw [ih, hcut, List.append_assoc]

theorem length_hexDigits (data : Str) : (hexDigits data).length = 2 * data.length := by
  induction data with
  | nil => rfl
  | cons b data ih =>
    rw [hexDigits, List.flatMap_cons, List.length_append, ← hexDigits, ih, List.length_cons]
    simp only [List.length_cons, List.length_nil]
    omega

/-- Two characters are two digits. -/
theorem twoDigits_eq {A : Alphabet Byte} (hA : A.width = 4) (b : Byte) : twoDigits A.chars b =
    [A.letter (b.toNat / 16), A.letter (b.toNat % 16)] := by
  have hlt : b.toNat < 2 ^ 8 := b.toNat_lt
  have hdiv : (b / 16).toNat = b.toNat / 16 := UInt8.toNat_div b 16
  have hmod : (b % 16).toNat = b.toNat % 16 := UInt8.toNat_mod b 16
  rw [twoDigits, charAt_letter A (by rw [hA, hdiv]; omega), charAt_letter A (by rw [hA, hmod]; omega),
    hdiv, hmod]

/-- **`HEX` is Base16.** -/
theorem decodeHex_eq (data : Str) : decodeHex data = base16.encode data := by
  have hbits : pack base16.width (hexDigits data) = byteBits data ++ List.replicate 0 false := by
    rw [List.replicate_zero, List.append_nil]
    exact pack_hexDigits data
  have hfill : fill base16.unit (hexDigits data).length = 0 := by
    rw [length_hexDigits]
    show (2 - 2 * data.length % 2) % 2 = 0
    omega
  rw [encode_eq base16 (digits_hexDigits data) (by decide) hbits, Alphabet.padded, hfill,
    List.replicate_zero, List.append_nil, decodeHex, hexDigits, List.map_flatMap]
  refine List.flatMap_congr fun b _ => ?_
  exact twoDigits_eq (A := base16) rfl b

/-! ### Base64 -/

/-- **Base64.** -/
def base64 : Alphabet Byte where
  chars := base64Chars
  width := 6
  unit := 4
  pad := equals
  length_eq := rfl
  nodup := by decide
  pad_notMem := by decide
  width_pos := by decide
  width_le := by decide

/-- The digits of three bytes after the other. -/
def base64Digits : Str → List ℕ
  | [] => []
  | [a] => [a.toNat / 4, a.toNat % 4 * 16]
  | [a, b] => [a.toNat / 4, a.toNat % 4 * 16 + b.toNat / 16, b.toNat % 16 * 4]
  | a :: b :: c :: rest =>
    [a.toNat / 4, a.toNat % 4 * 16 + b.toNat / 16, b.toNat % 16 * 4 + c.toNat / 64, c.toNat % 64] ++
      base64Digits rest

theorem digits_base64Digits (data : Str) : Digits 6 (base64Digits data) := by
  have hlt : ∀ b : Byte, b.toNat < 2 ^ 8 := UInt8.toNat_lt
  fun_induction base64Digits data with
  | case1 => simp [Digits]
  | case2 a =>
    intro d hd
    have ha := hlt a
    simp only [List.mem_cons, List.not_mem_nil, or_false] at hd
    obtain rfl | rfl := hd <;> omega
  | case3 a b =>
    intro d hd
    have ha := hlt a
    have hb := hlt b
    simp only [List.mem_cons, List.not_mem_nil, or_false] at hd
    obtain rfl | rfl | rfl := hd <;> omega
  | case4 a b c rest ih =>
    intro d hd
    have ha := hlt a
    have hb := hlt b
    have hc := hlt c
    rcases List.mem_append.mp hd with hd | hd
    · simp only [List.mem_cons, List.not_mem_nil, or_false] at hd
      obtain rfl | rfl | rfl | rfl := hd <;> omega
    · exact ih d hd

/-- **The digits have the bits of the bytes**, filled up with zeros. -/
theorem pack_base64Digits (data : Str) :
    ∃ z < 6, pack 6 (base64Digits data) = byteBits data ++ List.replicate z false := by
  have hdigits := digits_base64Digits
  fun_induction base64Digits data with
  | case1 => exact ⟨0, by omega, rfl⟩
  | case2 a =>
    refine ⟨4, by omega, ?_⟩
    have hsum : (0 * 2 ^ 6 + a.toNat / 4) * 2 ^ 6 + a.toNat % 4 * 16 = a.toNat * 2 ^ 4 := by omega
    have hone : Digits 6 [a.toNat / 4, a.toNat % 4 * 16] := hdigits [a]
    rw [pack_eq_bits hone]
    simp only [List.foldl_cons, List.foldl_nil, hsum]
    exact bits_shift 8 4 a.toNat
  | case3 a b =>
    refine ⟨2, by omega, ?_⟩
    have hsum : ((0 * 2 ^ 6 + a.toNat / 4) * 2 ^ 6 + (a.toNat % 4 * 16 + b.toNat / 16)) * 2 ^ 6 +
        b.toNat % 16 * 4 = ((0 * 2 ^ 8 + a.toNat) * 2 ^ 8 + b.toNat) * 2 ^ 2 := by omega
    have htwo : Digits 6 [a.toNat / 4, a.toNat % 4 * 16 + b.toNat / 16, b.toNat % 16 * 4] :=
      hdigits [a, b]
    rw [pack_eq_bits htwo, byteBits, pack_eq_bits (digits_bytes [a, b])]
    simp only [List.foldl_cons, List.foldl_nil, List.map_cons, List.map_nil, hsum]
    exact bits_shift 16 2 _
  | case4 a b c rest ih =>
    obtain ⟨z, hz, hrest⟩ := ih
    refine ⟨z, hz, ?_⟩
    have hsum : (((0 * 2 ^ 6 + a.toNat / 4) * 2 ^ 6 + (a.toNat % 4 * 16 + b.toNat / 16)) * 2 ^ 6 +
        (b.toNat % 16 * 4 + c.toNat / 64)) * 2 ^ 6 + c.toNat % 64 =
        ((0 * 2 ^ 8 + a.toNat) * 2 ^ 8 + b.toNat) * 2 ^ 8 + c.toNat := by omega
    have hgroup : pack 6 [a.toNat / 4, a.toNat % 4 * 16 + b.toNat / 16,
        b.toNat % 16 * 4 + c.toNat / 64, c.toNat % 64] = byteBits [a, b, c] := by
      have hthree := hdigits [a, b, c]
      rw [base64Digits, base64Digits, List.append_nil] at hthree
      rw [pack_eq_bits hthree, byteBits, pack_eq_bits (digits_bytes [a, b, c])]
      simp only [List.foldl_cons, List.foldl_nil, List.map_cons, List.map_nil, hsum]
      rfl
    have hbytes : byteBits (a :: b :: c :: rest) = byteBits [a, b, c] ++ byteBits rest :=
      pack_append 8 [a.toNat, b.toNat, c.toNat] (rest.map UInt8.toNat)
    rw [pack_append, hgroup, hrest, hbytes, List.append_assoc]

/-! ### The bytes of the loop -/

/-- What the masks leave of a byte. -/
theorem masks : ∀ n < 256, ((UInt8.ofNat n <<< 4) &&& (0x30 : Byte)).toNat = n % 4 * 16 ∧
    ((UInt8.ofNat n <<< 2) &&& (0x3c : Byte)).toNat = n % 16 * 4 ∧
    (UInt8.ofNat n &&& (0x3f : Byte)).toNat = n % 64 := by decide +kernel

section Byte
variable (a b : Byte)

theorem toNat_shiftRight_two : (a >>> 2).toNat = a.toNat / 4 := by
  rw [UInt8.toNat_shiftRight, Nat.shiftRight_eq_div_pow]
  rfl

theorem toNat_mask_two : ((a <<< 4) &&& (0x30 : Byte)).toNat = a.toNat % 4 * 16 := by
  have h := (masks a.toNat a.toNat_lt).1
  rwa [UInt8.ofNat_toNat] at h

theorem toNat_mask_four : ((a <<< 2) &&& (0x3c : Byte)).toNat = a.toNat % 16 * 4 := by
  have h := (masks a.toNat a.toNat_lt).2.1
  rwa [UInt8.ofNat_toNat] at h

theorem toNat_mask_six : (a &&& (0x3f : Byte)).toNat = a.toNat % 64 := by
  have h := (masks a.toNat a.toNat_lt).2.2
  rwa [UInt8.ofNat_toNat] at h

/-- The lowest two bits of a byte, and the highest four of the next. -/
theorem toNat_second :
    (((a <<< 4) &&& (0x30 : Byte)) ||| (b >>> 4)).toNat = a.toNat % 4 * 16 + b.toNat / 16 := by
  have hb : (b >>> 4).toNat = b.toNat / 16 := by
    rw [UInt8.toNat_shiftRight, Nat.shiftRight_eq_div_pow]
    rfl
  have hlt : b.toNat / 16 < 2 ^ 4 := by
    have : b.toNat < 2 ^ 8 := b.toNat_lt
    omega
  have hor := Nat.shiftLeft_add_eq_or_of_lt hlt (a.toNat % 4)
  rw [Nat.shiftLeft_eq] at hor
  rw [UInt8.toNat_or, toNat_mask_two, hb]
  exact hor.symm

/-- The lowest four bits of a byte, and the highest two of the next. -/
theorem toNat_third :
    (((a <<< 2) &&& (0x3c : Byte)) ||| (b >>> 6)).toNat = a.toNat % 16 * 4 + b.toNat / 64 := by
  have hb : (b >>> 6).toNat = b.toNat / 64 := by
    rw [UInt8.toNat_shiftRight, Nat.shiftRight_eq_div_pow]
    rfl
  have hlt : b.toNat / 64 < 2 ^ 2 := by
    have : b.toNat < 2 ^ 8 := b.toNat_lt
    omega
  have hor := Nat.shiftLeft_add_eq_or_of_lt hlt (a.toNat % 16)
  rw [Nat.shiftLeft_eq] at hor
  rw [UInt8.toNat_or, toNat_mask_four, hb]
  exact hor.symm

end Byte

/-- A character of the table is the letter of a digit. -/
theorem charAt_base64 {x : Byte} {d : ℕ} (h : x.toNat = d) (hd : d < 64) :
    charAt base64Chars x = base64.letter d := by
  rw [← h]
  exact charAt_letter base64 (by rw [h]; exact hd)

/-- **The loop writes the letters of the digits**, and the padding. -/
theorem decodeBase64_padded (data : Str) : decodeBase64 data = base64.padded (base64Digits data) := by
  have hlt : ∀ b : Byte, b.toNat < 2 ^ 8 := UInt8.toNat_lt
  fun_induction base64Digits data with
  | case1 => rfl
  | case2 a =>
    have ha := hlt a
    rw [decodeBase64, charAt_base64 (toNat_shiftRight_two a) (by omega),
      charAt_base64 (toNat_mask_two a) (by omega)]
    rfl
  | case3 a b =>
    have ha := hlt a
    have hb := hlt b
    rw [decodeBase64, charAt_base64 (toNat_shiftRight_two a) (by omega),
      charAt_base64 (toNat_second a b) (by omega), charAt_base64 (toNat_mask_four b) (by omega)]
    rfl
  | case4 a b c rest ih =>
    have ha := hlt a
    have hb := hlt b
    have hc := hlt c
    have hfill : ∀ n, fill 4 (n + 4) = fill 4 n := fun n => by
      rw [fill, fill, Nat.add_mod_right]
    rw [decodeBase64, charAt_base64 (toNat_shiftRight_two a) (by omega),
      charAt_base64 (toNat_second a b) (by omega), charAt_base64 (toNat_third b c) (by omega),
      charAt_base64 (toNat_mask_six c) (by omega), ih]
    simp only [Alphabet.padded, List.map_append, List.length_append, List.append_assoc]
    have hlength : fill base64.unit ([a.toNat / 4, a.toNat % 4 * 16 + b.toNat / 16,
        b.toNat % 16 * 4 + c.toNat / 64, c.toNat % 64].length + (base64Digits rest).length) =
        fill base64.unit (base64Digits rest).length := by
      rw [Nat.add_comm]
      exact hfill _
    rw [hlength]
    rfl

/-- **`BASE64` is Base64.** -/
theorem decodeBase64_eq (data : Str) : decodeBase64 data = base64.encode data := by
  obtain ⟨z, hz, hbits⟩ := pack_base64Digits data
  rw [decodeBase64_padded, encode_eq base64 (digits_base64Digits data) hz hbits]

/-! ### Both renderings -/

theorem length_decodeBase64 (data : Str) :
    (decodeBase64 data).length = 4 * ((data.length + 2) / 3) := by
  fun_induction decodeBase64 data with
  | case1 => rfl
  | case2 =>
    have hpad : (str "==").length = 2 := by decide
    rw [List.length_append, hpad]
    simp only [List.length_cons, List.length_nil]
  | case3 =>
    have hpad : (str "=").length = 1 := by decide
    rw [List.length_append, hpad]
    simp only [List.length_cons, List.length_nil]
  | case4 a b c rest ih =>
    rw [List.length_append, ih]
    simp only [List.length_cons, List.length_nil]
    omega

theorem length_decodeHex (data : Str) : (decodeHex data).length = 2 * data.length := by
  induction data with
  | nil => rfl
  | cons b data ih =>
    rw [decodeHex, List.flatMap_cons, List.length_append, ← decodeHex, ih, List.length_cons]
    simp only [twoDigits, List.length_cons, List.length_nil]
    omega

theorem decodeHex_mem (data : Str) : ∀ ch ∈ decodeHex data, ch ∈ hexChars := by
  intro ch hch
  obtain ⟨b, -, hb⟩ := List.mem_flatMap.mp hch
  have hlt : b.toNat < 2 ^ 8 := b.toNat_lt
  have hletter : ∀ d < 16, base16.letter d ∈ hexChars := fun d hd => letter_mem base16 hd
  have htwo : ch ∈ twoDigits base16.chars b := hb
  rw [twoDigits_eq rfl] at htwo
  simp only [List.mem_cons, List.not_mem_nil, or_false] at htwo
  obtain rfl | rfl := htwo
  · exact hletter _ (by omega)
  · exact hletter _ (by omega)

/-- **`HEX` and `BASE64` are lossless.** `BASE64` writes the padded encoding, `HEX` two digits a byte;
strict decoders read both back, and every canonical text is written for exactly one payload. -/
theorem renderings_lossless :
    (∀ data, decodeBase64 data = base64.encode data ∧
      (decodeBase64 data).length = 4 * ((data.length + 2) / 3) ∧
      base64.Canonical (decodeBase64 data) ∧ base64.decode (decodeBase64 data) = some data) ∧
    (∀ data, (decodeHex data).length = 2 * data.length ∧ (∀ ch ∈ decodeHex data, ch ∈ hexChars) ∧
      base16.decode (decodeHex data) = some data) ∧
    (∀ text, base64.Canonical text → ∃! data, decodeBase64 data = text) ∧
    ∀ text, 2 ∣ text.length → (∀ ch ∈ text, ch ∈ hexChars) → ∃! data, decodeHex data = text := by
  refine ⟨fun data => ⟨decodeBase64_eq data, length_decodeBase64 data, ?_, ?_⟩,
    fun data => ⟨length_decodeHex data, decodeHex_mem data, ?_⟩, fun text h => ?_,
    fun text hlen h => ?_⟩
  · exact (canonical_iff base64).mpr ⟨data, (decodeBase64_eq data).symm⟩
  · exact (decode_eq_some_iff base64).mpr (decodeBase64_eq data).symm
  · exact (decode_eq_some_iff base16).mpr (decodeHex_eq data).symm
  · simpa only [decodeBase64_eq] using existsUnique_of_canonical base64 h
  · have hbytes : 8 ∣ base16.width * text.length := by
      show 8 ∣ 4 * text.length
      omega
    have hcanonical := canonical_of_letters base16 h hlen hbytes
    simpa only [decodeHex_eq] using existsUnique_of_canonical base16 hcanonical

/-- The test strings of the formats. -/
example : base64.decode (str "MTIzNFdYWVo=") = some (str "1234WXYZ") ∧
    decodeBase64 (str "1234WXYZ") = str "MTIzNFdYWVo=" := by decide

end CoapServer.Resources.Lossless
