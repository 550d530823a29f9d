import Mathlib.Algebra.Order.Ring.Nat
import Mathlib.Data.List.GetD
import Mathlib.Data.List.Induction
import Mathlib.Tactic.Common

/-! # Base encodings

A base encoding writes bytes in the letters of an alphabet of `2 ^ width` letters. The bits of the
bytes are one after the other, the highest first; zeros fill them up to a multiple of the width, each
group of that many bits is a letter, and the text is padded to a multiple of a unit. The strict decoder
takes nothing but such texts: `decode_eq_some_iff` says that it is the inverse of the encoder, and
`canonical_iff` which texts there are. -/

namespace CoapServer.Lib.BaseEncoding

/-! ### Bits -/

/-- The `w` lowest bits of a number, the highest of them first. -/
def bits : ℕ → ℕ → List Bool
  | 0, _ => []
  | w + 1, n => bits w (n / 2) ++ [decide (n % 2 = 1)]

/-- The number of bits, the highest first. -/
def ofBits (bs : List Bool) : ℕ := bs.foldl (fun n b => 2 * n + b.toNat) 0

@[simp] theorem length_bits (w n : ℕ) : (bits w n).length = w := by
  induction w generalizing n with
  | zero => rfl
  | succ w ih => rw [bits, List.length_append, ih, List.length_singleton]

theorem ofBits_snoc (bs : List Bool) (b : Bool) : ofBits (bs ++ [b]) = 2 * ofBits bs + b.toNat := by
  rw [ofBits, List.foldl_append]
  rfl

theorem ofBits_bits (w n : ℕ) : ofBits (bits w n) = n % 2 ^ w := by
  induction w generalizing n with
  | zero => rw [Nat.pow_zero, Nat.mod_one]; rfl
  | succ w ih =>
    have hbit : (decide (n % 2 = 1)).toNat = n % 2 := by
      rcases Nat.mod_two_eq_zero_or_one n with h | h <;> rw [h] <;> rfl
    rw [bits, ofBits_snoc, ih, hbit, Nat.pow_succ', Nat.mod_mul]
    omega

theorem bits_ofBits (bs : List Bool) : bits bs.length (ofBits bs) = bs := by
  induction bs using List.reverseRecOn with
  | nil => rfl
  | append_singleton bs b ih =>
    have hdiv : ofBits (bs ++ [b]) / 2 = ofBits bs := by
      rw [ofBits_snoc]
      have : b.toNat < 2 := Bool.toNat_lt b
      omega
    have hmod : decide (ofBits (bs ++ [b]) % 2 = 1) = b := by
      rw [ofBits_snoc]
      cases b <;> simp [Nat.add_mod]
    rw [List.length_append, List.length_singleton, bits, hdiv, hmod, ih]

theorem ofBits_lt (bs : List Bool) : ofBits bs < 2 ^ bs.length := by
  have h := ofBits_bits bs.length (ofBits bs)
  rw [bits_ofBits] at h
  rw [h]
  exact Nat.mod_lt _ (Nat.two_pow_pos _)

/-- Only the lowest bits count. -/
theorem bits_mod (w n : ℕ) : bits w (n % 2 ^ w) = bits w n := by
  have h := bits_ofBits (bits w n)
  rw [length_bits, ofBits_bits] at h
  exact h

/-- **Bits are cut** anywhere. -/
theorem bits_add (u v n : ℕ) : bits (u + v) n = bits u (n / 2 ^ v) ++ bits v n := by
  induction v generalizing n with
  | zero => rw [Nat.pow_zero, Nat.div_one, bits, List.append_nil, Nat.add_zero]
  | succ v ih =>
    rw [← Nat.add_assoc, bits, ih, Nat.div_div_eq_div_mul, ← Nat.pow_succ', bits, List.append_assoc]

@[simp] theorem bits_zero (w : ℕ) : bits w 0 = List.replicate w false := by
  induction w with
  | zero => rfl
  | succ w ih =>
    rw [bits, Nat.zero_div, ih, List.replicate_succ']
    rfl

/-- A number that is shifted ends in zeros. -/
theorem bits_shift (u v n : ℕ) : bits (u + v) (n * 2 ^ v) = bits u n ++ List.replicate v false := by
  rw [bits_add, Nat.mul_div_cancel _ (Nat.two_pow_pos v), ← bits_mod v, Nat.mul_mod_left, bits_zero]

/-! ### Groups of bits -/

/-- **The bits of digits** of `w` bits each. -/
def pack (w : ℕ) (ds : List ℕ) : List Bool := ds.flatMap (bits w)

/-- `n` groups of `w` bits, as digits. -/
def groups (w : ℕ) : ℕ → List Bool → List ℕ
  | 0, _ => []
  | n + 1, bs => ofBits (bs.take w) :: groups w n (bs.drop w)

/-- **The digits of bits**; what does not fill a digit is dropped. -/
def unpack (w : ℕ) (bs : List Bool) : List ℕ := groups w (bs.length / w) bs

/-- Digits of `w` bits. -/
def Digits (w : ℕ) (ds : List ℕ) : Prop := ∀ d ∈ ds, d < 2 ^ w

@[simp] theorem length_pack (w : ℕ) (ds : List ℕ) : (pack w ds).length = w * ds.length := by
  induction ds with
  | nil => rfl
  | cons d ds ih =>
    rw [pack, List.flatMap_cons, List.length_append, length_bits, ← pack, ih, List.length_cons,
      Nat.mul_succ, Nat.add_comm]

theorem digits_groups (w n : ℕ) (bs : List Bool) : Digits w (groups w n bs) := by
  induction n generalizing bs with
  | zero => simp [groups, Digits]
  | succ n ih =>
    intro d hd
    rcases List.mem_cons.mp hd with rfl | hd
    · exact Nat.lt_of_lt_of_le (ofBits_lt _)
        (Nat.pow_le_pow_right (by omega) (List.length_take_le _ _))
    · exact ih _ d hd

theorem pack_append (w : ℕ) (ds ds' : List ℕ) : pack w (ds ++ ds') = pack w ds ++ pack w ds' :=
  List.flatMap_append

theorem groups_pack {w : ℕ} {ds : List ℕ} (h : Digits w ds) (rest : List Bool) :
    groups w ds.length (pack w ds ++ rest) = ds := by
  induction ds with
  | nil => rfl
  | cons d ds ih =>
    have hcut : pack w (d :: ds) ++ rest = bits w d ++ (pack w ds ++ rest) := by
      rw [pack, List.flatMap_cons, List.append_assoc, ← pack]
    have hd : d < 2 ^ w := h d List.mem_cons_self
    rw [hcut, List.length_cons, groups, List.take_left' (length_bits w d),
      List.drop_left' (length_bits w d), ofBits_bits, Nat.mod_eq_of_lt hd,
      ih fun d' hd' => h d' (List.mem_cons_of_mem d hd')]

/-- **Digits are unpacked again**, with less than a digit behind them. -/
theorem unpack_pack {w : ℕ} {ds : List ℕ} (h : Digits w ds) {rest : List Bool}
    (hrest : rest.length < w) : unpack w (pack w ds ++ rest) = ds := by
  have hlen : (pack w ds ++ rest).length / w = ds.length := by
    rw [List.length_append, length_pack, Nat.mul_add_div (by omega), Nat.div_eq_of_lt hrest,
      Nat.add_zero]
  rw [unpack, hlen, groups_pack h]

/-- Digits of the same bits are the same. -/
theorem pack_inj {w : ℕ} (hw : 0 < w) {ds ds' : List ℕ} (h : Digits w ds) (h' : Digits w ds')
    (heq : pack w ds = pack w ds') : ds = ds' := by
  have hrest : ([] : List Bool).length < w := hw
  have hunpack := unpack_pack h hrest
  rw [heq, unpack_pack h' hrest] at hunpack
  exact hunpack.symm

theorem pack_groups {w n : ℕ} {bs : List Bool} (h : w * n ≤ bs.length) :
    pack w (groups w n bs) = bs.take (w * n) := by
  induction n generalizing bs with
  | zero => rw [Nat.mul_zero, List.take_zero]; rfl
  | succ n ih =>
    rw [Nat.mul_succ] at h
    have hdrop : w * n ≤ (bs.drop w).length := by
      rw [List.length_drop]
      omega
    have htake : bits w (ofBits (bs.take w)) = bs.take w := by
      have hbits := bits_ofBits (bs.take w)
      rwa [List.length_take_of_le (by omega)] at hbits
    rw [groups, pack, List.flatMap_cons, ← pack, ih hdrop, htake, Nat.mul_succ, Nat.add_comm,
      List.take_add]

/-- **Bits are packed again**, without those that do not fill a digit. -/
theorem pack_unpack (w : ℕ) (bs : List Bool) :
    pack w (unpack w bs) = bs.take (w * (bs.length / w)) :=
  pack_groups (Nat.mul_div_le _ _)

/-- The bits of digits are those of the number they make. -/
theorem pack_eq_bits {w : ℕ} {ds : List ℕ} (h : Digits w ds) :
    pack w ds = bits (w * ds.length) (ds.foldl (fun n d => n * 2 ^ w + d) 0) := by
  induction ds using List.reverseRecOn with
  | nil => rw [List.length_nil, Nat.mul_zero]; rfl
  | append_singleton ds d ih =>
    have hd : d < 2 ^ w := h d (by simp)
    have hds : Digits w ds := fun d' hd' => h d' (List.mem_append_left _ hd')
    have hdiv : ∀ n : ℕ, (n * 2 ^ w + d) / 2 ^ w = n := fun n => by
      rw [Nat.mul_comm, Nat.mul_add_div (Nat.two_pow_pos w), Nat.div_eq_of_lt hd, Nat.add_zero]
    have hmod : ∀ n : ℕ, bits w (n * 2 ^ w + d) = bits w d := fun n => by
      rw [← bits_mod, Nat.mul_comm, Nat.mul_add_mod, bits_mod]
    rw [pack_append, ih hds, List.length_append, List.length_singleton,
      Nat.mul_succ, List.foldl_append, List.foldl_cons, List.foldl_nil, bits_add, hdiv, hmod, pack,
      List.flatMap_singleton]

/-! ### Alphabets -/

/-- How much is missing to a multiple of `w`. -/
def fill (w n : ℕ) : ℕ := (w - n % w) % w

/-- **An alphabet** of `2 ^ width` letters, and how its texts are padded. -/
structure Alphabet (β : Type*) where
  chars : List β
  width : ℕ
  unit : ℕ
  pad : β
  length_eq : chars.length = 2 ^ width
  nodup : chars.Nodup
  pad_notMem : pad ∉ chars
  width_pos : 0 < width
  width_le : width ≤ 8

section Alphabet
variable {β : Type*} [DecidableEq β] (A : Alphabet β)

/-- The letter of a digit. -/
def Alphabet.letter (d : ℕ) : β := A.chars.getD d A.pad

/-- The digit of a letter. -/
def Alphabet.value (c : β) : Option ℕ := if c ∈ A.chars then some (A.chars.idxOf c) else none

omit [DecidableEq β] in
theorem letter_eq {d : ℕ} (hd : d < 2 ^ A.width) :
    A.letter d = A.chars.get ⟨d, A.length_eq.symm ▸ hd⟩ :=
  List.getD_eq_getElem _ _ _

omit [DecidableEq β] in
theorem letter_mem {d : ℕ} (hd : d < 2 ^ A.width) : A.letter d ∈ A.chars := by
  rw [letter_eq A hd]
  exact List.getElem_mem _

omit [DecidableEq β] in
theorem letter_ne_pad {d : ℕ} (hd : d < 2 ^ A.width) : A.letter d ≠ A.pad := by
  intro h
  exact A.pad_notMem (h ▸ letter_mem A hd)

theorem value_letter {d : ℕ} (hd : d < 2 ^ A.width) : A.value (A.letter d) = some d := by
  rw [Alphabet.value, if_pos (letter_mem A hd), letter_eq A hd, List.get_eq_getElem,
    A.nodup.idxOf_getElem]

theorem letter_value {c : β} {d : ℕ} (h : A.value c = some d) :
    d < 2 ^ A.width ∧ A.letter d = c := by
  unfold Alphabet.value at h
  split_ifs at h with hc
  obtain rfl := Option.some.inj h
  have hlt : A.chars.idxOf c < 2 ^ A.width := by
    rw [← A.length_eq]
    exact List.idxOf_lt_length_of_mem hc
  exact ⟨hlt, by rw [letter_eq A hlt, List.get_eq_getElem, List.getElem_idxOf]⟩

/-- The letters of digits are read as such. -/
theorem mapM_letter {ds : List ℕ} (h : Digits A.width ds) :
    (ds.map A.letter).mapM A.value = some ds := by
  induction ds with
  | nil => rfl
  | cons d ds ih =>
    rw [List.map_cons, List.mapM_cons, value_letter A (h d List.mem_cons_self),
      ih fun d' hd' => h d' (List.mem_cons_of_mem d hd')]
    rfl

/-- What is read are the letters of digits. -/
theorem letter_mapM {text : List β} {ds : List ℕ} (h : text.mapM A.value = some ds) :
    Digits A.width ds ∧ ds.map A.letter = text := by
  induction text generalizing ds with
  | nil =>
    obtain rfl := Option.some.inj h
    exact ⟨by simp [Digits], rfl⟩
  | cons c text ih =>
    rw [List.mapM_cons] at h
    obtain ⟨d, hd, h⟩ := Option.bind_eq_some_iff.mp h
    obtain ⟨ds', hds, h⟩ := Option.bind_eq_some_iff.mp h
    obtain rfl := Option.some.inj h
    obtain ⟨hlt, hc⟩ := letter_value A hd
    obtain ⟨hdigits, htext⟩ := ih hds
    refine ⟨fun d' hd' => ?_, by rw [List.map_cons, hc, htext]⟩
    rcases List.mem_cons.mp hd' with rfl | hd'
    · exact hlt
    · exact hdigits d' hd'

/-! ### The encoder and the strict decoder -/

/-- The bits of bytes. -/
def byteBits (data : List UInt8) : List Bool := pack 8 (data.map UInt8.toNat)

/-- The digits of a text with its padding. -/
def Alphabet.padded (ds : List ℕ) : List β :=
  ds.map A.letter ++ List.replicate (fill A.unit ds.length) A.pad

/-- **The encoding of bytes.** -/
def Alphabet.encode (data : List UInt8) : List β :=
  A.padded (unpack A.width (byteBits data ++
    List.replicate (fill A.width (byteBits data).length) false))

/-- The bits that do not fill a byte are fewer than a digit, and zeros. -/
def Unused (w : ℕ) (bs : List Bool) : Prop :=
  (bs.drop (8 * (bs.length / 8))).length < w ∧ ∀ b ∈ bs.drop (8 * (bs.length / 8)), b = false

instance (w : ℕ) (bs : List Bool) : Decidable (Unused w bs) := by
  unfold Unused
  infer_instance

/-- **The strict decoder**: all letters are of the alphabet, there is as much padding as the text
needs, at its end, and no bit is used that is not one of a byte. -/
def Alphabet.decode (text : List β) : Option (List UInt8) :=
  match (text.takeWhile (· ≠ A.pad)).mapM A.value with
  | none => none
  | some ds =>
    if text.dropWhile (· ≠ A.pad) = List.replicate (fill A.unit ds.length) A.pad ∧
        Unused A.width (pack A.width ds) then
      some ((unpack 8 (pack A.width ds)).map UInt8.ofNat)
    else none

/-- **A canonical text**: letters, and as much padding as they need, with no bit that is not one of a
byte. -/
def Alphabet.Canonical (text : List β) : Prop :=
  ∃ ds, Digits A.width ds ∧ text = A.padded ds ∧ Unused A.width (pack A.width ds)

/-! ### What the encoder writes -/

theorem fill_lt {w : ℕ} (hw : 0 < w) (n : ℕ) : fill w n < w := Nat.mod_lt _ hw

theorem dvd_add_fill {w : ℕ} (hw : 0 < w) (n : ℕ) : w ∣ n + fill w n := by
  have hlt := Nat.mod_lt n hw
  have hsum : (n + fill w n) % w = 0 := by
    rw [fill, Nat.add_mod_mod, Nat.add_mod_eq_add_mod_right _ (Nat.mod_mod n w).symm,
      show n % w + (w - n % w) = w by omega, Nat.mod_self]
  exact Nat.dvd_of_mod_eq_zero hsum

@[simp] theorem length_byteBits (data : List UInt8) : (byteBits data).length = 8 * data.length := by
  rw [byteBits, length_pack, List.length_map]

theorem digits_bytes (data : List UInt8) : Digits 8 (data.map UInt8.toNat) := by
  intro d hd
  obtain ⟨b, -, rfl⟩ := List.mem_map.mp hd
  exact b.toNat_lt

omit [DecidableEq β] in
/-- **The bits of the encoding** are those of the bytes, and zeros. -/
theorem encode_spec (data : List UInt8) : ∃ ds z, Digits A.width ds ∧ z < A.width ∧
    A.encode data = A.padded ds ∧ pack A.width ds = byteBits data ++ List.replicate z false := by
  refine ⟨_, fill A.width (byteBits data).length, digits_groups _ _ _, fill_lt A.width_pos _, rfl, ?_⟩
  rw [← unpack, pack_unpack, List.take_of_length_le]
  obtain ⟨n, hn⟩ := dvd_add_fill A.width_pos (byteBits data).length
  rw [List.length_append, List.length_replicate, hn, Nat.mul_div_cancel_left _ A.width_pos]

omit [DecidableEq β] in
/-- What the encoder writes are letters and the padding. -/
theorem encode_mem (data : List UInt8) : ∀ c ∈ A.encode data, c ∈ A.pad :: A.chars := by
  obtain ⟨ds, -, hds, -, hencode, -⟩ := encode_spec A data
  intro c hc
  rw [hencode, Alphabet.padded] at hc
  rcases List.mem_append.mp hc with hc | hc
  · obtain ⟨d, hd, rfl⟩ := List.mem_map.mp hc
    exact List.mem_cons_of_mem _ (letter_mem A (hds d hd))
  · exact List.mem_cons.mpr (Or.inl (List.eq_of_mem_replicate hc))

omit [DecidableEq β] in
/-- There is one encoding. -/
theorem encode_eq {data : List UInt8} {ds : List ℕ} {z : ℕ} (hds : Digits A.width ds)
    (hz : z < A.width) (hbits : pack A.width ds = byteBits data ++ List.replicate z false) :
    A.encode data = A.padded ds := by
  obtain ⟨ds', z', hds', hz', hencode, hbits'⟩ := encode_spec A data
  have hlen := congrArg List.length hbits
  have hlen' := congrArg List.length hbits'
  rw [length_pack, List.length_append, List.length_replicate] at hlen hlen'
  have hzz : z = z' := by
    have h := congrArg (· % A.width)
      (show A.width * ds.length + z' = A.width * ds'.length + z by omega)
    simpa [Nat.mul_add_mod, Nat.mod_eq_of_lt hz, Nat.mod_eq_of_lt hz'] using h.symm
  subst hzz
  have hpack : pack A.width ds = pack A.width ds' := hbits.trans hbits'.symm
  rw [hencode, pack_inj A.width_pos hds hds' hpack]

omit [DecidableEq β] in
/-- Bits of bytes, and fewer zeros than a digit has. -/
theorem unused_append {w : ℕ} (hw : w ≤ 8) (data : List UInt8) {z : ℕ} (hz : z < w) :
    Unused w (byteBits data ++ List.replicate z false) := by
  have hdrop : (byteBits data ++ List.replicate z false).drop
      (8 * ((byteBits data ++ List.replicate z false).length / 8)) = List.replicate z false := by
    rw [List.length_append, length_byteBits, List.length_replicate, Nat.mul_add_div (by omega),
      Nat.div_eq_of_lt (by omega), Nat.add_zero, ← length_byteBits, List.drop_left]
  rw [Unused, hdrop, List.length_replicate]
  exact ⟨hz, fun b hb => List.eq_of_mem_replicate hb⟩

omit [DecidableEq β] in
/-- Bits of which none is used that is not one of a byte. -/
theorem bits_of_unused {w : ℕ} {bs : List Bool} (h : Unused w bs) : ∃ z < w,
    bs = byteBits ((unpack 8 bs).map UInt8.ofNat) ++ List.replicate z false := by
  obtain ⟨hlt, hzero⟩ := h
  have hbytes : ((unpack 8 bs).map UInt8.ofNat).map UInt8.toNat = unpack 8 bs := by
    rw [List.map_map]
    refine (List.map_congr_left fun d hd => ?_).trans (List.map_id _)
    exact UInt8.toNat_ofNat_of_lt' (digits_groups 8 _ _ d hd)
  refine ⟨_, hlt, ?_⟩
  rw [byteBits, hbytes, pack_unpack, ← List.eq_replicate_of_mem hzero, List.take_append_drop]

/-! ### What the decoder accepts -/

/-- The decoder on the digits of a text. -/
theorem decode_padded {ds : List ℕ} (hds : Digits A.width ds) : A.decode (A.padded ds) =
    if Unused A.width (pack A.width ds) then some ((unpack 8 (pack A.width ds)).map UInt8.ofNat)
    else none := by
  have hletters : ∀ c ∈ ds.map A.letter, decide (c ≠ A.pad) = true := by
    intro c hc
    obtain ⟨d, hd, rfl⟩ := List.mem_map.mp hc
    exact decide_eq_true (letter_ne_pad A (hds d hd))
  have htake : (A.padded ds).takeWhile (· ≠ A.pad) = ds.map A.letter := by
    rw [Alphabet.padded, List.takeWhile_append_of_pos hletters, List.takeWhile_replicate]
    simp
  have hdrop : (A.padded ds).dropWhile (· ≠ A.pad) =
      List.replicate (fill A.unit ds.length) A.pad := by
    rw [Alphabet.padded, List.dropWhile_append_of_pos hletters, List.dropWhile_replicate]
    simp
  simp only [Alphabet.decode, htake, hdrop, mapM_letter A hds, true_and]

/-- **The strict decoder is the inverse of the encoder**, and takes nothing else. -/
theorem decode_eq_some_iff {text : List β} {data : List UInt8} :
    A.decode text = some data ↔ A.encode data = text := by
  constructor
  · intro h
    unfold Alphabet.decode at h
    cases hm : (text.takeWhile (· ≠ A.pad)).mapM A.value with
    | none =>
      rw [hm] at h
      cases h
    | some ds =>
      simp only [hm] at h
      split_ifs at h with hpad
      obtain ⟨hpad, hunused⟩ := hpad
      obtain ⟨hds, hletters⟩ := letter_mapM A hm
      obtain rfl := Option.some.inj h
      obtain ⟨z, hz, hbits⟩ := bits_of_unused hunused
      rw [encode_eq A hds hz hbits, Alphabet.padded, hletters, ← hpad,
        List.takeWhile_append_dropWhile]
  · rintro rfl
    obtain ⟨ds, z, hds, hz, hencode, hbits⟩ := encode_spec A data
    have hbytes : unpack 8 (pack A.width ds) = data.map UInt8.toNat := by
      have hwidth := A.width_le
      rw [hbits]
      exact unpack_pack (digits_bytes data) (by rw [List.length_replicate]; omega)
    rw [hencode, decode_padded A hds, if_pos (hbits ▸ unused_append A.width_le data hz), hbytes,
      List.map_map]
    exact congrArg some ((List.map_congr_left fun b _ => UInt8.ofNat_toNat).trans (List.map_id _))

/-- **The canonical texts** are the encodings. -/
theorem canonical_iff {text : List β} : A.Canonical text ↔ ∃ data, A.encode data = text := by
  constructor
  · rintro ⟨ds, hds, rfl, hunused⟩
    exact ⟨_, (decode_eq_some_iff A).mp ((decode_padded A hds).trans (if_pos hunused))⟩
  · rintro ⟨data, rfl⟩
    obtain ⟨ds, z, hds, hz, hencode, hbits⟩ := encode_spec A data
    exact ⟨ds, hds, hencode, hbits ▸ unused_append A.width_le data hz⟩

/-- A canonical text encodes one sequence of bytes. -/
theorem existsUnique_of_canonical {text : List β} (h : A.Canonical text) :
    ∃! data, A.encode data = text := by
  obtain ⟨data, hdata⟩ := (canonical_iff A).mp h
  refine ⟨data, hdata, fun data' hdata' => ?_⟩
  have hdecode := (decode_eq_some_iff A).mpr hdata
  rw [(decode_eq_some_iff A).mpr hdata'] at hdecode
  exact Option.some.inj hdecode

/-- Letters that make whole bytes, and need no padding, are canonical. -/
theorem canonical_of_letters {text : List β} (h : ∀ c ∈ text, c ∈ A.chars)
    (hunit : A.unit ∣ text.length) (hbytes : 8 ∣ A.width * text.length) : A.Canonical text := by
  have hvalue : ∀ c ∈ text, A.value c = some (A.chars.idxOf c) := fun c hc => if_pos (h c hc)
  have hfill : fill A.unit text.length = 0 := by
    rw [fill, Nat.mod_eq_zero_of_dvd hunit, Nat.sub_zero, Nat.mod_self]
  refine ⟨text.map A.chars.idxOf, fun d hd => ?_, ?_, ?_⟩
  · obtain ⟨c, hc, rfl⟩ := List.mem_map.mp hd
    exact (letter_value A (hvalue c hc)).1
  · have hletters : (text.map A.chars.idxOf).map A.letter = text := by
      rw [List.map_map]
      refine (List.map_congr_left fun c hc => ?_).trans (List.map_id _)
      exact (letter_value A (hvalue c hc)).2
    rw [Alphabet.padded, hletters, List.length_map, hfill, List.replicate_zero, List.append_nil]
  · have hdrop : ∀ bs : List Bool, 8 ∣ bs.length → bs.drop (8 * (bs.length / 8)) = [] :=
      fun bs hbs => by rw [Nat.mul_div_cancel' hbs, List.drop_length]
    rw [Unused, hdrop _ (by rw [length_pack, List.length_map]; exact hbytes)]
    exact ⟨A.width_pos, by simp⟩

end Alphabet

end CoapServer.Lib.BaseEncoding
