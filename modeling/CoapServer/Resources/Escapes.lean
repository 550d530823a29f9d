import CoapServer.Resources.Lossless

/-! # What `STRING` tells apart

`ResourceFormatterText` writes printable characters as they are and `\xhh` for the others. The
backslash is printable, so a payload that spells out an escape looks like the byte it stands for:
two payloads have the same text if and only if they are the same once their escapes are read, and
only a plain payload has a text of its own (`text_identifies_iff`). -/

namespace CoapServer.Resources.Escapes

open CoapServer.Basic CoapServer.Lib.BaseEncoding CoapServer.Resources.Formatter
open CoapServer.Resources.Lossless

/-- The lower-case hexadecimal digits, as an alphabet. -/
def lowerHex : Alphabet Byte where
  chars := str "0123456789abcdef"
  width := 4
  unit := 2
  pad := equals
  length_eq := by decide
  nodup := by decide
  pad_notMem := by decide
  width_pos := base16.width_pos
  width_le := base16.width_le

/-- **The escape** of a byte. -/
def escape (b : Byte) : Str := str "\\x" ++ twoDigits lowerHex.chars b

/-- The byte of two digits, where it is not printable. -/
def hexByte (h l : Byte) : Option Byte := do
  let x ← lowerHex.value h
  let y ← lowerHex.value l
  if isPrint (UInt8.ofNat (16 * x + y)) then none else some (UInt8.ofNat (16 * x + y))

/-- The byte that is escaped where a text begins with `c` and goes on with `t`. -/
def escapeByte (c : Byte) : Str → Option Byte
  | x :: h :: l :: _ => if c = 0x5c ∧ x = 0x78 then hexByte h l else none
  | _ => none

/-- **A payload with its escapes read** as the bytes they stand for. -/
def readEscapes : Str → Str
  | [] => []
  | c :: t =>
    match escapeByte c t with
    | some b => b :: readEscapes (t.drop 3)
    | none => c :: readEscapes t
termination_by t => t.length
decreasing_by
  · simp only [List.length_drop, List.length_cons]
    omega
  · exact Nat.lt_succ_self _

/-! ### One escape -/

theorem hexByte_eq_some_iff {h l b : Byte} : hexByte h l = some b ↔
    isPrint b = false ∧ twoDigits lowerHex.chars b = [h, l] := by
  have hdigits := twoDigits_eq (A := lowerHex) rfl b
  constructor
  · intro hread
    obtain ⟨x, hx, htail⟩ := Option.bind_eq_some_iff.mp hread
    obtain ⟨y, hy, hbyte⟩ := Option.bind_eq_some_iff.mp htail
    obtain ⟨hxlt, rfl⟩ := letter_value lowerHex hx
    obtain ⟨hylt, rfl⟩ := letter_value lowerHex hy
    clear hread htail
    split_ifs at hbyte with hprint
    obtain rfl := Option.some.inj hbyte
    have hx16 : x < 16 := hxlt
    have hy16 : y < 16 := hylt
    have hnat : (UInt8.ofNat (16 * x + y)).toNat = 16 * x + y :=
      UInt8.toNat_ofNat_of_lt' (by simp only [UInt8.size]; omega)
    rw [hnat, show (16 * x + y) / 16 = x by omega, show (16 * x + y) % 16 = y by omega] at hdigits
    exact ⟨by simpa using hprint, hdigits⟩
  · rintro ⟨hprint, htwo⟩
    have hlt : b.toNat < 2 ^ 8 := b.toNat_lt
    rw [hdigits] at htwo
    obtain ⟨rfl, hl⟩ := List.cons_eq_cons.mp htwo
    obtain ⟨rfl, -⟩ := List.cons_eq_cons.mp hl
    have hhigh : lowerHex.value (lowerHex.letter (b.toNat / 16)) = some (b.toNat / 16) :=
      value_letter lowerHex (by show b.toNat / 16 < 16; omega)
    have hlow : lowerHex.value (lowerHex.letter (b.toNat % 16)) = some (b.toNat % 16) :=
      value_letter lowerHex (by show b.toNat % 16 < 16; omega)
    have hbyte : UInt8.ofNat (16 * (b.toNat / 16) + b.toNat % 16) = b := by
      rw [Nat.div_add_mod, UInt8.ofNat_toNat]
    rw [hexByte, hhigh, hlow]
    show (if isPrint (UInt8.ofNat (16 * (b.toNat / 16) + b.toNat % 16)) then none else
      some (UInt8.ofNat (16 * (b.toNat / 16) + b.toNat % 16))) = some b
    rw [hbyte, hprint]
    rfl

theorem escape_eq (b : Byte) : ∃ h l, escape b = [0x5c, 0x78, h, l] ∧
    twoDigits lowerHex.chars b = [h, l] := ⟨_, _, rfl, rfl⟩

theorem escapeByte_cons (c x h l : Byte) (t : Str) : escapeByte c (x :: h :: l :: t) =
    if c = 0x5c ∧ x = 0x78 then hexByte h l else none := rfl

/-- **Where an escape begins.** -/
theorem escapeByte_eq_some_iff {c b : Byte} {t : Str} : escapeByte c t = some b ↔
    isPrint b = false ∧ c :: t = escape b ++ t.drop 3 := by
  obtain ⟨h, l, hescape, htwo⟩ := escape_eq b
  rw [hescape]
  constructor
  · intro hbyte
    unfold escapeByte at hbyte
    split at hbyte
    · split_ifs at hbyte with hstart
      obtain ⟨rfl, rfl⟩ := hstart
      obtain ⟨hprint, htwo'⟩ := hexByte_eq_some_iff.mp hbyte
      rw [htwo] at htwo'
      obtain ⟨rfl, hl⟩ := List.cons_eq_cons.mp htwo'
      obtain ⟨rfl, -⟩ := List.cons_eq_cons.mp hl
      exact ⟨hprint, rfl⟩
    · cases hbyte
  · rintro ⟨hprint, htext⟩
    obtain ⟨rfl, htail⟩ := List.cons_eq_cons.mp htext
    rw [htail]
    show escapeByte 0x5c (0x78 :: h :: l :: t.drop 3) = some b
    rw [escapeByte_cons, if_pos ⟨rfl, rfl⟩]
    exact hexByte_eq_some_iff.mpr ⟨hprint, htwo⟩

theorem readEscapes_escape {b : Byte} (hprint : isPrint b = false) (u : Str) :
    readEscapes (escape b ++ u) = b :: readEscapes u := by
  obtain ⟨h, l, hescape, -⟩ := escape_eq b
  have hbyte : escapeByte 0x5c (0x78 :: h :: l :: u) = some b :=
    escapeByte_eq_some_iff.mpr ⟨hprint, by rw [hescape]; rfl⟩
  rw [hescape]
  show readEscapes (0x5c :: 0x78 :: h :: l :: u) = b :: readEscapes u
  rw [readEscapes, hbyte]
  rfl

/-! ### Reading a rendering -/

theorem decodeText_cons (c : Byte) (t : Str) :
    decodeText (c :: t) = (if isPrint c then [c] else escape c) ++ decodeText t := rfl

theorem escape_printable (b : Byte) : ∀ ch ∈ escape b, isPrint ch := by
  intro ch hch
  rcases List.mem_append.mp hch with hch | hch
  · exact List.all_eq_true.mp (by decide : (str "\\x").all isPrint) ch hch
  · exact twoDigits_printable (List.all_eq_true.mp (by decide)) b ch hch

/-- Printable characters are written as they are. -/
theorem decodeText_of_printable {p : Str} (hp : ∀ ch ∈ p, isPrint ch) (u : Str) :
    decodeText (p ++ u) = p ++ decodeText u := by
  induction p with
  | nil => rfl
  | cons c p ih =>
    rw [List.cons_append, decodeText_cons, if_pos (hp c List.mem_cons_self),
      ih fun ch hch => hp ch (List.mem_cons_of_mem c hch)]
    rfl

theorem decodeText_escape (b : Byte) (u : Str) :
    decodeText (escape b ++ u) = escape b ++ decodeText u :=
  decodeText_of_printable (escape_printable b) u

/-- **The texts that are their own payloads**: only `STRING` writes a payload as it is. -/
theorem decode_eq_self_iff (fmt : Format) (data : Str) :
    fmt.decode data = data ↔ data = [] ∨ fmt = .text ∧ ∀ ch ∈ data, isPrint ch := by
  constructor
  · intro h
    cases fmt with
    | text =>
      have hprint := decodeText_printable data
      rw [show decodeText data = data from h] at hprint
      exact Or.inr ⟨rfl, hprint⟩
    | hex =>
      have hlength := length_decodeHex data
      rw [show decodeHex data = data from h] at hlength
      exact Or.inl (List.length_eq_zero_iff.mp (by omega))
    | base64 =>
      have hlength := length_decodeBase64 data
      rw [show decodeBase64 data = data from h] at hlength
      exact Or.inl (List.length_eq_zero_iff.mp (by omega))
  · rintro (rfl | ⟨rfl, hprint⟩)
    · cases fmt with
      | text => rfl
      | hex => rfl
      | base64 => exact decodeBase64.eq_1
    · have hself := decodeText_of_printable hprint []
      rw [List.append_nil] at hself
      exact hself.trans (List.append_nil data)

/-- A character of a rendering that begins no escape is one of the payload. -/
theorem of_decodeText_cons {t u : Str} {d : Byte} (h : decodeText t = d :: u) (hd : d ≠ 0x5c) :
    ∃ t', t = d :: t' ∧ u = decodeText t' := by
  cases t with
  | nil => cases h
  | cons c t =>
    rw [decodeText_cons] at h
    split_ifs at h with hprint
    · obtain ⟨rfl, rfl⟩ := List.cons_eq_cons.mp h
      exact ⟨t, rfl, rfl⟩
    · exact absurd (List.cons_eq_cons.mp h).1.symm hd

/-- Reading the escapes leaves the rendering as it is. -/
theorem decodeText_readEscapes (x : Str) : decodeText (readEscapes x) = decodeText x := by
  fun_induction readEscapes x with
  | case1 => rfl
  | case2 c t b hb ih =>
    obtain ⟨hprint, htext⟩ := escapeByte_eq_some_iff.mp hb
    rw [htext, decodeText_escape, decodeText_cons, if_neg (by simp [hprint]), ih]
  | case3 c t hnone ih => rw [decodeText_cons, decodeText_cons, ih]

/-- No digit is a backslash. -/
theorem digits_ne {b h l : Byte} (htwo : twoDigits lowerHex.chars b = [h, l]) :
    h ≠ 0x5c ∧ l ≠ 0x5c := by
  have hlt : b.toNat < 2 ^ 8 := b.toNat_lt
  have hletters : [lowerHex.letter (b.toNat / 16), lowerHex.letter (b.toNat % 16)] = [h, l] :=
    (twoDigits_eq (A := lowerHex) rfl b).symm.trans htwo
  obtain ⟨rfl, hl⟩ := List.cons_eq_cons.mp hletters
  obtain ⟨rfl, -⟩ := List.cons_eq_cons.mp hl
  have hne : ∀ ch ∈ lowerHex.chars, ch ≠ 0x5c := by
    rintro _ hch rfl
    revert hch
    decide
  exact ⟨hne _ (letter_mem lowerHex (by show b.toNat / 16 < 16; omega)),
    hne _ (letter_mem lowerHex (by show b.toNat % 16 < 16; omega))⟩

/-- An escape that begins with a character of the payload is an escape of the payload. -/
theorem escapeByte_decodeText {c b : Byte} {t : Str} (h : escapeByte c (decodeText t) = some b) :
    escapeByte c t = some b := by
  obtain ⟨hprint, htext⟩ := escapeByte_eq_some_iff.mp h
  obtain ⟨x, l, hescape, htwo⟩ := escape_eq b
  obtain ⟨hx, hl⟩ := digits_ne htwo
  rw [hescape] at htext
  obtain ⟨rfl, htail⟩ := List.cons_eq_cons.mp htext
  obtain ⟨t₁, rfl, h₁⟩ := of_decodeText_cons htail (by decide)
  obtain ⟨t₂, rfl, h₂⟩ := of_decodeText_cons h₁.symm hx
  obtain ⟨t₃, rfl, -⟩ := of_decodeText_cons h₂.symm hl
  exact escapeByte_eq_some_iff.mpr ⟨hprint, by rw [hescape]; rfl⟩

/-- The escapes of a rendering are those of the payload, and those of its bytes. -/
theorem readEscapes_decodeText (x : Str) : readEscapes (decodeText x) = readEscapes x := by
  fun_induction readEscapes x with
  | case1 => exact readEscapes.eq_1
  | case2 c t b hb ih =>
    obtain ⟨hprint, htext⟩ := escapeByte_eq_some_iff.mp hb
    rw [htext, decodeText_escape, readEscapes_escape hprint, ih]
  | case3 c t hnone ih =>
    rw [decodeText_cons]
    split_ifs with hprint
    · have hc : escapeByte c (decodeText t) = none := by
        by_contra hsome
        obtain ⟨b, hb⟩ := Option.ne_none_iff_exists'.mp hsome
        rw [escapeByte_decodeText hb] at hnone
        cases hnone
      show readEscapes (c :: decodeText t) = _
      rw [readEscapes, hc, ih]
    · rw [readEscapes_escape (by simpa using hprint), ih]

/-- **Two payloads have the same text** if and only if they read the same. -/
theorem decodeText_eq_iff {x y : Str} :
    decodeText x = decodeText y ↔ readEscapes x = readEscapes y := by
  constructor
  · intro h
    rw [← readEscapes_decodeText x, h, readEscapes_decodeText]
  · intro h
    rw [← decodeText_readEscapes x, h, decodeText_readEscapes]

/-! ### The payloads that their text identifies -/

/-- **A plain payload**: printable, and spelling out no escape. -/
def Plain (x : Str) : Prop :=
  (∀ ch ∈ x, isPrint ch) ∧ ∀ p b u, x = p ++ escape b ++ u → isPrint b

/-- A plain payload is what it reads. -/
theorem readEscapes_of_plain {x : Str} (h : Plain x) : readEscapes x = x := by
  fun_induction readEscapes x with
  | case1 => rfl
  | case2 c t b hb =>
    obtain ⟨hprint, htext⟩ := escapeByte_eq_some_iff.mp hb
    rw [h.2 [] b _ htext] at hprint
    cases hprint
  | case3 c t hnone ih =>
    have ht : Plain t := ⟨fun ch hch => h.1 ch (List.mem_cons_of_mem c hch),
      fun p b u hsplit => h.2 (c :: p) b u (by rw [hsplit]; rfl)⟩
    rw [ih ht]

/-- A payload that reads as a printable one is that one. -/
theorem eq_of_readEscapes {x y : Str} (hy : ∀ ch ∈ y, isPrint ch) (h : readEscapes x = y) :
    x = y := by
  fun_induction readEscapes x generalizing y with
  | case1 => exact h
  | case2 c t b hb =>
    obtain ⟨hprint, -⟩ := escapeByte_eq_some_iff.mp hb
    rw [hy b (h ▸ List.mem_cons_self)] at hprint
    cases hprint
  | case3 c t hnone ih =>
    rw [← h, ← ih (fun ch hch => hy ch (h ▸ List.mem_cons_of_mem c hch)) rfl]

/-- **The text of a payload is its own** if and only if the payload is plain: an unprintable byte is
confused with its escape, and an escape that is spelled out with the byte. -/
theorem identified_iff_plain (x : Str) : (∀ y, decodeText x = decodeText y → x = y) ↔ Plain x := by
  constructor
  · intro hown
    constructor
    · -- the rendering itself, which is printable, has the same text
      have hx : x = decodeText x := by
        exact hown _ ((decode_eq_self_iff .text _).mpr (Or.inr ⟨rfl, decodeText_printable x⟩)).symm
      rw [hx]
      exact decodeText_printable x
    · intro p b u hsplit
      by_contra hprint
      have hsame : decodeText x = decodeText (p ++ [b] ++ u) := by
        have happ : ∀ v w, decodeText (v ++ w) = decodeText v ++ decodeText w := fun v w =>
          List.flatMap_append
        rw [hsplit, List.append_assoc, List.append_assoc, happ, happ p, decodeText_escape]
        show _ = _ ++ decodeText (b :: u)
        rw [decodeText_cons, if_neg hprint]
      have hlength := congrArg List.length (hsplit.symm.trans (hown _ hsame))
      obtain ⟨h, l, hescape, -⟩ := escape_eq b
      rw [hescape] at hlength
      simp at hlength
      omega
  · intro hplain y hsame
    have hread : readEscapes y = x :=
      (decodeText_eq_iff.mp hsame).symm.trans (readEscapes_of_plain hplain)
    exact (eq_of_readEscapes hplain.1 hread).symm

/-- **What the text of a payload tells.** Two payloads are told apart if and only if they differ
once their escapes are read; one is told apart from every other if and only if it is plain. -/
theorem text_identifies_iff (x : Str) :
    (∀ y, (decodeText x = decodeText y → x = y) ↔ (readEscapes x = readEscapes y → x = y)) ∧
    ((∀ y, decodeText x = decodeText y → x = y) ↔ Plain x) :=
  ⟨fun _ => by rw [decodeText_eq_iff], identified_iff_plain x⟩

/-- A byte of zero, and the four characters `\x00`. -/
theorem text_confuses : ¬ ∀ x y, decodeText x = decodeText y → x = y :=
  fun h => absurd (h [0] (str "\\x00") (by decide)) (by decide)

end CoapServer.Resources.Escapes
