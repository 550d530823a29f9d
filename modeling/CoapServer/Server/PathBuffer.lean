import CoapServer.Server.Requests

/-! # The buffer of the path

The `GET` branch of `methodHandler` copies the path into a buffer of 256 bytes with `strncpy`, which
writes 255 bytes and no zero after them, and adds as many bytes to the response as `strlen` counts.
The last byte of the buffer is never written, so where the path has 255 bytes or more the string in
the buffer only ends if that byte happens to be zero (`path_sent_iff`); where it does not, the bytes
that follow on the stack are sent (`copied_leaks`). -/

namespace CoapServer.Server.PathBuffer

open CoapServer.Basic CoapServer.Resources.Object CoapServer.Server.World
open CoapServer.Server.Requests

/-- `uint8_t buf[256]`. -/
abbrev Buffer := Vector Byte 256

/-- `strncpy(buf, s, n)`: the bytes of the string and then zeros, `n` in all. -/
def strncpy (buf : Buffer) (s : Str) (n : ℕ) : Buffer :=
  Vector.ofFn fun i => if i < n then (cStr s).getD i 0 else buf[i]

/-- `strlen(buf)`, where the scan meets a zero in the buffer. -/
def strlen (buf : Buffer) : Option ℕ :=
  if 0 ∈ buf.toList then some (cStr buf.toList).length else none

/-- **The path is terminated and sent**: the scan ends in the buffer, and whatever follows on the
stack, the options of the response begin with the first 255 bytes of the path. -/
def SendsPath (r : Resource) (buf : Buffer) : Prop :=
  (∃ n, strlen (strncpy buf r.getPath 255) = some n) ∧ ∀ now beyond resp,
    (contentResponse r ⟨now, buf[255] :: beyond⟩ resp).options = resp.options ++
      [(.uriPath, r.getPath.take 255), (.contentFormat, encodeVar textPlain),
        (.maxAge, encodeVar r.getMaxAge)]

/-! ### What is in the buffer -/

/-- The zeros that `strncpy` writes after the bytes of the string. -/
def padding (s : Str) : Str := List.replicate (255 - ((cStr s).take 255).length) 0

/-- **The bytes of the buffer** after the copy. -/
theorem toList_strncpy (buf : Buffer) (s : Str) :
    (strncpy buf s 255).toList = (cStr s).take 255 ++ padding s ++ [buf[255]] := by
  have hlen : ((cStr s).take 255 ++ padding s).length = 255 := by
    simp only [padding, List.length_append, List.length_replicate, List.length_take]
    omega
  have hall : (strncpy buf s 255).toList.length =
      ((cStr s).take 255 ++ padding s ++ [buf[255]]).length := by
    rw [List.length_append, hlen, Vector.length_toList]
    rfl
  refine List.ext_getElem hall fun i hi hi' => ?_
  rw [Vector.length_toList] at hi
  simp only [strncpy, Vector.getElem_toList, Vector.getElem_ofFn]
  by_cases hlt : i < 255
  · rw [if_pos hlt, List.getElem_append_left (by omega)]
    by_cases hin : i < (cStr s).length
    · rw [List.getElem_append_left (by rw [List.length_take]; omega), List.getElem_take,
        List.getD_eq_getElem _ _ hin]
    · rw [List.getElem_append_right (by rw [List.length_take]; omega),
        List.getD_eq_default _ _ (by omega)]
      simp [padding]
  · obtain rfl : i = 255 := by omega
    rw [if_neg hlt, List.getElem_append_right (by omega)]
    simp only [hlen, Nat.sub_self, List.getElem_cons_zero]
    rfl

section Copy
variable {buf : Buffer} {s : Str}

/-- What is sent is read from the buffer, and on behind it. -/
theorem copied_eq (buf : Buffer) (s beyond : Str) :
    copied s (buf[255] :: beyond) = cStr ((strncpy buf s 255).toList ++ beyond) := by
  rw [toList_strncpy, List.append_assoc _ [buf[255]]]
  rfl

theorem zero_notMem_take (s : Str) : 0 ∉ (cStr s).take 255 :=
  fun h => zero_notMem_cStr s (List.mem_of_mem_take h)

/-- A zero is written unless the string fills the 255 bytes. -/
theorem padding_eq_cons (h : (cStr s).length < 255) : ∃ n, padding s = 0 :: List.replicate n 0 := by
  refine ⟨254 - (cStr s).length, ?_⟩
  rw [padding, List.take_of_length_le h.le, ← List.replicate_succ]
  congr 1
  omega

theorem padding_eq_nil (h : 255 ≤ (cStr s).length) : padding s = [] := by
  rw [padding, List.length_take, Nat.min_eq_left h]
  rfl

/-- **Where the scan ends.** -/
theorem strlen_isSome_iff : (∃ n, strlen (strncpy buf s 255) = some n) ↔
    (cStr s).length < 255 ∨ buf[255] = 0 := by
  have hzero : 0 ∈ (strncpy buf s 255).toList ↔ (cStr s).length < 255 ∨ buf[255] = 0 := by
    rw [toList_strncpy, List.append_assoc, List.mem_append, or_iff_right (zero_notMem_take s)]
    by_cases hlen : (cStr s).length < 255
    · obtain ⟨n, hpad⟩ := padding_eq_cons hlen
      simp [hpad, hlen]
    · rw [padding_eq_nil (by omega), List.nil_append, List.mem_singleton, or_iff_right hlen, eq_comm]
  rw [← hzero, strlen]
  split_ifs with h <;> simp [h]

/-- A string that ends in the buffer. -/
theorem copied_terminated (h : (cStr s).length < 255 ∨ buf[255] = 0) (beyond : Str) :
    copied s (buf[255] :: beyond) = (cStr s).take 255 := by
  have hends : ∀ t, cStr ((cStr s).take 255 ++ 0 :: t) = (cStr s).take 255 := by
    intro t
    rw [cStr_append (zero_notMem_take s), show cStr (0 :: t) = [] from rfl, List.append_nil]
  rw [copied_eq, toList_strncpy, List.append_assoc, List.append_assoc]
  by_cases hlen : (cStr s).length < 255
  · obtain ⟨n, hpad⟩ := padding_eq_cons hlen
    rw [hpad]
    exact hends _
  · rw [padding_eq_nil (by omega), h.resolve_left hlen]
    exact hends _

/-- **A string that does not end in the buffer** takes along what follows on the stack. -/
theorem copied_leaks (hlen : 255 ≤ (cStr s).length) (hne : buf[255] ≠ 0) (beyond : Str) :
    copied s (buf[255] :: beyond) = (cStr s).take 255 ++ buf[255] :: cStr beyond := by
  have hbyte : cStr (buf[255] :: beyond) = buf[255] :: cStr beyond :=
    List.takeWhile_cons_of_pos (by simpa using hne)
  rw [copied_eq, toList_strncpy, List.append_assoc, List.append_assoc,
    cStr_append (zero_notMem_take s), padding_eq_nil hlen]
  exact congrArg _ hbyte

/-- The first 255 bytes of the string are the first 255 of all. -/
theorem take_cStr_eq_iff : (cStr s).take 255 = s.take 255 ↔ 0 ∉ s.take 255 := by
  constructor
  · intro h
    rw [← h]
    exact zero_notMem_take s
  · intro h
    have hs : cStr s = s.take 255 ++ cStr (s.drop 255) := by
      rw [← cStr_append h, List.take_append_drop]
    by_cases hlen : s.length ≤ 255
    · rw [hs, List.drop_of_length_le hlen, show cStr [] = [] from rfl, List.append_nil,
        List.take_take, Nat.min_self]
    · rw [hs, List.take_append_of_le_length (by rw [List.length_take]; omega), List.take_take,
        Nat.min_self]

end Copy

/-! ### What is sent -/

/-- **When the path is terminated and sent**: it has no zero among its first 255 bytes, and it is
shorter than that, or the last byte of the buffer was zero. -/
theorem path_sent_iff (r : Resource) (buf : Buffer) : SendsPath r buf ↔
    0 ∉ r.getPath.take 255 ∧ (r.getPath.length < 255 ∨ buf[255] = 0) := by
  have hlen : 0 ∉ r.getPath.take 255 → ((cStr r.getPath).length < 255 ↔ r.getPath.length < 255) := by
    intro h
    have htake := congrArg List.length (take_cStr_eq_iff.mpr h)
    simp only [List.length_take] at htake
    omega
  have hoptions : ∀ now beyond resp, (contentResponse r ⟨now, buf[255] :: beyond⟩ resp).options =
      resp.options ++ [(.uriPath, copied r.getPath (buf[255] :: beyond)),
        (.contentFormat, encodeVar textPlain), (.maxAge, encodeVar r.getMaxAge)] := by
    intro now beyond resp
    simp [contentResponse, Response.addOption]
  unfold SendsPath
  rw [strlen_isSome_iff]
  simp only [hoptions]
  constructor
  · rintro ⟨hends, hsent⟩
    have hpath := hsent ⟨0, 0⟩ [] ⟨.empty, .con, [], none⟩
    simp only [List.nil_append, List.cons.injEq, Prod.mk.injEq, true_and, and_true] at hpath
    rw [copied_terminated hends, take_cStr_eq_iff] at hpath
    exact ⟨hpath, hends.imp_left (hlen hpath).mp⟩
  · rintro ⟨hzero, hends⟩
    have hends' := hends.imp_left (hlen hzero).mpr
    refine ⟨hends', fun now beyond resp => ?_⟩
    rw [copied_terminated hends', take_cStr_eq_iff.mpr hzero]

/-- A path of 255 bytes, in a buffer without zeros: what follows is sent as part of the path. -/
theorem path_not_terminated : ¬ ∀ (r : Resource) (buf : Buffer), SendsPath r buf := by
  intro h
  have hlen : (List.replicate 255 (0x61 : Byte)).length = 255 := List.length_replicate
  have hzero : (0 : Byte) ∉ List.replicate 255 (0x61 : Byte) := by
    rw [List.mem_replicate]
    rintro ⟨-, ⟨⟩⟩
  obtain ⟨hends, -⟩ := h
    { config := { resourcePath := List.replicate 255 0x61 }
      methods := []
      value := []
      logFile := none
      dataFilePath := []
      dataFileWriteTime := 0 } (Vector.replicate 256 1)
  rw [strlen_isSome_iff] at hends
  simp only [Resource.getPath, cStr_eq_self hzero, hlen, Vector.getElem_replicate] at hends
  exact absurd hends (by decide)

end CoapServer.Server.PathBuffer
