import Mathlib.Data.String.Basic

/-!
# Texts of bytes that need not be UTF-8

`decode` reads bytes as UTF-8; a byte that begins no character is read as the replacement character.
It loses nothing exactly when the bytes are UTF-8.
-/

namespace Utf8

/-- At most `n` characters. -/
def decodeFrom : Nat → ByteArray → List Char
  | 0, _ => []
  | n + 1, b =>
    if b.size = 0 then []
    else match b.utf8DecodeChar? 0 with
      | some c => c :: decodeFrom n (b.extract c.utf8Size b.size)
      | none => '\uFFFD' :: decodeFrom n (b.extract 1 b.size)

/-- The text of the bytes; every character takes at least one of them. -/
def decode (b : ByteArray) : String := String.ofList (decodeFrom b.size b)

variable {b : ByteArray} {n : Nat}

theorem extract_append_self (a b : ByteArray) : (a ++ b).extract a.size (a ++ b).size = b := by
  have hnil : a.extract a.size (a ++ b).size = ByteArray.empty := by
    rw [ByteArray.extract_eq_empty_iff]
    omega
  rw [ByteArray.extract_append, hnil, ByteArray.empty_append, ByteArray.size_append]
  simp

theorem decodeFrom_utf8Encode {cs : List Char} (h : cs.utf8Encode.size ≤ n) :
    decodeFrom n cs.utf8Encode = cs := by
  induction cs generalizing n with
  | nil =>
    cases n with
    | zero => rfl
    | succ n => rw [decodeFrom, if_pos (by simp)]
  | cons c cs ih =>
    have hcons : (c :: cs).utf8Encode = (String.utf8EncodeChar c).toByteArray ++ cs.utf8Encode := by
      rw [List.utf8Encode_cons, List.utf8Encode_singleton]
    have hsize : ((String.utf8EncodeChar c).toByteArray).size = c.utf8Size := by simp
    have hpos : 0 < c.utf8Size := c.utf8Size_pos
    rw [hcons, ByteArray.size_append, hsize] at h
    obtain ⟨m, rfl⟩ : ∃ m, n = m + 1 := ⟨n - 1, by omega⟩
    have hne : ¬ ((String.utf8EncodeChar c).toByteArray ++ cs.utf8Encode).size = 0 := by
      rw [ByteArray.size_append, hsize]
      omega
    rw [hcons, decodeFrom, if_neg hne, ByteArray.utf8DecodeChar?_utf8EncodeChar_append]
    have hrest := extract_append_self (String.utf8EncodeChar c).toByteArray cs.utf8Encode
    rw [hsize] at hrest
    simp only [hrest]
    rw [ih (by omega)]

@[simp] theorem decode_toByteArray (s : String) : decode s.toByteArray = s := by
  have hencode : s.toByteArray = s.toList.utf8Encode := by simp
  unfold decode
  rw [hencode, decodeFrom_utf8Encode le_rfl, String.ofList_toList]

/-- **Nothing lost**: the text has the bytes that it was read from when these are UTF-8. -/
theorem toByteArray_decode : (decode b).toByteArray = b ↔ b.IsValidUTF8 := by
  constructor
  · intro h
    exact h ▸ (decode b).isValidUTF8
  · intro h
    have hs : (String.ofByteArray b h).toByteArray = b := rfl
    rw [← hs, decode_toByteArray]

/-! ## ASCII characters

A byte below 128 stands for itself in the encoding of a text, and for nothing else. -/

theorem mem_utf8EncodeChar {c : Char} {x : UInt8} (hx : x.toNat < 128) :
    x ∈ String.utf8EncodeChar c ↔ c.toNat = x.toNat := by
  have hbyte (n : Nat) : x = UInt8.ofNat n ↔ x.toNat = n % 256 := by
    rw [← UInt8.toNat_inj, UInt8.toNat_ofNat']
  have hval : c.val.toNat = c.toNat := rfl
  unfold String.utf8EncodeChar
  simp only [hval]
  split_ifs with h1 h2 h3
  · rw [List.mem_singleton, hbyte]
    omega
  · rw [List.mem_pair, hbyte, hbyte]
    omega
  · rw [List.mem_cons, List.mem_pair, hbyte, hbyte, hbyte]
    omega
  · rw [List.mem_cons, List.mem_cons, List.mem_pair, hbyte, hbyte, hbyte, hbyte]
    omega

theorem toByteArray_toList (s : String) :
    s.toByteArray.data.toList = s.toList.flatMap String.utf8EncodeChar := by
  have hencode : s.toByteArray = s.toList.utf8Encode := by simp
  rw [hencode, List.utf8Encode, List.data_toByteArray]

/-- A text has the character of an ASCII byte exactly when its encoding has the byte. -/
theorem mem_toByteArray {s : String} {c : Char} {x : UInt8} (hx : x.toNat < 128)
    (hc : c.toNat = x.toNat) : x ∈ s.toByteArray.data.toList ↔ c ∈ s.toList := by
  rw [toByteArray_toList, List.mem_flatMap]
  constructor
  · rintro ⟨d, hd, hmem⟩
    have hdc : d = c := Char.toNat_inj.mp (((mem_utf8EncodeChar hx).mp hmem).trans hc.symm)
    exact hdc ▸ hd
  · exact fun h => ⟨c, h, (mem_utf8EncodeChar hx).mpr hc⟩

theorem utf8Size_eq_one {c : Char} : c.utf8Size = 1 ↔ c.toNat < 128 := by
  rw [← String.length_utf8EncodeChar]
  have hval : c.val.toNat = c.toNat := rfl
  unfold String.utf8EncodeChar
  simp only [hval]
  split_ifs with h1 h2 h3
  · exact iff_of_true rfl (by omega)
  all_goals exact iff_of_false (by simp) (by omega)

/-- A text has as many bytes as characters exactly when all characters are ASCII. -/
theorem length_toByteArray_eq {s : String} :
    s.toByteArray.data.toList.length = s.length ↔ ∀ c ∈ s.toList, c.toNat < 128 := by
  rw [toByteArray_toList, ← String.length_toList]
  induction s.toList with
  | nil => exact iff_of_true rfl fun c hc => absurd hc List.not_mem_nil
  | cons c cs ih =>
    have hle (l : List Char) : l.length ≤ (l.flatMap String.utf8EncodeChar).length := by
      induction l with
      | nil => exact le_rfl
      | cons d l ihl =>
        rw [List.flatMap_cons, List.length_append, List.length_cons, String.length_utf8EncodeChar]
        have := d.utf8Size_pos
        omega
    have hpos := c.utf8Size_pos
    have htail := hle cs
    rw [List.forall_mem_cons, ← ih, ← utf8Size_eq_one, List.flatMap_cons, List.length_append,
      List.length_cons, String.length_utf8EncodeChar]
    omega

end Utf8
