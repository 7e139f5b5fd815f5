import Mathlib.Data.List.Basic

/-!
# Base64

Bytes as texts over 64 characters, three bytes to four characters; the last group is filled up with
`=`. The decoder skips line breaks and does not look at the bits that the padding leaves over.
-/

namespace Base64

/-- The character of a number below 64. -/
def digit (n : Nat) : Char :=
  if n < 26 then Char.ofNat (65 + n)
  else if n < 52 then Char.ofNat (71 + n)
  else if n < 62 then Char.ofNat (n - 4)
  else if n = 62 then '+'
  else '/'

/-- The number of a character. -/
def value (c : Char) : Option Nat :=
  let n := c.toNat
  if 65 ≤ n ∧ n ≤ 90 then some (n - 65)
  else if 97 ≤ n ∧ n ≤ 122 then some (n - 71)
  else if 48 ≤ n ∧ n ≤ 57 then some (n + 4)
  else if c = '+' then some 62
  else if c = '/' then some 63
  else none

def encode : List UInt8 → List Char
  | [] => []
  | [a] => [digit (a.toNat / 4), digit (a.toNat % 4 * 16), '=', '=']
  | [a, b] =>
    [digit (a.toNat / 4), digit (a.toNat % 4 * 16 + b.toNat / 16), digit (b.toNat % 16 * 4), '=']
  | a :: b :: c :: rest =>
    digit (a.toNat / 4) :: digit (a.toNat % 4 * 16 + b.toNat / 16) ::
      digit (b.toNat % 16 * 4 + c.toNat / 64) :: digit (c.toNat % 64) :: encode rest

def byte (n : Nat) : UInt8 := UInt8.ofNat n

/-- Groups of four characters; padding ends the text. -/
def decodeGroups : List Char → Option (List UInt8)
  | [] => some []
  | c₁ :: c₂ :: c₃ :: c₄ :: rest => do
    let x ← value c₁
    let y ← value c₂
    if c₃ = '=' then
      if c₄ = '=' ∧ rest = [] then some [byte (x * 4 + y / 16)] else none
    else do
      let z ← value c₃
      if c₄ = '=' then
        if rest = [] then some [byte (x * 4 + y / 16), byte (y % 16 * 16 + z / 4)] else none
      else do
        let w ← value c₄
        let bytes ← decodeGroups rest
        some (byte (x * 4 + y / 16) :: byte (y % 16 * 16 + z / 4) :: byte (z % 4 * 64 + w) :: bytes)
  | _ => none

/-- A line break. -/
def isBreak (c : Char) : Bool := c = '\n' || c = '\r'

def decode (text : List Char) : Option (List UInt8) :=
  decodeGroups (text.filter fun c => !isBreak c)

/-- The bytes of the groups before the first that cannot be decoded, and whether there is no such group
and nothing stands behind the padding. -/
def decodePartGroups : List Char → List UInt8 × Bool
  | [] => ([], true)
  | c₁ :: c₂ :: c₃ :: c₄ :: rest =>
    match value c₁, value c₂ with
    | some x, some y =>
      if c₃ = '=' then
        if c₄ = '=' then ([byte (x * 4 + y / 16)], rest.isEmpty) else ([], false)
      else
        match value c₃ with
        | some z =>
          if c₄ = '=' then ([byte (x * 4 + y / 16), byte (y % 16 * 16 + z / 4)], rest.isEmpty)
          else
            match value c₄ with
            | some w =>
              let part := decodePartGroups rest
              (byte (x * 4 + y / 16) :: byte (y % 16 * 16 + z / 4) :: byte (z % 4 * 64 + w) :: part.1,
                part.2)
            | none => ([], false)
        | none => ([], false)
    | _, _ => ([], false)
  | _ => ([], false)

/-- What a decoder has written when it stops at an error or at the end of the text. -/
def decodePart (text : List Char) : List UInt8 × Bool :=
  decodePartGroups (text.filter fun c => !isBreak c)

/-! ## The round trip -/

theorem digit_spec {n : Nat} (h : n < 64) :
    value (digit n) = some n ∧ digit n ≠ '=' ∧ isBreak (digit n) = false := by
  have hall : ∀ n : Fin 64,
      value (digit n) = some n.val ∧ digit n ≠ '=' ∧ isBreak (digit n) = false := by decide
  exact hall ⟨n, h⟩

theorem byte_eq {n : Nat} {a : UInt8} (h : n = a.toNat) : byte n = a := by
  rw [byte, h, UInt8.ofNat_toNat]

theorem decodeGroups_encode (bytes : List UInt8) : decodeGroups (encode bytes) = some bytes := by
  induction bytes using encode.induct with
  | case1 => rfl
  | case2 a =>
    have ha := a.toNat_lt
    obtain ⟨hx, -, -⟩ := digit_spec (n := a.toNat / 4) (by omega)
    obtain ⟨hy, -, -⟩ := digit_spec (n := a.toNat % 4 * 16) (by omega)
    have hbyte : byte (a.toNat / 4 * 4 + a.toNat % 4 * 16 / 16) = a := byte_eq (by omega)
    simp only [encode, decodeGroups, hx, hy, Option.bind_eq_bind, Option.bind_some, and_self, if_true,
      hbyte]
  | case3 a b =>
    have ha := a.toNat_lt
    have hb := b.toNat_lt
    obtain ⟨hx, -, -⟩ := digit_spec (n := a.toNat / 4) (by omega)
    obtain ⟨hy, -, -⟩ := digit_spec (n := a.toNat % 4 * 16 + b.toNat / 16) (by omega)
    obtain ⟨hz, hne, -⟩ := digit_spec (n := b.toNat % 16 * 4) (by omega)
    have hfirst : byte (a.toNat / 4 * 4 + (a.toNat % 4 * 16 + b.toNat / 16) / 16) = a :=
      byte_eq (by omega)
    have hsecond : byte ((a.toNat % 4 * 16 + b.toNat / 16) % 16 * 16 + b.toNat % 16 * 4 / 4) = b :=
      byte_eq (by omega)
    simp only [encode, decodeGroups, hx, hy, hz, hne, Option.bind_eq_bind, Option.bind_some, if_true,
      if_false, hfirst, hsecond]
  | case4 a b c rest ih =>
    have ha := a.toNat_lt
    have hb := b.toNat_lt
    have hc := c.toNat_lt
    obtain ⟨hx, -, -⟩ := digit_spec (n := a.toNat / 4) (by omega)
    obtain ⟨hy, -, -⟩ := digit_spec (n := a.toNat % 4 * 16 + b.toNat / 16) (by omega)
    obtain ⟨hz, hne, -⟩ := digit_spec (n := b.toNat % 16 * 4 + c.toNat / 64) (by omega)
    obtain ⟨hw, hne', -⟩ := digit_spec (n := c.toNat % 64) (by omega)
    have hfirst : byte (a.toNat / 4 * 4 + (a.toNat % 4 * 16 + b.toNat / 16) / 16) = a :=
      byte_eq (by omega)
    have hsecond : byte ((a.toNat % 4 * 16 + b.toNat / 16) % 16 * 16 +
        (b.toNat % 16 * 4 + c.toNat / 64) / 4) = b := byte_eq (by omega)
    have hthird : byte ((b.toNat % 16 * 4 + c.toNat / 64) % 4 * 64 + c.toNat % 64) = c :=
      byte_eq (by omega)
    simp only [encode, decodeGroups, hx, hy, hz, hw, hne, hne', Option.bind_eq_bind, Option.bind_some,
      if_false, hfirst, hsecond, hthird, ih]

/-- The encoder writes no line breaks. -/
theorem filter_encode (bytes : List UInt8) :
    (encode bytes).filter (fun c => !isBreak c) = encode bytes := by
  rw [List.filter_eq_self]
  induction bytes using encode.induct with
  | case1 => exact fun c hc => absurd hc List.not_mem_nil
  | case2 a =>
    have ha := a.toNat_lt
    have hx := (digit_spec (n := a.toNat / 4) (by omega)).2.2
    have hy := (digit_spec (n := a.toNat % 4 * 16) (by omega)).2.2
    have hpad : isBreak '=' = false := by decide
    simp [encode, hx, hy, hpad]
  | case3 a b =>
    have ha := a.toNat_lt
    have hb := b.toNat_lt
    have hx := (digit_spec (n := a.toNat / 4) (by omega)).2.2
    have hy := (digit_spec (n := a.toNat % 4 * 16 + b.toNat / 16) (by omega)).2.2
    have hz := (digit_spec (n := b.toNat % 16 * 4) (by omega)).2.2
    have hpad : isBreak '=' = false := by decide
    simp [encode, hx, hy, hz, hpad]
  | case4 a b c rest ih =>
    have ha := a.toNat_lt
    have hb := b.toNat_lt
    have hc := c.toNat_lt
    have hx := (digit_spec (n := a.toNat / 4) (by omega)).2.2
    have hy := (digit_spec (n := a.toNat % 4 * 16 + b.toNat / 16) (by omega)).2.2
    have hz := (digit_spec (n := b.toNat % 16 * 4 + c.toNat / 64) (by omega)).2.2
    have hw := (digit_spec (n := c.toNat % 64) (by omega)).2.2
    rw [encode]
    simp only [List.forall_mem_cons, hx, hy, hz, hw, Bool.not_false, true_and]
    exact ih

/-- **Decoding inverts encoding.** -/
theorem decode_encode (bytes : List UInt8) : decode (encode bytes) = some bytes := by
  rw [decode, filter_encode, decodeGroups_encode]

theorem decodeGroups_eq_part (text : List Char) :
    decodeGroups text = if (decodePartGroups text).2 then some (decodePartGroups text).1 else none := by
  fun_induction decodePartGroups text with
  | case1 => rfl
  | case2 c₁ c₂ rest x y hy hx =>
    simp only [decodeGroups, hx, hy, Option.bind_eq_bind, Option.bind_some, if_true, true_and,
      List.isEmpty_iff]
  | case3 c₁ c₂ c₄ rest x y hy hx hc₄ =>
    simp only [decodeGroups, hx, hy, hc₄, Option.bind_eq_bind, Option.bind_some, if_true, false_and,
      if_false, Bool.false_eq_true]
  | case4 c₁ c₂ c₃ rest x y hy hx hc₃ z hz =>
    simp only [decodeGroups, hx, hy, hc₃, hz, Option.bind_eq_bind, Option.bind_some, if_true, if_false,
      List.isEmpty_iff]
  | case5 c₁ c₂ c₃ c₄ rest x y hy hx hc₃ z hz hc₄ w hw part ih =>
    simp only [decodeGroups, hx, hy, hc₃, hz, hc₄, hw, Option.bind_eq_bind, Option.bind_some, if_false,
      ih]
    show (if part.2 then some part.1 else none).bind _ = if part.2 then some _ else none
    cases part.2 with
    | true => rfl
    | false => rfl
  | case6 c₁ c₂ c₃ c₄ rest x y hy hx hc₃ z hz hc₄ hw =>
    simp only [decodeGroups, hx, hy, hc₃, hz, hc₄, hw, Option.bind_eq_bind, Option.bind_some,
      Option.bind_none, if_false, Bool.false_eq_true]
  | case7 c₁ c₂ c₃ c₄ rest x y hy hx hc₃ hz =>
    simp only [decodeGroups, hx, hy, hc₃, hz, Option.bind_eq_bind, Option.bind_some, Option.bind_none,
      if_false, Bool.false_eq_true]
  | case8 c₁ c₂ c₃ c₄ rest hnone =>
    rw [decodeGroups, if_neg Bool.false_ne_true]
    cases hx : value c₁ with
    | none => rfl
    | some x =>
      cases hy : value c₂ with
      | none => rfl
      | some y => exact (hnone x y hx hy).elim
  | case9 text hnil hfour =>
    rw [if_neg Bool.false_ne_true]
    match text with
    | [] => exact absurd rfl hnil
    | [_] => rfl
    | [_, _] => rfl
    | [_, _, _] => rfl
    | c₁ :: c₂ :: c₃ :: c₄ :: rest => exact absurd rfl (hfour c₁ c₂ c₃ c₄ rest)

/-- A text is decoded exactly when the decoder comes to its end. -/
theorem decode_eq_some_iff {text : List Char} {bytes : List UInt8} :
    decode text = some bytes ↔ decodePart text = (bytes, true) := by
  rw [decode, decodePart, decodeGroups_eq_part, Prod.ext_iff]
  split
  · next h => simp [h]
  · next h => simp [h]

/-- A text of at least one byte has at least four characters. -/
theorem four_le_length_encode {bytes : List UInt8} (h : bytes ≠ []) : 4 ≤ (encode bytes).length := by
  cases bytes using encode.induct with
  | case1 => exact absurd rfl h
  | case2 a => exact Nat.le_refl 4
  | case3 a b => exact Nat.le_refl 4
  | case4 a b c rest ih => simp [encode]

example : encode [77, 97] = ['T', 'W', 'E', '='] := by decide

end Base64
