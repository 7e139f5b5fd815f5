import Mathlib.Algebra.GroupWithZero.Nat
import Mathlib.Data.Fin.Basic
import NextDBM.Library.Text

/-!
# IPv4 addresses and their texts

Addresses in dotted decimal notation, blocks in CIDR notation, and the parsers of both. A parser
accepts four decimal numbers below 256 without leading zeros, and for a block a prefix length of at
most 32 after a slash. Every text written by `text` is read back by the parser.
-/

/-- An address: four octets, the most significant first. -/
structure IPv4 where
  a : Fin 256
  b : Fin 256
  c : Fin 256
  d : Fin 256
  deriving DecidableEq, Repr

@[instance] theorem octet_neZero : NeZero 256 := ⟨by decide⟩

namespace IPv4

/-- The address as a number below `2 ^ 32`. -/
def toNat (ip : IPv4) : Nat :=
  ip.a.val * 2 ^ 24 + ip.b.val * 2 ^ 16 + ip.c.val * 2 ^ 8 + ip.d.val

def octetText (n : Fin 256) : String := Nat.repr n.val

/-- Dotted decimal notation. -/
def text (ip : IPv4) : String :=
  octetText ip.a ++ "." ++ (octetText ip.b ++ "." ++ (octetText ip.c ++ "." ++ octetText ip.d))

/-- The value of a non-empty text of decimal digits. -/
def decimal (s : String) : Option Nat :=
  if s ≠ "" ∧ s.toList.all Char.isDigit then
    some (s.toList.foldl (fun n ch => 10 * n + (ch.toNat - '0'.toNat)) 0)
  else none

/-- A decimal number below 256 without leading zeros. -/
def parseOctet (s : String) : Option (Fin 256) :=
  match decimal s with
  | some n => if h : n < 256 ∧ (s = "0" ∨ s.toList.head? ≠ some '0') then some ⟨n, h.1⟩ else none
  | none => none

def parse (s : String) : Option IPv4 :=
  match Text.split s '.' with
  | [w, x, y, z] => do
    let a ← parseOctet w
    let b ← parseOctet x
    let c ← parseOctet y
    let d ← parseOctet z
    some ⟨a, b, c, d⟩
  | _ => none

theorem isDigit_of_mem_repr (n : Nat) : ∀ ch ∈ n.repr.toList, ch.isDigit := by
  intro ch hch
  rw [Nat.toList_repr] at hch
  exact Nat.isDigit_of_mem_toDigits (by omega) (by omega) hch

/-- A number is read back from its decimal digits. -/
theorem decimal_repr (n : Nat) : decimal n.repr = some n := by
  have hne : n.repr ≠ "" := by
    intro h
    have hdigits : Nat.toDigits 10 n = [] := by
      rw [← Nat.toList_repr, h]
      rfl
    exact Nat.toDigits_ne_nil hdigits
  rw [decimal, if_pos ⟨hne, List.all_eq_true.mpr (isDigit_of_mem_repr n)⟩, Nat.toList_repr]
  exact congrArg some Nat.ofDigitChars_ten_toDigits

/-- The digits of a positive number do not start with a zero. -/
theorem head?_toDigits {n : Nat} (hn : 0 < n) : (Nat.toDigits 10 n).head? ≠ some '0' := by
  induction n using Nat.strong_induction_on with
  | _ n ih =>
    rw [Nat.toDigits_eq_if (by omega)]
    split
    · next hlt =>
      have hdigit : ∀ d : Fin 10, d.val ≠ 0 → some d.val.digitChar ≠ some '0' := by decide
      exact hdigit ⟨n, hlt⟩ (Nat.ne_of_gt hn)
    · next hge =>
      rw [List.head?_append_of_ne_nil _ Nat.toDigits_ne_nil]
      exact ih (n / 10) (by omega) (by omega)

theorem parseOctet_octetText (n : Fin 256) : parseOctet (octetText n) = some n := by
  have hhead : octetText n = "0" ∨ (octetText n).toList.head? ≠ some '0' := by
    by_cases hn : n.val = 0
    · left
      rw [octetText, hn]
      rfl
    · right
      rw [octetText, Nat.toList_repr]
      exact head?_toDigits (by omega)
  unfold octetText at hhead ⊢
  rw [parseOctet, decimal_repr]
  exact dif_pos ⟨n.isLt, hhead⟩

theorem isDigit_of_mem_octetText (n : Fin 256) : ∀ ch ∈ (octetText n).toList, ch.isDigit :=
  isDigit_of_mem_repr n

theorem dot_not_mem_octetText (n : Fin 256) : '.' ∉ (octetText n).toList := by
  intro h
  exact absurd (isDigit_of_mem_octetText n '.' h) (by decide)

/-- The text of an address is cut at its dots into the texts of its octets. -/
theorem split_text (ip : IPv4) :
    Text.split ip.text '.' = [octetText ip.a, octetText ip.b, octetText ip.c, octetText ip.d] := by
  have hdot : ".".toList = ['.'] := by decide
  rw [text, Text.split_append_sep (dot_not_mem_octetText ip.a) hdot,
    Text.split_append_sep (dot_not_mem_octetText ip.b) hdot,
    Text.split_append_sep (dot_not_mem_octetText ip.c) hdot,
    Text.split_of_not_mem (dot_not_mem_octetText ip.d)]

theorem parse_text (ip : IPv4) : parse ip.text = some ip := by
  simp [parse, split_text, parseOctet_octetText]

theorem text_injective {ip ip' : IPv4} (h : ip.text = ip'.text) : ip = ip' :=
  Option.some.inj (by rw [← parse_text, ← parse_text, h])

/-- The characters of an address are digits and dots. -/
theorem isDigit_of_mem_text {ip : IPv4} {ch : Char} (h : ch ∈ ip.text.toList) :
    ch.isDigit ∨ ch = '.' := by
  have hdot : ".".toList = ['.'] := by decide
  simp only [text, String.toList_append, hdot, List.mem_append, List.mem_singleton] at h
  rcases h with (h | h) | (h | h) | (h | h) | h
  · exact .inl (isDigit_of_mem_octetText _ ch h)
  · exact .inr h
  · exact .inl (isDigit_of_mem_octetText _ ch h)
  · exact .inr h
  · exact .inl (isDigit_of_mem_octetText _ ch h)
  · exact .inr h
  · exact .inl (isDigit_of_mem_octetText _ ch h)

theorem not_mem_text (ip : IPv4) {ch : Char} (hdigit : ch.isDigit = false) (hdot : ch ≠ '.') :
    ch ∉ ip.text.toList := by
  intro h
  rcases isDigit_of_mem_text h with h | h
  · exact absurd h (by simp [hdigit])
  · exact hdot h

end IPv4

/-! ## Blocks -/

/-- A block of addresses: those that agree with `base` in the first `len` bits. -/
structure CIDR where
  base : IPv4
  len : Fin 33
  deriving DecidableEq, Repr

namespace CIDR

def contains (net : CIDR) (ip : IPv4) : Bool :=
  ip.toNat / 2 ^ (32 - net.len.val) == net.base.toNat / 2 ^ (32 - net.len.val)

def lenText (n : Fin 33) : String := Nat.repr n.val

def text (net : CIDR) : String := net.base.text ++ "/" ++ lenText net.len

def parseLen (s : String) : Option (Fin 33) :=
  match IPv4.decimal s with
  | some n => if h : n < 33 then some ⟨n, h⟩ else none
  | none => none

def parse (s : String) : Option CIDR :=
  match Text.split s '/' with
  | [addr, mask] => do
    let base ← IPv4.parse addr
    let len ← parseLen mask
    some ⟨base, len⟩
  | _ => none

theorem parseLen_lenText (n : Fin 33) : parseLen (lenText n) = some n := by
  rw [parseLen, lenText, IPv4.decimal_repr]
  exact dif_pos n.isLt

theorem isDigit_of_mem_lenText (n : Fin 33) : ∀ ch ∈ (lenText n).toList, ch.isDigit :=
  IPv4.isDigit_of_mem_repr n

theorem parse_text (net : CIDR) : parse net.text = some net := by
  have hbase : '/' ∉ net.base.text.toList := net.base.not_mem_text (by decide) (by decide)
  have hlen : '/' ∉ (lenText net.len).toList := by
    intro h
    exact absurd (isDigit_of_mem_lenText net.len '/' h) (by decide)
  rw [parse, text, Text.split_append_sep hbase (by decide), Text.split_of_not_mem hlen]
  simp [IPv4.parse_text, parseLen_lenText]

/-- The characters of a block are digits, dots and the slash. -/
theorem not_mem_text (net : CIDR) {ch : Char} (hdigit : ch.isDigit = false) (hdot : ch ≠ '.')
    (hslash : ch ≠ '/') : ch ∉ net.text.toList := by
  have hlist : "/".toList = ['/'] := by decide
  rw [text, String.toList_append, String.toList_append, hlist]
  intro h
  simp only [List.mem_append, List.mem_singleton] at h
  rcases h with (h | h) | h
  · exact net.base.not_mem_text hdigit hdot h
  · exact hslash h
  · exact absurd (isDigit_of_mem_lenText net.len ch h) (by simp [hdigit])

end CIDR
