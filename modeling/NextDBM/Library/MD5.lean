import Mathlib.Data.List.Basic

/-!
# The MD5 message digest

The digest over a list of bytes, each byte a number below 256. Words are 32 bits wide; a block is
sixteen words, least significant byte first. `md5Hex` is the digest as lower case hexadecimal text.
-/

namespace Digest

abbrev Word : Type := BitVec 32

/-- The four words of the running state. -/
structure State where
  a : Word
  b : Word
  c : Word
  d : Word

/-- The state before the first block. -/
def initial : State := ⟨0x67452301, 0xefcdab89, 0x98badcfe, 0x10325476⟩

/-- The additive constants of the sixty-four operations. -/
def sines : List Word := [
  0xd76aa478, 0xe8c7b756, 0x242070db, 0xc1bdceee, 0xf57c0faf, 0x4787c62a, 0xa8304613, 0xfd469501,
  0x698098d8, 0x8b44f7af, 0xffff5bb1, 0x895cd7be, 0x6b901122, 0xfd987193, 0xa679438e, 0x49b40821,
  0xf61e2562, 0xc040b340, 0x265e5a51, 0xe9b6c7aa, 0xd62f105d, 0x02441453, 0xd8a1e681, 0xe7d3fbc8,
  0x21e1cde6, 0xc33707d6, 0xf4d50d87, 0x455a14ed, 0xa9e3e905, 0xfcefa3f8, 0x676f02d9, 0x8d2a4c8a,
  0xfffa3942, 0x8771f681, 0x6d9d6122, 0xfde5380c, 0xa4beea44, 0x4bdecfa9, 0xf6bb4b60, 0xbebfbc70,
  0x289b7ec6, 0xeaa127fa, 0xd4ef3085, 0x04881d05, 0xd9d4d039, 0xe6db99e5, 0x1fa27cf8, 0xc4ac5665,
  0xf4292244, 0x432aff97, 0xab9423a7, 0xfc93a039, 0x655b59c3, 0x8f0ccc92, 0xffeff47d, 0x85845dd1,
  0x6fa87e4f, 0xfe2ce6e0, 0xa3014314, 0x4e0811a1, 0xf7537e82, 0xbd3af235, 0x2ad7d2bb, 0xeb86d391]

/-- The rotations of the four rounds, four to a round. -/
def rotations : List (List Nat) := [[7, 12, 17, 22], [5, 9, 14, 20], [4, 11, 16, 23], [6, 10, 15, 21]]

/-- The mixing function of a round, and the word of the block that operation `i` reads. -/
def mix (i : Nat) (s : State) : Word × Nat :=
  match i / 16 with
  | 0 => ((s.b &&& s.c) ||| (~~~s.b &&& s.d), i % 16)
  | 1 => ((s.d &&& s.b) ||| (~~~s.d &&& s.c), (5 * i + 1) % 16)
  | 2 => (s.b ^^^ s.c ^^^ s.d, (3 * i + 5) % 16)
  | _ => (s.c ^^^ (s.b ||| ~~~s.d), 7 * i % 16)

/-- Operation `i` on a block. -/
def operation (block : List Word) (s : State) (i : Nat) : State :=
  let (f, g) := mix i s
  let r := ((rotations.getD (i / 16) []).getD (i % 4) 0)
  let sum := s.a + f + sines.getD i 0 + block.getD g 0
  ⟨s.d, s.b + sum.rotateLeft r, s.b, s.c⟩

/-- Process one block of sixteen words. -/
def processBlock (s : State) (block : List Word) : State :=
  let t := (List.range 64).foldl (operation block) s
  ⟨s.a + t.a, s.b + t.b, s.c + t.c, s.d + t.d⟩

/-- A number as `n` bytes, least significant first. -/
def littleEndian : Nat → Nat → List Nat
  | 0, _ => []
  | n + 1, x => x % 256 :: littleEndian n (x / 256)

/-- The message followed by the bit `1`, zeros, and its length in bits as eight bytes. -/
def pad (bytes : List Nat) : List Nat :=
  bytes ++ 128 :: List.replicate ((119 - bytes.length % 64) % 64) 0
    ++ littleEndian 8 (8 * bytes.length)

/-- The words of a padded message. -/
def words : List Nat → List Word
  | b0 :: b1 :: b2 :: b3 :: bs =>
    BitVec.ofNat 32 (b0 + 256 * (b1 + 256 * (b2 + 256 * b3))) :: words bs
  | _ => []

/-- The digest of a message as sixteen bytes. -/
def md5 (bytes : List Nat) : List Nat :=
  let blocks := (words (pad bytes)).toChunks 16
  let s := blocks.foldl processBlock initial
  [s.a, s.b, s.c, s.d].flatMap fun w => littleEndian 4 w.toNat

/-- A byte as two hexadecimal digits. -/
def hexByte (b : Nat) : List Char := [Nat.digitChar (b / 16), Nat.digitChar (b % 16)]

/-- The digest of a text in UTF-8, in hexadecimal. -/
def md5Hex (s : String) : String :=
  let bytes := s.toList.flatMap fun c => (String.utf8EncodeChar c).map UInt8.toNat
  String.ofList ((md5 bytes).flatMap hexByte)

end Digest
