import Mathlib.Algebra.GroupWithZero.Nat
import Mathlib.Data.List.Flatten
import Mathlib.Data.List.Infix
import NextDBM.Library.MD5

/-!
# What the SSH server records

`Writer.Write` passes what an SSH session writes to the user, and gives it to the observers and the
recorder too, except while a file is transferred by `rz` or `sz`. It looks for the beginning and the end
of a transfer in each chunk alone. The recorder and the terminals take what they are given.
-/

namespace NextDBM

namespace Recording

abbrev Chunk : Type := List UInt8

/-- The bytes of an ASCII text. -/
def ascii (s : String) : Chunk := s.toList.map fun c => UInt8.ofNat c.toNat

/-- `hex.EncodeToString` -/
def encodeToString (p : Chunk) : List Char := p.flatMap fun b => Digest.hexByte b.toNat

/-- `strings.Contains` on the bytes of texts. -/
def contains (s t : Chunk) : Bool := decide (t <:+: s)

/-- What `sz` begins with, in hexadecimal. -/
def szStart : List Char := "727a0d2a2a184230303030303030303030303030300d8a11".toList

/-- What `rz` begins with. -/
def rzStart : List Char :=
  "727a2077616974696e6720746f20726563656976652e2a2a184230313030303030303233626535300d8a11".toList

def hexContains (p : Chunk) (t : List Char) : Bool := decide (t <:+: encodeToString p)

/-- The fields of `Writer` that change. -/
structure Writer where
  rz : Bool := false
  sz : Bool := false
  deriving DecidableEq

/-- What has been sent: to the user, to the observers, and to the recorder. -/
structure Sent where
  front : List Chunk := []
  observed : List Chunk := []
  recorded : List Chunk := []

/-- The first test of `Write`: whether a transfer begins. -/
def begins (w : Writer) (p : Chunk) : Writer :=
  if !w.sz && !w.rz then
    if hexContains p szStart then { w with sz := true }
    else if hexContains p rzStart then { w with rz := true }
    else w
  else w

/-- The second one: the fields after the chunk, and whether the chunk is shown to the others. -/
def shows (w : Writer) (s : Chunk) : Writer × Bool :=
  if w.sz then
    if ascii "OO" = s then ({ w with sz := false }, false) else (w, false)
  else if w.rz then
    if contains s (ascii "Received") then ({ w with rz := false }, true) else (w, false)
  else (w, true)

/-- `Write`; `recorder` says whether the terminal has one. -/
def write (recorder : Bool) (w : Writer) (sent : Sent) (p : Chunk) : Writer × Sent :=
  match shows (begins w p) p with
  | (w, shown) =>
    (w, {
      front := sent.front ++ [p]
      observed := if shown then sent.observed ++ [p] else sent.observed
      recorded := if shown && recorder then sent.recorded ++ [p] else sent.recorded })

/-- The calls of a session, one after the other. -/
def writeAll (recorder : Bool) (chunks : List Chunk) : Writer × Sent :=
  chunks.foldl (fun (w, sent) p => write recorder w sent p) ({}, {})

/-! ## Chunks of a stream -/

/-- The data that the three have got. -/
structure Data where
  front : Chunk
  observed : Chunk
  recorded : Chunk

def Sent.data (s : Sent) : Data := ⟨s.front.flatten, s.observed.flatten, s.recorded.flatten⟩

/-- A transfer begins in the stream. -/
def StartsTransfer (stream : Chunk) : Prop :=
  szStart <:+: encodeToString stream ∨ rzStart <:+: encodeToString stream

/-- However the stream is cut into chunks, the three get the same data; and without a transfer they get
the stream. -/
structure ChunkIndependent (recorder : Bool) (stream : Chunk) : Prop where
  same : ∀ cs cs' : List Chunk, cs.flatten = stream → cs'.flatten = stream →
    (writeAll recorder cs).2.data = (writeAll recorder cs').2.data
  full : ¬ StartsTransfer stream → ∀ cs : List Chunk, cs.flatten = stream →
    (writeAll recorder cs).2.data = ⟨stream, stream, if recorder then stream else []⟩

end Recording

end NextDBM
