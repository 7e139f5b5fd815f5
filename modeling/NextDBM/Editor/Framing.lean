import NextDBM.Library.Json

/-!
# Messages on the way to the editor

The browser's messages are written to a pipe, each with one `Write`. `startStdinPipeListener` reads
the pipe in pieces of at most 1024 bytes, none of which spans two writes, and collects them until the
buffer decodes as a JSON object; the buffer is then handled and emptied. The buffer is kept here in
two parts, what earlier writes left and what has been read of the present one, so that what is handled
can be told apart.
-/

namespace NextDBM

open Json

namespace DBSession

/-! ## Decoding (`encoding/json`) -/

/-- `maxNestingDepth`. -/
def maxNestingDepth : Nat := 10000

mutual

/-- How deep arrays and objects are nested. -/
def depth : Json → Nat
  | .arr vs => depthElements vs + 1
  | .obj ms => depthMembers ms + 1
  | _ => 0

def depthElements : List Json → Nat
  | [] => 0
  | v :: vs => max (depth v) (depthElements vs)

def depthMembers : List (List Nat × Json) → Nat
  | [] => 0
  | (_, v) :: ms => max (depth v) (depthMembers ms)

end

mutual

/-- Every number in the value is finite. -/
def finiteNumbers : Json → Bool
  | .num literal => finiteFloat literal
  | .arr vs => finiteElements vs
  | .obj ms => finiteMembers ms
  | _ => true

def finiteElements : List Json → Bool
  | [] => true
  | v :: vs => finiteNumbers v && finiteElements vs

def finiteMembers : List (List Nat × Json) → Bool
  | [] => true
  | (_, v) :: ms => finiteNumbers v && finiteMembers ms

end

/-- A value that `json.Unmarshal` stores in a map: an object within the decoder's limits, or null. -/
def decodes : Json → Bool
  | .null => true
  | .obj ms => depth (.obj ms) ≤ maxNestingDepth && finiteNumbers (.obj ms)
  | _ => false

/-- `isCompleteJSON`. -/
def isCompleteJSON (data : List Nat) : Bool :=
  match parse data with
  | some v => decodes v
  | none => false

/-! ## The listener -/

/-- A read of the pipe; `returns` says whether the handling returns, if the buffer is handled after
this read: a panic in it ends the process. -/
structure Read where
  bytes : List Nat
  small : bytes.length ≤ 1024
  returns : Bool := true

/-- A message of the browser, by the reads in which its `Write` is consumed. -/
abbrev Written : Type := List Read

def Written.bytes (m : Written) : List Nat := m.flatMap Read.bytes

/-- The goroutine of the listener, and `accumulatedData`. -/
structure Listener where
  left : List Nat := []
  fresh : List Nat := []
  alive : Bool := true

def Listener.accumulatedData (s : Listener) : List Nat := s.left ++ s.fresh

/-- A buffer given to `handleJSONData`. -/
structure Handled where
  left : List Nat
  fresh : List Nat
  deriving DecidableEq

namespace Listener

/-- One iteration of the loop: the read is appended to the buffer, which is handled and emptied when
it is complete. -/
def read (s : Listener) (r : Read) : Listener × List Handled :=
  if s.alive then
    let fresh := s.fresh ++ r.bytes
    if isCompleteJSON (s.left ++ fresh) then
      ({ alive := r.returns }, [{ left := s.left, fresh }])
    else ({ s with fresh }, [])
  else (s, [])

def readAll (s : Listener) : List Read → Listener × List Handled
  | [] => (s, [])
  | r :: rs =>
    let (s₁, handled) := s.read r
    let (s₂, rest) := s₁.readAll rs
    (s₂, handled ++ rest)

/-- The reads of one more write. -/
def deliver (s : Listener) (m : Written) : Listener × List Handled :=
  { s with left := s.accumulatedData, fresh := [] }.readAll m

/-- The listener after these messages. -/
def after (s : Listener) : List Written → Listener
  | [] => s
  | m :: ms => (s.deliver m).1.after ms

/-- The end of the pipe: what is left is handled, unless it is empty. -/
def close (s : Listener) : List Handled :=
  if s.alive ∧ s.accumulatedData ≠ [] then [{ left := s.left, fresh := s.fresh }] else []

end Listener

/-! ## What the framing promises -/

/-- A well-formed JSON object, with white space around it. -/
def WellFormed (bytes : List Nat) : Prop :=
  ∃ w t w' ms, Blank w ∧ Value t (.obj ms) ∧ Blank w' ∧ bytes = w ++ t ++ w'

/-- While the message is read, one buffer is handled: the message, up to white space. -/
def HandledOnce (m : Written) (handled : List Handled) : Prop :=
  ∃ h w, handled = [h] ∧ Blank h.left ∧ Blank w ∧ m.bytes = h.fresh ++ w

/-- Every well-formed message of the sequence is handled once, in its turn. -/
def Framed (ms : List Written) : Prop :=
  ∀ pre m post, ms = pre ++ m :: post → WellFormed m.bytes →
    HandledOnce m ((Listener.after {} pre).deliver m).2

/-- The listener is ready for a message: it is alive, its buffer holds only white space, and the
message is within the decoder's limits. -/
structure Ready (s : Listener) (m : Written) : Prop where
  alive : s.alive = true
  blank : Blank s.accumulatedData
  decodes : isCompleteJSON m.bytes = true

/-- A message after which the buffer holds only white space: it is blank, or is handled, and the
handling returns. -/
structure Clean (m : Written) : Prop where
  content : Blank m.bytes ∨ isCompleteJSON m.bytes = true
  returns : ∀ r ∈ m, r.returns = true

end DBSession

end NextDBM
