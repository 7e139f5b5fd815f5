import Mathlib.Data.List.DropRight
import NextDBM.Library.Calls
import NextDBM.Model.Encryption

/-!
# Guacamole instructions

An instruction is an opcode with arguments. On the wire each of them is an element, its length and a dot
before it, with commas between the elements and a semicolon at the end. Texts are bytes here, as what is
received need not be UTF-8. `Parse` indexes what it splits; an index out of range is a panic.
-/

namespace NextDBM

open Calls

namespace Guacamole

/-- `;` -/
def delimiter : UInt8 := 59

/-- `,` -/
def comma : UInt8 := 44

/-- `.` -/
def dot : UInt8 := 46

structure Instruction where
  opcode : List UInt8
  args : List (List UInt8)
  protocolForm : List UInt8 := []
  deriving DecidableEq

def newInstruction (opcode : List UInt8) (args : List (List UInt8)) : Instruction := { opcode, args }

/-- `fmt.Sprintf("%d.%s", len(value), value)`; `len` counts bytes. -/
def element (value : List UInt8) : List UInt8 := bytesOf (toString value.length) ++ dot :: value

/-- The text of the instruction, which keeps it as its `ProtocolForm`. -/
def Instruction.string (opt : Instruction) : List UInt8 × Instruction :=
  if opt.protocolForm.length > 0 then (opt.protocolForm, opt)
  else
    let form := opt.args.foldl (fun form value => form ++ comma :: element value) (element opt.opcode)
    (form ++ [delimiter], { opt with protocolForm := form ++ [delimiter] })

/-- `strings.LastIndex(content, ";") > 0`: a semicolon stands after the first byte. Then all those at the
end are cut off. -/
def trimmed (content : List UInt8) : List UInt8 :=
  if delimiter ∈ content.tail then content.rdropWhile (· == delimiter) else content

/-- `lm := strings.Split(messages[i], "."); args[i] = lm[1]`. -/
def second (message : List UInt8) : Outcome (List UInt8) :=
  match (message.splitOn dot)[1]? with
  | some arg => .returned arg
  | none => .panicked

def parse (content : List UInt8) : Outcome Instruction := do
  let args ← ((trimmed content).splitOn comma).foldlM
    (fun args message => do
      let arg ← second message
      pure (args ++ [arg])) []
  match args with
  | [] => .panicked
  | opcode :: args => .returned (newInstruction opcode args)

/-! ## Reading from guacd -/

/-- The reader of a tunnel: the bytes that are still to come, and the error after them. -/
structure Reader where
  unread : List UInt8
  err : String := "EOF"
  deriving DecidableEq

/-- The bytes up to the first semicolon. -/
def line (bytes : List UInt8) : List UInt8 := bytes.takeWhile (· != delimiter) ++ [delimiter]

/-- `reader.ReadBytes(Delimiter)`. -/
def Reader.readBytes (reader : Reader) : Outcome (List UInt8 × Reader) :=
  if delimiter ∈ reader.unread then
    .returned (line reader.unread,
      { reader with unread := (reader.unread.dropWhile (· != delimiter)).tail })
  else .failed reader.err

def rate44100 : List UInt8 := bytesOf "rate=44100,channels=2;"
def rate22050 : List UInt8 := bytesOf "rate=22050,channels=2;"
def audioL16 : List UInt8 := bytesOf "5.audio,1.1,31.audio/L16;"

def Reader.read (reader : Reader) : Outcome (List UInt8 × Reader) := do
  let (data, reader) ← reader.readBytes
  if data = rate44100 then pure ([], reader)
  else if data = rate22050 then pure ([], reader)
  else if data = audioL16 then pure (data ++ rate44100, reader)
  else pure (data, reader)

def Reader.readInstruction (reader : Reader) : Outcome (Instruction × Reader) := do
  let (msg, reader) ← reader.read
  let instruction ← parse msg
  pure (instruction, reader)

/-- As many instructions, one after the other. -/
def Reader.readInstructions : Nat → Reader → Outcome (List Instruction × Reader)
  | 0, reader => pure ([], reader)
  | n + 1, reader => do
    let (instruction, reader) ← reader.readInstruction
    let (instructions, reader) ← readInstructions n reader
    pure (instruction :: instructions, reader)

/-! ## The protocol

What the protocol has for an opcode and arguments that are texts: the length of an element is the number
of its characters. -/

structure Command where
  opcode : String
  args : List String

def Command.elements (c : Command) : List String := c.opcode :: c.args

def Command.instruction (c : Command) : Instruction :=
  newInstruction (bytesOf c.opcode) (c.args.map bytesOf)

def protocolElement (value : String) : List UInt8 := bytesOf (toString value.length) ++ dot :: bytesOf value

def Command.protocolText (c : Command) : List UInt8 :=
  [comma].intercalate (c.elements.map protocolElement) ++ [delimiter]

/-- The text of each instruction is the one of the protocol and is parsed back, and the texts of all are
read one by one in their order. -/
structure RoundTrips (cs : List Command) (err : String) : Prop where
  lengths : ∀ c ∈ cs, c.instruction.string.1 = c.protocolText
  parsed : ∀ c ∈ cs, parse c.instruction.string.1 = .returned c.instruction
  read : Reader.readInstructions cs.length { unread := cs.flatMap fun c => c.instruction.string.1, err } =
    .returned (cs.map Command.instruction, { unread := [], err })

/-- A text of ASCII characters that are not separators. -/
def Plain (s : String) : Prop := ∀ c ∈ s.toList, c.toNat < 128 ∧ c ≠ ',' ∧ c ≠ '.' ∧ c ≠ ';'

/-! ## What the parser indexes -/

/-- Every element between commas has a dot. -/
def Dotted (content : List UInt8) : Prop := ∀ message ∈ (trimmed content).splitOn comma, dot ∈ message

/-- The lines that `Read` does not hand on as they are. -/
def specialLines : List (List UInt8) := [rate44100, rate22050, audioL16]

/-- The text is parsed, and an instruction is read from a connection that delivers it, without an index
out of range. -/
structure Safe (content : List UInt8) (err : String) : Prop where
  parse : parse content ≠ .panicked
  read : Reader.readInstruction { unread := content, err } ≠ .panicked

end Guacamole

end NextDBM
