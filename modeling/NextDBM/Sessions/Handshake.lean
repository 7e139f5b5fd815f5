import NextDBM.Library.Base64
import NextDBM.Library.Transactions
import NextDBM.Sessions.Instructions

/-!
# The connection to guacd

A tunnel begins with a handshake: the server asks for a protocol or for a connection that exists already,
guacd answers with the names of the parameters that it wants, the server sends their values, and guacd
answers with the id of the connection. From then on the lines of guacd go to the browser as messages.
-/

namespace NextDBM

open Calls Transaction

namespace Guacamole

/-! ## The handshake -/

structure Configuration where
  connectionId : List UInt8 := []
  protocol : List UInt8 := []
  /-- A name that is not in the map has the empty value. -/
  parameters : List UInt8 → List UInt8 := fun _ => []

namespace Configuration

def setParameter (config : Configuration) (name value : List UInt8) : Configuration :=
  { config with parameters := Function.update config.parameters name value }

def unSetParameter (config : Configuration) (name : List UInt8) : Configuration :=
  { config with parameters := Function.update config.parameters name [] }

def getParameter (config : Configuration) (name : List UInt8) : List UInt8 := config.parameters name

def setReadOnlyMode (config : Configuration) : Configuration :=
  config.setParameter (bytesOf "read-only") (bytesOf "true")

end Configuration

/-- A connection to guacd. -/
structure Conn where
  reader : Reader
  sent : List UInt8 := []
  /-- How many bytes can still be written, if not any number of them. -/
  room : Option Nat := none
  writeErr : String := "broken pipe"
  isClosed : Bool := false
  deriving DecidableEq

/-- How work on a connection ends when it does not return. -/
inductive Stop
  | failed (text : List UInt8)
  | panicked
  deriving DecidableEq

abbrev OnConn (α : Type) : Type := ExceptT Stop (StateM Conn) α

/-- `WriteAndFlush`; a write that fails may have sent a part. -/
def writeAndFlush (p : List UInt8) : OnConn Unit := ExceptT.mk fun c =>
  if Serves c.room p.length then
    (.ok (), { c with sent := c.sent ++ p, room := spend p.length c.room })
  else
    (.error (.failed (bytesOf c.writeErr)),
      { c with sent := c.sent ++ p.take (c.room.getD 0), room := some 0 })

def writeInstructionAndFlush (instruction : Instruction) : OnConn Unit :=
  writeAndFlush instruction.string.1

def expect (opcode : List UInt8) : OnConn Instruction := ExceptT.mk fun c =>
  match c.reader.readInstruction with
  | .returned (instruction, reader) =>
    if opcode ≠ instruction.opcode then
      (.error (.failed (bytesOf "expected \"" ++ opcode ++
        bytesOf "\" instruction but instead received \"" ++ instruction.opcode ++ bytesOf "\"")),
        { c with reader })
    else (.ok instruction, { c with reader })
  | .failed text => (.error (.failed (bytesOf text)), c)
  | .panicked => (.error .panicked, c)

/-- `_ = conn.Close()` when there is an error; a panic passes by. -/
def closeOnError {α : Type} : Except Stop α × Conn → Except Stop α × Conn
  | (.error (.failed text), c) => (.error (.failed text), { c with isClosed := true })
  | r => r

def closing {α : Type} (x : OnConn α) : OnConn α := ExceptT.mk fun c => closeOnError (x.run.run c)

structure Tunnel where
  uuid : List UInt8
  config : Configuration
  isOpen : Bool

/-- `const Version` -/
def version : List UInt8 := bytesOf "VERSION_1_4_0"

/-- `strings.Contains` -/
def contains (s part : List UInt8) : Bool := s.tails.any fun rest => part.isPrefixOf rest

def selectArg (config : Configuration) : List UInt8 :=
  if config.connectionId = [] then config.protocol else config.connectionId

/-- What is sent for a name that guacd asks for. -/
def parameterFor (config : Configuration) (argName : List UInt8) : List UInt8 :=
  if contains argName (bytesOf "VERSION") then version else config.getParameter argName

def instructionOf (opcode : String) (args : List (List UInt8)) : Instruction :=
  newInstruction (bytesOf opcode) args

/-- The end of `NewTunnel`. -/
def tunnelOf (config : Configuration) (ready : Instruction) : OnConn Tunnel :=
  match ready.args with
  | [] => closing (throw (.failed (bytesOf "no connection id received")))
  | uuid :: _ => pure { uuid, config, isOpen := true }

/-- `NewTunnel`, once the connection is there. -/
def newTunnel (config : Configuration) : OnConn Tunnel := do
  closing (writeInstructionAndFlush (instructionOf "select" [selectArg config]))
  let args ← closing (expect (bytesOf "args"))
  let width := config.getParameter (bytesOf "width")
  let height := config.getParameter (bytesOf "height")
  let dpi := config.getParameter (bytesOf "dpi")
  closing (writeInstructionAndFlush (instructionOf "size" [width, height, dpi]))
  closing (writeInstructionAndFlush
    (instructionOf "audio" [bytesOf "audio/L8", bytesOf "audio/L16"]))
  closing (writeInstructionAndFlush (instructionOf "video" []))
  closing (writeInstructionAndFlush
    (instructionOf "image" [bytesOf "image/jpeg", bytesOf "image/png", bytesOf "image/webp"]))
  closing (writeInstructionAndFlush (instructionOf "timezone" [bytesOf "Asia/Shanghai"]))
  closing (writeInstructionAndFlush
    (instructionOf "connect" (args.args.map (parameterFor config))))
  let ready ← expect (bytesOf "ready")
  tunnelOf config ready

/-! ### The dialogue -/

/-- What the server says first. -/
def greeting (config : Configuration) : Instruction := instructionOf "select" [selectArg config]

/-- What it says when it is asked for the parameters `names`. -/
def answer (config : Configuration) (names : List (List UInt8)) : List Instruction :=
  [instructionOf "size" [config.getParameter (bytesOf "width"),
      config.getParameter (bytesOf "height"), config.getParameter (bytesOf "dpi")],
    instructionOf "audio" [bytesOf "audio/L8", bytesOf "audio/L16"],
    instructionOf "video" [],
    instructionOf "image" [bytesOf "image/jpeg", bytesOf "image/png", bytesOf "image/webp"],
    instructionOf "timezone" [bytesOf "Asia/Shanghai"],
    instructionOf "connect" (names.map (parameterFor config))]

/-- The bytes of instructions one after the other. -/
def wire (instructions : List Instruction) : List UInt8 := instructions.flatMap fun i => i.string.1

/-- guacd asks for the parameters `names`; then it says what is left in `reader`. -/
def Asks (c : Conn) (names : List (List UInt8)) (reader : Reader) : Prop :=
  c.reader.readInstruction = .returned (instructionOf "args" names, reader)

/-- What a handshake sends. -/
def dialogue (config : Configuration) (names : List (List UInt8)) : List UInt8 :=
  wire (greeting config :: answer config names)

/-- guacd asks for the parameters `names`, and all of the dialogue is sent. -/
def Waits (config : Configuration) (c : Conn) (names : List (List UInt8)) (reader : Reader) : Prop :=
  Asks c names reader ∧ Serves c.room (dialogue config names).length

/-- All of the dialogue is sent, and guacd is ready with the id of a connection. -/
def Connects (config : Configuration) (c : Conn) (t : Tunnel) (c' : Conn) : Prop :=
  ∃ names reader uuid more reader', Waits config c names reader ∧
    reader.readInstruction = .returned (instructionOf "ready" (uuid :: more), reader') ∧
    t = { uuid, config, isOpen := true } ∧
    c' = { c with
      reader := reader'
      sent := c.sent ++ dialogue config names
      room := spend (dialogue config names).length c.room }

/-- guacd is not ready when it has got the values of the parameters: it says nothing more, or something
else. -/
def Refuses (config : Configuration) (c : Conn) : Prop :=
  ∃ names reader, Waits config c names reader ∧
    ((∃ text, reader.readInstruction = .failed text) ∨
      ∃ i reader', reader.readInstruction = .returned (i, reader') ∧ i.opcode ≠ bytesOf "ready")

/-- One of the two answers of guacd cannot be parsed. -/
def Garbles (config : Configuration) (c : Conn) : Prop :=
  (Serves c.room (wire [greeting config]).length ∧ c.reader.readInstruction = .panicked) ∨
    ∃ names reader, Waits config c names reader ∧ reader.readInstruction = .panicked

/-! ## The way to the browser -/

/-- `const TunnelClosed` -/
def tunnelClosed : Int := -1

/-- The messages of `Disconnect`. -/
def disconnect (code : Int) (reason : String) : List (List UInt8) :=
  let encodeReason := bytesOf (String.ofList (Base64.encode (bytesOf reason)))
  [(instructionOf "error" [encodeReason, bytesOf (toString code)]).string.1,
    (instructionOf "disconnect" []).string.1]

/-- The messages of `WriteCloseMessage` for a session of guacd. -/
def closeMessages (code : Int) : List (List UInt8) :=
  [(instructionOf "error" [[], bytesOf (toString code)]).string.1,
    (instructionOf "disconnect" []).string.1]

/-- The rounds of the loop of `GuacamoleHandler.Start`, and the messages that they send. -/
def relayRounds : Nat → Reader → List (List UInt8)
  | 0, _ => []
  | rounds + 1, reader =>
    match reader.read with
    | .returned (instruction, reader) =>
      if instruction.length = 0 then relayRounds rounds reader
      else instruction :: relayRounds rounds reader
    | _ => disconnect tunnelClosed "远程连接已关闭"

/-- All messages; every round but the last takes a semicolon. -/
def relay (reader : Reader) : List (List UInt8) :=
  relayRounds (reader.unread.count delimiter + 1) reader

/-- A line of guacd that goes to the browser as it is. -/
def IsLine (u : List UInt8) : Prop :=
  ∃ body, delimiter ∉ body ∧ u = body ++ [delimiter] ∧ u ∉ specialLines

/-- The audio stream that guacd opens; its type has a semicolon. -/
def audioAt (rate : List UInt8) : List UInt8 := audioL16 ++ rate

/-- What the browser is told of a text of guacd. -/
def toldOf (u : List UInt8) : List UInt8 := if u = audioAt rate22050 then audioAt rate44100 else u

end Guacamole

end NextDBM
