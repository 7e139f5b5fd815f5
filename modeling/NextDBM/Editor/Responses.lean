import NextDBM.Library.Json

/-!
# Responses on the way to the browser

The editor's responses are JSON texts that follow each other on a pipe, with nothing between them.
`readFormTunnel` reads the pipe character by character, `writeToWebsocket` collects the characters and
sends what it has at every tick. In the browser `webSocketOnData` gets one message after the other; it
collects them until they are a JSON text.

Every character is kept with its place in the stream, so that two deliveries of the same text are told
apart. The page is that of the closure which a connection was opened with.
-/

namespace NextDBM

open Json

namespace DBMHandler

/-- A character and its place in the stream. -/
abbrev Placed : Type := Nat × Nat

/-- The characters alone. -/
def codes (t : List Placed) : List Nat := t.map Prod.snd

/-- A text whose first character has this place. -/
def place (n : Nat) : List Nat → List Placed
  | [] => []
  | c :: t => (n, c) :: place (n + 1) t

/-! ## The server -/

/-- What the `select` of `writeToWebsocket` takes: a character of the pipe, or a tick. -/
inductive Event
  | data (u : Placed)
  | tick

def Event.unit? : Event → Option Placed
  | data u => some u
  | tick => none

/-- What is appended to the buffer: `utf8.RuneError` becomes `@`. -/
def written (u : Placed) : Placed := if u.2 = 0xFFFD then (u.1, 64) else u

/-- `writeToWebsocket`, from this buffer on: the messages that it sends. -/
def writeToWebsocket (buf : List Placed) : List Event → List (List Placed)
  | [] => []
  | .tick :: es => if buf = [] then writeToWebsocket buf es else buf :: writeToWebsocket [] es
  | .data u :: es => writeToWebsocket (buf ++ [written u]) es

/-! ## Values in the browser -/

/-- The characters of a name or text of the source. -/
def chars (s : String) : List Nat := s.toList.map Char.toNat

/-- `v.name` of a value other than `null`; `none` is `undefined`. The last of several members counts. -/
def get (v : Json) (name : String) : Option Json :=
  match v with
  | .obj members => (members.reverse.find? fun m => m.1 == chars name).map Prod.snd
  | _ => none

/-- `x === s`. -/
def isString (x : Option Json) (s : String) : Bool :=
  match x with
  | some (.str units) => units == chars s
  | _ => false

mutual

/-- The value converts to a primitive: no object hides `toString`. -/
def isPrimitive : Json → Bool
  | .obj members => members.all fun m => m.1 != chars "toString"
  | .arr vs => arePrimitive vs
  | _ => true

def arePrimitive : List Json → Bool
  | [] => true
  | v :: vs => isPrimitive v && arePrimitive vs

end

def converts (x : Option Json) : Bool := x.all isPrimitive

/-- `StrWhiteSpaceChar`. -/
def isStrSpace (c : Nat) : Bool :=
  (9 ≤ c && c ≤ 13) || c = 32 || c = 160 || c = 0x1680 || (0x2000 ≤ c && c ≤ 0x200A) ||
    c = 0x2028 || c = 0x2029 || c = 0x202F || c = 0x205F || c = 0x3000 || c = 0xFEFF

/-- A `StrUnsignedDecimalLiteral` with digits. -/
def isDecimal (t : List Nat) : Bool :=
  let (mantissa, exponent) := t.span fun c => c != 101 && c != 69
  let (int, frac) := mantissa.span (· != 46)
  let digits := int ++ frac.drop 1
  let power := match exponent.drop 1 with
    | 43 :: ds => ds
    | 45 :: ds => ds
    | ds => ds
  !digits.isEmpty && digits.all isDigit && (exponent.isEmpty || (!power.isEmpty && power.all isDigit))

/-- The number of a string without white space around it is zero. -/
def isZeroLiteral (t : List Nat) : Bool :=
  match t with
  | [] => true
  | 48 :: c :: ds =>
    if c ∈ chars "xXoObB" then !ds.isEmpty && ds.all (· == 48)
    else isDecimal t && zeroFloat t
  | 43 :: t => isDecimal t && zeroFloat t
  | 45 :: t => isDecimal t && zeroFloat t
  | t => isDecimal t && zeroFloat t

/-- `Number(s)` is zero. -/
def isZeroString (t : List Nat) : Bool :=
  isZeroLiteral ((t.dropWhile isStrSpace).reverse.dropWhile isStrSpace).reverse

mutual

/-- `Number(String(v))` is zero, for an element of an array; a missing value is the empty text. -/
def isZeroElement : Json → Bool
  | .null => true
  | .bool _ => false
  | .num literal => zeroFloat literal
  | .str units => isZeroString units
  | .arr vs => isZeroArray vs
  | .obj _ => false

/-- Two elements have a comma between them, which no number has. -/
def isZeroArray : List Json → Bool
  | [] => true
  | [v] => isZeroElement v
  | _ => false

end

/-- `x == 0`. -/
def looseZero : Option Json → Bool
  | none => false
  | some .null => false
  | some (.bool b) => !b
  | some v => isZeroElement v

/-! ## The browser -/

inductive Consumer
  | doImport
  | toast
  | setJsonObject
  deriving DecidableEq

/-- Who gets a response: errors go to a notification, but not those of tables. -/
def consumer (v : Json) : Consumer :=
  let retType := get v "retType"
  if isString retType "tableRsesult" ∨ looseZero (get v "code") ∨ isString retType "tableStruct" then
    .setJsonObject
  else if isString retType "importDatabaseJsonResult" then .doImport
  else .toast

/-- `jsonObjectTmp.attr.content + jsonObjectTmp.msg` throws. -/
def importThrows (v : Json) : Bool :=
  match get v "attr" with
  | none => true
  | some .null => true
  | some attr => !(converts (get attr "content") && converts (get v "msg"))

/-- A value whose examination throws: the message is given to nobody. -/
def throws (v : Json) : Bool :=
  match v with
  | .null => true
  | v =>
    if isString (get v "retType") "tableRsesult" then false
    else if !converts (get v "code") then true
    else match consumer v with
      | .doImport => importThrows v
      | .toast => !converts (get v "msg")
      | .setJsonObject => false

/-- What a consumer was given. -/
abbrev Delivery : Type := Consumer × List Placed

/-- `buffer` and `attempts`. -/
structure Page where
  buffer : List Placed := []
  attempts : Nat := 0

namespace Page

/-- The part of `webSocketOnData` that collects. -/
def collect (p : Page) (data : List Placed) : Page × List Delivery :=
  let buffer := p.buffer ++ data
  if (parse (codes buffer)).isSome then ({}, [(.setJsonObject, buffer)])
  else if p.attempts + 1 > 5 then ({}, [])
  else ({ buffer, attempts := p.attempts + 1 }, [])

/-- A message that is itself an error is shown at once, whatever the buffer holds. -/
def webSocketOnData (p : Page) (data : List Placed) : Page × List Delivery :=
  match parse (codes data) with
  | some v =>
    if throws v then (p, [])
    else if consumer v ≠ .setJsonObject then (p, [(consumer v, data)])
    else p.collect data
  | none => p.collect data

/-- What the messages deliver, one after the other. -/
def deliveries (p : Page) : List (List Placed) → List Delivery
  | [] => []
  | data :: rest => (p.webSocketOnData data).2 ++ (p.webSocketOnData data).1.deliveries rest

end Page

/-! ## What the framing promises -/

/-- A response: the text of a JSON object. -/
structure Response where
  text : List Nat
  members : List (List Nat × Json)
  value : Value text (.obj members)

def Response.consumer (r : Response) : Consumer := DBMHandler.consumer (.obj r.members)

/-- The characters that the DB client writes. -/
def stream (responses : List Response) : List Nat := responses.flatMap Response.text

/-- Characters and ticks in an order in which every character is taken. -/
structure Turns (responses : List Response) where
  events : List Event
  all : events.filterMap Event.unit? = place 0 (stream responses)

/-- The messages that the browser gets; the last tick comes after the last character. -/
def Turns.messages {responses : List Response} (turns : Turns responses) : List (List Placed) :=
  writeToWebsocket [] (turns.events ++ [.tick])

/-- Every response is given to its consumer, in turn; the first has this place. -/
def expected (n : Nat) : List Response → List Delivery
  | [] => []
  | r :: rs => (r.consumer, place n r.text) :: expected (n + r.text.length) rs

/-- Each response is delivered once, whole and in order. -/
def Delivered (responses : List Response) (turns : Turns responses) : Prop :=
  Page.deliveries {} turns.messages = expected 0 responses

instance (responses : List Response) (turns : Turns responses) :
    Decidable (Delivered responses turns) :=
  inferInstanceAs (Decidable (_ = _))

/-- A message that is collected: it is no JSON text, or one that goes to `setJsonObject`. -/
def Passes (data : List Placed) : Prop :=
  ∀ v, parse (codes data) = some v → throws v = false ∧ consumer v = .setJsonObject

/-- The messages carry the response and no more. An error comes in one message; another response in
at most six, none of which is by itself an error. -/
structure Suits (r : Response) (messages : List (List Placed)) : Prop where
  whole : codes messages.flatten = r.text
  shown : r.consumer = .setJsonObject → messages.length ≤ 6 ∧ ∀ data ∈ messages, Passes data
  error : r.consumer ≠ .setJsonObject → messages.length = 1 ∧ throws (.obj r.members) = false

/-- No message holds parts of two responses, and the messages of each response suit it. -/
def Suited (responses : List Response) (messages : List (List Placed)) : Prop :=
  ∃ groups : List (List (List Placed)), groups.flatten = messages ∧
    List.Forall₂ Suits responses groups

end DBMHandler

end NextDBM
