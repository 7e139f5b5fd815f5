import NextDBM.Gate.Security
import NextDBM.Model.Rows

/-!
# Commands of a proxied connection

`handleConnection` calls `processCommand` for one packet of the client after the other, until it
returns an error. A packet is a command byte and its data. Each call to the client, to the upstream
database, to the AI service and to the store may return, fail or panic; a panic is recovered at the
end of the turn, which then returns `nil`.
-/

namespace NextDBM

open Calls

namespace MariaDBProxy

/-- What `WriteValue` sends to the client: an error, the nil result, or a result. -/
inductive WireValue
  | error (text : String)
  | nilResult
  | result (rows : String)
  deriving DecidableEq, Repr

/-- The calls of `processCommand`. -/
inductive Call
  | readPacket
  | writeValue (v : WireValue)
  | useDB (dbName : String)
  | clientClose
  | ping
  | findByName (name : String)
  | callDeepSeekAPI (prompt : String) (maxTokens : Int) (apiKey model : String)
  | execute (sql : String)
  | createSqlLog (row : SqlLog)
  deriving DecidableEq, Repr

/-- What a call returns: the bytes of a packet, the value of a property, an answer of the AI service,
the rows of a statement. -/
@[reducible] def Answer : Call → Type
  | .readPacket => List UInt8
  | .findByName _ => String
  | .callDeepSeekAPI .. => String
  | .execute _ => String
  | _ => Unit

abbrev Response (c : Call) : Type := Outcome (Answer c)

/-- How a turn is left before its end. -/
inductive Exit
  | returned (err : String)
  | panic

/-- The calls of one turn, in order, with their answers. -/
abbrev Turn : Type := List (Event Response)

abbrev Program (α : Type) : Type := Prog Call Response Exit α

/-- `c, err := …` where the error is looked at. -/
def check (c : Call) : Program (Except String (Answer c)) := attempt .panic c

/-- `c, err := …; if err != nil { return err }`. -/
def orReturn (c : Call) : Program (Answer c) := obtained .panic .returned c

/-- The error of a call, if any. -/
def errorOf {α : Type} : Except String α → Option String
  | .ok _ => none
  | .error err => some err

/-- `hack.String`: a text with one character for each byte. -/
def hackString (data : List UInt8) : String :=
  String.ofList (data.map fun b => Char.ofNat b.toNat)

/-- The marker of a statement that asks the AI service. -/
def aiMarked (cmdData : String) : Bool := Text.hasInfix cmdData "-- ai#"

/-- `cmdType` 2. -/
def useDatabase (cmdData : String) : Program (Option String) := do
  match ← check (.useDB cmdData) with
  | .error err => errorOf <$> check (.writeValue (.error err))
  | .ok _ => errorOf <$> check (.writeValue .nilResult)

/-- A marked statement: the answer of the AI service is selected from the database; the error of
`WriteValue` is assigned to a variable of the inner block. -/
def callAI (cmdData : String) : Program (Option String) := do
  let propertyAiapiKey ← orReturn (.findByName "ai-deepseek-apiKey")
  let propertyMaxTokens ← orReturn (.findByName "ai-deepseek-maxTokens")
  let propertyModel ← orReturn (.findByName "ai-deepseek-model")
  let resp ← orReturn
    (.callDeepSeekAPI cmdData (stringToInt propertyMaxTokens) propertyAiapiKey propertyModel)
  let v ← orReturn (.execute ("select '" ++ resp ++ "' as AI from dual;"))
  let _ ← check (.writeValue (.result v))
  return none

/-- A plain statement is executed, its outcome is written to the client, and a row is logged; the
error of the insert replaces that of `WriteValue`. -/
def executePlain (sqlLogObj : SqlLog) (cmdType : UInt8) : Program (Option String) := do
  match ← check (.execute sqlLogObj.sqlCommand) with
  | .error sqlErr =>
    let _ ← check (.writeValue (.error sqlErr))
    let reason := "cmdType = " ++ toString cmdType.toNat ++ " err = " ++ sqlErr
    errorOf <$> check (.createSqlLog { sqlLogObj with state := "0", reason })
  | .ok v =>
    let _ ← check (.writeValue (.result v))
    let reason := "cmdType = " ++ toString cmdType.toNat ++ " 成功"
    errorOf <$> check (.createSqlLog { sqlLogObj with state := "1", reason })

/-- The `switch` on the command type; the value is the error that the turn ends with. -/
def dispatch (sqlLogObj : SqlLog) (cmdType : UInt8) : Program (Option String) :=
  if cmdType = 2 then useDatabase sqlLogObj.sqlCommand
  else if cmdType = 14 ∨ cmdType = 4 then errorOf <$> check (.writeValue .nilResult)
  else if cmdType = 1 then do
    let err ← check (.writeValue .nilResult)
    let _ ← check .clientClose
    return errorOf err
  else do
    let _ ← orReturn .ping
    if aiMarked sqlLogObj.sqlCommand then callAI sqlLogObj.sqlCommand
    else executePlain sqlLogObj cmdType

/-- A turn on an open connection: the error returned, and whether the connection stays open. An empty
packet panics at `data[0]`. -/
def serveCommand (session : Session) (id : String) : Program (Option String × Bool) := do
  match ← check .readPacket with
  | .error err => return (some err, false)
  | .ok [] => Prog.stop .panic
  | .ok (cmdType :: data) =>
    let sqlLogObj : SqlLog :=
      { id := id
        owner := session.creator
        assetId := session.assetId
        sqlCommand := hackString data
        sessionId := session.id }
    let err ← dispatch sqlLogObj cmdType
    return (err, err.isNone)

/-- `processCommand`, with the id that it draws for its row; `isOpen` says that `c.Conn` is not
nil. -/
def processCommand (session : Session) (id : String) (isOpen : Bool) :
    Prog Call Response Empty (Option String × Bool) :=
  if isOpen then
    (serveCommand session id).handle fun
      | .returned err => pure (some err, true)
      | .panic => pure (none, true)
  else pure (none, false)

/-- The turns of `handleConnection`: the loop goes on while `processCommand` returns `nil`. -/
inductive Serves (session : Session) : Bool → List Turn → Prop
  | start (isOpen : Bool) : Serves session isOpen []
  | next {isOpen isOpen' : Bool} {es : Turn} {turns : List Turn} (id : String)
      (h : Runs (processCommand session id isOpen) es (.ok (none, isOpen')))
      (hrest : Serves session isOpen' turns) : Serves session isOpen (es :: turns)
  | last {isOpen isOpen' : Bool} {es : Turn} {err : String} (id : String)
      (h : Runs (processCommand session id isOpen) es (.ok (some err, isOpen'))) :
      Serves session isOpen [es]

/-! ## The audit -/

/-- The statements sent upstream through `client.Execute`, in order, with the states of their
outcomes. -/
def executions (es : List (Event Response)) : List (String × String) :=
  es.filterMap fun
    | ⟨.execute sql, r⟩ => some (sql, SqlLog.stateOf r)
    | _ => none

/-- The rows written to `sql_logs`, in order. -/
def rows (es : List (Event Response)) : List (String × String) :=
  es.filterMap fun
    | ⟨.createSqlLog row, .returned _⟩ => some row.entry
    | _ => none

/-- Every statement sent upstream has its row, and the rows are in the order of execution. -/
def Audited (turns : List Turn) : Prop := rows turns.flatten = executions turns.flatten

instance (turns : List Turn) : Decidable (Audited turns) :=
  inferInstanceAs (Decidable (rows turns.flatten = executions turns.flatten))

/-- What a turn that executes a statement must meet: the packet does not carry the marker, neither
the execution nor the answer to the client panics, and the row is inserted. -/
structure Recordable (es : Turn) : Prop where
  unmarked : ∀ cmdType data, ⟨.readPacket, .returned (cmdType :: data)⟩ ∈ es →
    aiMarked (hackString data) = false
  noPanic : ∀ sql r, ⟨.execute sql, r⟩ ∈ es → r ≠ .panicked
  written : ∀ v r, ⟨.writeValue v, r⟩ ∈ es → r ≠ .panicked
  inserted : ∀ row r, ⟨.createSqlLog row, r⟩ ∈ es → r = .returned ()

end MariaDBProxy

end NextDBM
