import Mathlib.Algebra.GroupWithZero.Nat
import NextDBM.Model.Rows

/-!
# Messages of the database editor

`handleJSONData` takes one message of the browser, runs its SQL on the asset's database and replies on
the pipe to the browser. The type of the message (`retType`) decides what else is done: exports read
the tables and write files, imports run the script files of an archive in a transaction, results are
read page by page. Every call to the database, to the file system and to the store may return or
fail; `log.Fatal` ends the process.

A statement is kept as what it is made of: the message's own SQL, or a wrapper that the server
generates around it or around names.
-/

namespace NextDBM

open Calls

namespace DBSession

/-- A decoded JSON value (`interface{}`); a number is a finite `float64`. -/
inductive Value
  | null
  | bool (b : Bool)
  | number (x : Rat)
  | string (s : String)
  | array (vs : List Value)
  | object (fields : List (String × Value))

namespace Value

/-- `v.(map[string]interface{})`, with the nil map where the assertion fails. -/
def asMap : Value → List (String × Value)
  | object fields => fields
  | _ => []

/-- `v.(string)`. -/
def asString : Value → Option String
  | string s => some s
  | _ => none

/-- `v.(float64)`. -/
def asNumber : Value → Option Rat
  | number x => some x
  | _ => none

/-- A lookup in a map; the nil interface where the key is missing. -/
def get (attrMap : List (String × Value)) (key : String) : Value :=
  (attrMap.lookup key).getD null

/-- `int(x)`. -/
def truncate (x : Rat) : Int := x.num.tdiv x.den

end Value

/-- `Message`. -/
structure Message where
  key : String := ""
  retType : String := ""
  db : String := ""
  data : Value := .null
  code : Int := 0
  msg : String := "成功"
  attr : Value := .null

/-- A statement, before it is rendered as text. -/
inductive Statement
  /-- The SQL of the message, as it is sent. -/
  | own (sent : String)
  /-- `SELECT count(*) FROM (…)` and `SELECT * FROM (…) LIMIT … OFFSET …` around it. -/
  | count (sent : String)
  | page (sent : String) (limit offset : Int)
  /-- The text of a script file. -/
  | script (text : String)
  /-- ``USE `…` `` or `SET search_path TO …`, by the type of the database; empty for other types. -/
  | use (dbType : String) (database : Value)
  /-- `USE …`. -/
  | useUnquoted (database : Value)
  | showCreateTable (database : Value) (table : String)
  | tableCount (database table : Value)
  | tablePage (database table : Value) (limit offset : Int)

/-- `pageSize` of the exports. -/
def exportPageSize : Int := 100000

/-- `strings.TrimSuffix(sqlQuery, ";")`. -/
def trimSemicolon (sqlQuery : String) : String :=
  if sqlQuery.toList.getLast? = some ';' then String.ofList sqlQuery.toList.dropLast else sqlQuery

/-- A visit of `filepath.Walk`. -/
structure Visit where
  path : String
  isDir : Bool := false
  err : Option String := none

/-- `filepath.Ext(path) == ".sql"`. -/
def isSqlFile (path : String) : Bool := decide (".sql".toList <:+ path.toList)

/-- The calls of `handleJSONData`. Paths are given by the parts that `path.Join` joins after the base
directory. -/
inductive Call
  | query (stmt : Statement)
  | dbExec (stmt : Statement)
  | begin
  | txQuery (stmt : Statement)
  | txExec (stmt : Statement)
  | commit
  | rollback
  | createSqlLog (row : SqlLog)
  | rowsToTablesArray
  | rowsToKeyValueJson
  | rowsToJSONArray
  | rowsToMenuJson (parentKey menuType : String) (attr : Value)
  | rowsToInsertStatements (table : Value)
  /-- `countRows.Next()` and, where it is true, `countRows.Scan(&totalRows)`. -/
  | scanCount
  | marshal (message : Message)
  | writeJSON (json : String)
  /-- `messageJSON, _ := json.Marshal(message); s.Stdout.Write(messageJSON)`. -/
  | reply (message : Message)
  | fileExists (parts : List String)
  | mkdirAll (parts : List String)
  | unzip (source target : List String)
  | walk (parts : List String)
  | readFile (path : String)
  | writeFile (parts : List String) (content : String)
  | appendFile (parts : List String) (content : String)
  | openFile (parts : List String)
  | zipDir (source target : List String)
  | moveFile (source target : List String)

/-- What a call returns. -/
@[reducible] def Answer : Call → Type
  | .dbExec _ => Value
  | .rowsToTablesArray => List String
  | .rowsToKeyValueJson => List (String × String)
  | .rowsToJSONArray => Value
  -- the rows of a menu are indexed by columns that may be missing, where the call panics
  | .rowsToMenuJson .. => Option Value
  | .rowsToInsertStatements _ => String
  | .scanCount => Option Int
  | .marshal _ => String
  | .fileExists _ => Bool
  | .walk _ => List Visit
  | .readFile _ => String
  | _ => Unit

abbrev Response (c : Call) : Type := Except String (Answer c)

/-- How the handling is left before its end: by `return err`, by a panic, or with the process. -/
inductive Exit
  | returned (err : String)
  | panic
  | fatal
  deriving DecidableEq, Repr

abbrev Program (α : Type) : Type := Prog Call Response Exit α

abbrev Trace : Type := List (Event Response)

/-! ## Calls and their errors -/

/-- A call whose error is only logged. -/
def ignore (c : Call) : Program Unit := do
  let _ ← Prog.ask c

/-- `if err != nil { return err }`. -/
def orReturn (c : Call) : Program (Answer c) := do
  match ← Prog.ask c with
  | .ok a => return a
  | .error err => .stop (.returned err)

/-- `if err != nil { panic(err) }`. -/
def orPanic (c : Call) : Program (Answer c) := do
  match ← Prog.ask c with
  | .ok a => return a
  | .error _ => .stop .panic

/-- `if err != nil { log.Fatal(…) }`. -/
def orFatal (c : Call) : Program (Answer c) := do
  match ← Prog.ask c with
  | .ok a => return a
  | .error _ => .stop .fatal

/-- The error reply. -/
def Message.failed (message : Message) (err : String) : Message :=
  { message with code := -1, msg := err }

/-- An error is replied and returned. -/
def replyError {α : Type} (message : Message) (err : String) : Program α := do
  ignore (.reply (message.failed err))
  .stop (.returned err)

def orReply (message : Message) (c : Call) : Program (Answer c) := do
  match ← Prog.ask c with
  | .ok a => return a
  | .error err => replyError message err

/-- The reply of a message that was handled. -/
def replyResult (message : Message) : Program Unit := do
  let messageJSON ← orReturn (.marshal message)
  ignore (.writeJSON messageJSON)

/-- The SQL of the message is executed and its outcome logged; an error is replied and returned. -/
def runLogged (message : Message) (sqlLogObj : SqlLog) (c : Call) : Program (Answer c) := do
  match ← Prog.ask c with
  | .error err => do
    ignore (.createSqlLog { sqlLogObj with state := "0", reason := err })
    replyError message err
  | .ok a => do
    ignore (.createSqlLog { sqlLogObj with state := "1", reason := "成功" })
    return a

/-- `attrMap[key].(string)`. -/
def stringOf (v : Value) : Program String :=
  match v.asString with
  | some s => .done s
  | none => .stop .panic

/-- `attrMap[key].(float64)`. -/
def numberOf (v : Value) : Program Rat :=
  match v.asNumber with
  | some x => .done x
  | none => .stop .panic

/-! ## Files -/

def ensureDir (parts : List String) : Program Unit := do
  match ← Prog.ask (Call.fileExists parts) with
  | .ok true => return ()
  | _ => orReturn (.mkdirAll parts)

/-- The directory of an export and the path of its archive. -/
def exportPlace (message : Message) : Program (List String × List String) := do
  let attrMap := message.attr.asMap
  let storageId ← stringOf (Value.get attrMap "storageId")
  let filePath ← stringOf (Value.get attrMap "filePath")
  ensureDir [storageId, filePath]
  let fileName ← stringOf (Value.get attrMap "fileName")
  ensureDir [storageId, filePath]
  return ([storageId, filePath], [storageId, "/export/", fileName])

def writeStructs (dir : List String) (keyValueJson : List (String × String)) : Program Unit :=
  Prog.each (fun (key, value) => orReturn (.writeFile (dir ++ [key ++ "-struct.sql"]) value))
    keyValueJson

/-- The archive is written and moved to the directory. -/
def pack (dir targetZip : List String) : Program Unit := do
  orPanic (.zipDir dir targetZip)
  orPanic (.moveFile targetZip dir)

/-- The keys and the texts of `SHOW CREATE TABLE`. -/
def showCreate (message : Message) (database : Value) (tableName : String) :
    Program (List (String × String)) := do
  orReply message (.query (.showCreateTable database tableName))
  orReply message .rowsToKeyValueJson

/-- The rows of a table are read page by page and appended to its file. -/
def exportRows (message : Message) (database table : Value) (dir : List String) : Program Unit := do
  orReply message (.query (.tableCount database table))
  let totalRows := (← orReply message .scanCount).getD 0
  let totalPages := (Int.bmod (totalRows + exportPageSize - 1) (2 ^ 64)).tdiv exportPageSize
  Prog.each (fun currentPage : Nat => do
      orReply message (.query (.tablePage database table exportPageSize (currentPage * exportPageSize)))
      let jsonResult ← orReply message (.rowsToInsertStatements table)
      let tableName ← stringOf table
      orReturn (.appendFile (dir ++ [tableName ++ "-data.sql"]) jsonResult))
    (List.range totalPages.toNat)

/-! ## The types of messages -/

/-- The frame of the exports of a database. -/
def exportDatabase (message : Message) (sqlLogObj : SqlLog) (sqlQuery : String)
    (exportTable : Message → Value → List String → String → Program Unit) : Program Unit := do
  let _ ← runLogged message sqlLogObj (.query (.own sqlQuery))
  let allTablesJson ← orReply message .rowsToTablesArray
  let message := { message with data := .string "ok" }
  let messageJSON ← orReturn (.marshal message)
  let (dir, targetZip) ← exportPlace message
  Prog.each (exportTable message (Value.get message.attr.asMap "database") dir) allTablesJson
  pack dir targetZip
  ignore (.writeJSON messageJSON)

def exportDatabaseOnlyStructJsonResult (message : Message) (sqlLogObj : SqlLog)
    (sqlQuery : String) : Program Unit :=
  exportDatabase message sqlLogObj sqlQuery fun message database dir tableName => do
    let tableDDLJson ← showCreate message database tableName
    writeStructs dir tableDDLJson

def exportDatabaseStructDataJsonResult (message : Message) (sqlLogObj : SqlLog)
    (sqlQuery : String) : Program Unit :=
  exportDatabase message sqlLogObj sqlQuery fun message database dir tableName => do
    let tableDDLJson ← showCreate message database tableName
    writeStructs dir tableDDLJson
    exportRows message database (.string tableName) dir

/-- The data of a reply that lists keys and values. -/
def Value.ofKeyValue (keyValueJson : List (String × String)) : Value :=
  .object (keyValueJson.map fun (key, value) => (key, .string value))

/-- The frame of the exports of a table. -/
def exportTable (message : Message) (sqlLogObj : SqlLog) (sqlQuery : String)
    (exportData : Message → List String → Program Unit) : Program Unit := do
  let _ ← runLogged message sqlLogObj (.query (.own sqlQuery))
  let keyValueJson ← orReply message .rowsToKeyValueJson
  let message := { message with data := .ofKeyValue keyValueJson }
  let messageJSON ← orReturn (.marshal message)
  let (dir, targetZip) ← exportPlace message
  writeStructs dir keyValueJson
  exportData message dir
  pack dir targetZip
  ignore (.writeJSON messageJSON)

def exportTableOnlyStructJsonResult (message : Message) (sqlLogObj : SqlLog) (sqlQuery : String) :
    Program Unit :=
  exportTable message sqlLogObj sqlQuery fun _ _ => return ()

def exportTableStructDataJsonResult (message : Message) (sqlLogObj : SqlLog) (sqlQuery : String) :
    Program Unit :=
  exportTable message sqlLogObj sqlQuery fun message dir =>
    let attrMap := message.attr.asMap
    exportRows message (Value.get attrMap "database") (Value.get attrMap "table") dir

def keyValueJsonResult (message : Message) (sqlLogObj : SqlLog) (sqlQuery : String) :
    Program Unit := do
  let _ ← runLogged message sqlLogObj (.query (.own sqlQuery))
  let keyValueJson ← orReply message .rowsToKeyValueJson
  replyResult { message with data := .ofKeyValue keyValueJson }

def executeResult (message : Message) (sqlLogObj : SqlLog) (sqlQuery : String) : Program Unit := do
  ignore (.dbExec (.useUnquoted (Value.get message.attr.asMap "database")))
  let result ← runLogged message sqlLogObj (.dbExec (.own sqlQuery))
  replyResult { message with data := result }

def tableStruct (message : Message) (sqlLogObj : SqlLog) (sqlQuery : String) : Program Unit := do
  let _ ← runLogged message sqlLogObj (.query (.own (trimSemicolon sqlQuery)))
  let jsonResult ← orReply message .rowsToJSONArray
  replyResult { message with data := jsonResult }

/-- `databaseMenu`, `columnsMenu` and the menus between them. -/
def menuResult (message : Message) (sqlLogObj : SqlLog) (sqlQuery : String) : Program Unit := do
  let _ ← runLogged message sqlLogObj (.query (.own sqlQuery))
  match ← orReply message (.rowsToMenuJson message.key message.retType message.attr) with
  | some menuItems => replyResult { message with data := menuItems }
  | none => .stop .panic

def erJsonResult (message : Message) (sqlLogObj : SqlLog) (sqlQuery : String) : Program Unit := do
  let _ ← runLogged message sqlLogObj (.query (.own sqlQuery))
  let allTablesJson ← orReply message .rowsToTablesArray
  let message := { message with data := .string "ok" }
  let messageJSON ← orReturn (.marshal message)
  let (dir, targetDir) ← exportPlace message
  orReturn (.openFile targetDir)
  Prog.each (fun tableName => do
      let _ ← showCreate message (Value.get message.attr.asMap "database") tableName)
    allTablesJson
  orPanic (.moveFile targetDir dir)
  ignore (.writeJSON messageJSON)

/-- The message's SQL is counted in a transaction, which is then committed; the page is read outside
it. -/
def tableRsesult (dbType : String) (message : Message) (sqlLogObj : SqlLog) (sqlQuery : String) :
    Program Unit := do
  orReturn .begin
  let attrMap := message.attr.asMap
  ignore (.txExec (.use dbType (Value.get attrMap "database")))
  let sent := trimSemicolon sqlQuery
  let pageSize := Value.truncate (← numberOf (Value.get attrMap "pageSize"))
  let currentPage := Value.truncate (← numberOf (Value.get attrMap "currentPage"))
  match ← Prog.ask (.txQuery (.count sent)) with
  | .error err => do
    ignore (.createSqlLog { sqlLogObj with state := "0", reason := err })
    replyError message err
  | .ok _ => do
    ignore .commit
    ignore (.createSqlLog { sqlLogObj with state := "1", reason := "成功" })
    let totalRows := (← orReply message .scanCount).getD 0
    let fields := attrMap.filter fun field => field.1 ≠ "totalRows"
    let message := { message with attr := .object (("totalRows", .number totalRows) :: fields) }
    orReply message (.query (.page sent pageSize (Int.bmod ((currentPage - 1) * pageSize) (2 ^ 64))))
    let jsonResult ← orReply message .rowsToJSONArray
    replyResult { message with data := jsonResult }

/-- The walk over the unpacked archive: each script file is executed. The value is the error that
stops the walk, if any, and whether the transaction was rolled back for it. -/
def walkScripts (message : Message) : List Visit → Program (Option String × Bool)
  | [] => return (none, false)
  | visit :: visits => do
    match visit.err with
    | some err => return (some err, false)
    | none =>
      if !visit.isDir && isSqlFile visit.path then do
        let sqlQuery ← orFatal (.readFile visit.path)
        match ← Prog.ask (.txExec (.script sqlQuery)) with
        | .ok _ => walkScripts message visits
        | .error err => do
          orFatal .rollback
          ignore (.reply (message.failed err))
          return (some err, true)
      else walkScripts message visits

/-- The transaction of an import. -/
def importScripts (message : Message) (targetDir : List String) : Program Unit := do
  orFatal .begin
  let visits := match ← Prog.ask (.walk targetDir) with
    | .ok visits => visits
    -- the root itself cannot be read
    | .error err => [{ path := "", err := some err }]
  match ← walkScripts message visits with
  | (some err, true) => .stop (.returned err)
  | (some err, false) => do
    orFatal .rollback
    .stop (.returned err)
  | (none, _) => do
    orFatal .commit
    replyResult message

def importDatabaseJsonResult (dbType : String) (message : Message) : Program Unit := do
  let attrMap := message.attr.asMap
  let storageId ← stringOf (Value.get attrMap "storageId")
  let filePath ← stringOf (Value.get attrMap "filePath")
  let fileName ← stringOf (Value.get attrMap "fileName")
  let dir := [storageId, filePath, fileName]
  let targetDir := [storageId, filePath]
  ensureDir dir
  ensureDir targetDir
  orPanic (.unzip dir targetDir)
  ignore (.dbExec (.use dbType (Value.get attrMap "database")))
  importScripts { message with data := .string "ok" } targetDir

/-- The SQL of a message: its data, which must be a string or null. -/
def sqlQueryOf : Value → Except String String
  | .string s => .ok s
  | .null => .ok ""
  | .bool _ => .error "json: cannot unmarshal bool into Go value of type string"
  | .number _ => .error "json: cannot unmarshal number into Go value of type string"
  | .array _ => .error "json: cannot unmarshal array into Go value of type string"
  | .object _ => .error "json: cannot unmarshal object into Go value of type string"

/-- The menus of the tree. -/
def menuTypes : List String :=
  ["databaseMenu", "tablesMenu", "viewsMenu", "functionsMenu", "proceduresMenu", "keysMenu",
    "indexsMenu", "sqlsMenu", "columnsMenu"]

/-- `handleJSONData` of a decoded message, on a session with a type of database; `id` is drawn for
the row of the log. -/
def handleJSONData (session : Session) (dbType id : String) (message : Message) : Program Unit :=
  match sqlQueryOf message.data with
  | .error err => .stop (.returned err)
  | .ok sqlQuery =>
    let sqlLogObj : SqlLog :=
      { id := id
        owner := session.creator
        assetId := session.assetId
        sqlCommand := sqlQuery
        sessionId := session.id }
    if message.retType = "importDatabaseJsonResult" then importDatabaseJsonResult dbType message
    else if message.retType = "exportDatabaseOnlyStructJsonResult" then
      exportDatabaseOnlyStructJsonResult message sqlLogObj sqlQuery
    else if message.retType = "exportDatabaseStructDataJsonResult" then
      exportDatabaseStructDataJsonResult message sqlLogObj sqlQuery
    else if message.retType = "exportTableOnlyStructJsonResult" then
      exportTableOnlyStructJsonResult message sqlLogObj sqlQuery
    else if message.retType = "exportTableStructDataJsonResult" then
      exportTableStructDataJsonResult message sqlLogObj sqlQuery
    else if message.retType = "KeyValueJsonResult" then keyValueJsonResult message sqlLogObj sqlQuery
    else if message.retType = "executeResult" then executeResult message sqlLogObj sqlQuery
    else if message.retType = "tableRsesult" then tableRsesult dbType message sqlLogObj sqlQuery
    else if message.retType = "tableStruct" then tableStruct message sqlLogObj sqlQuery
    else if message.retType ∈ menuTypes then menuResult message sqlLogObj sqlQuery
    else if message.retType = "erJsonResult" then erJsonResult message sqlLogObj sqlQuery
    else return ()

/-! ## The audit -/

/-- The statement that a call sends. -/
def statementOf : Call → Option Statement
  | .query stmt => some stmt
  | .dbExec stmt => some stmt
  | .txQuery stmt => some stmt
  | .txExec stmt => some stmt
  | _ => none

/-- The state that records how a call ended. -/
def stateOf {α : Type} : Except String α → String
  | .ok _ => "1"
  | .error _ => "0"

/-- An execution of SQL that comes from the user: the message's own, or a script file. -/
def executed (sqlQuery : String) (e : Event Response) : Option (String × String) :=
  match statementOf e.1 with
  | some (.own _) => some (sqlQuery, stateOf e.2)
  | some (.script text) => some (text, stateOf e.2)
  | _ => none

/-- The state of a statement that carries the message's SQL in a count or a page. -/
def wrapped (e : Event Response) : Option String :=
  match statementOf e.1 with
  | some (.count _) => some (stateOf e.2)
  | some (.page ..) => some (stateOf e.2)
  | _ => none

/-- A count and a page execute the message's SQL once together, which succeeds when none of them
fails. -/
def wrappedExecution (sqlQuery : String) (es : Trace) : List (String × String) :=
  match es.filterMap wrapped with
  | [] => []
  | states => [(sqlQuery, if "0" ∈ states then "0" else "1")]

/-- The executions of user-supplied SQL, with the states of their outcomes. -/
def executions (sqlQuery : String) (es : Trace) : List (String × String) :=
  es.filterMap (executed sqlQuery) ++ wrappedExecution sqlQuery es

/-- What an event writes to `sql_logs`. -/
def logged : Event Response → Option (String × String)
  | ⟨.createSqlLog row, .ok _⟩ => some row.entry
  | _ => none

/-- The rows written to `sql_logs`. -/
def rows (es : Trace) : List (String × String) := es.filterMap logged

/-- Each execution has its row, and each row its execution. -/
def Audited (sqlQuery : String) (es : Trace) : Prop := (rows es).Perm (executions sqlQuery es)

instance (sqlQuery : String) (es : Trace) : Decidable (Audited sqlQuery es) :=
  inferInstanceAs (Decidable (List.Perm _ _))

/-- What the handling of a message must meet: the log takes its row, no script file of an import is
read, and no page fails after its count. -/
structure Recordable (es : Trace) : Prop where
  inserted : ∀ row r, ⟨.createSqlLog row, r⟩ ∈ es → r = .ok ()
  noScript : ∀ path text, ⟨.readFile path, .ok text⟩ ∉ es
  paged : ∀ sent limit offset r, ⟨.query (.page sent limit offset), r⟩ ∈ es → r = .ok ()

/-! ## Transactions -/

/-- A transaction was begun. -/
def begins : Event Response → Bool
  | ⟨.begin, .ok _⟩ => true
  | _ => false

/-- A transaction was committed or rolled back; the driver releases its connection with the call. -/
def ends : Event Response → Bool
  | ⟨.commit, _⟩ => true
  | ⟨.rollback, _⟩ => true
  | _ => false

/-- At most one transaction is begun, and it is ended exactly once. -/
def Settled (es : Trace) : Prop := es.countP begins ≤ 1 ∧ es.countP ends = es.countP begins

instance (es : Trace) : Decidable (Settled es) := inferInstanceAs (Decidable (_ ∧ _))

/-- What a page of a table must meet once its transaction is begun: the size and the number of the
page are numbers, and the count does not fail. -/
structure Countable (message : Message) (es : Trace) : Prop where
  pageSize : (Value.get message.attr.asMap "pageSize").asNumber.isSome
  currentPage : (Value.get message.attr.asMap "currentPage").asNumber.isSome
  counted : ∀ sent r, ⟨.txQuery (.count sent), r⟩ ∈ es → r = .ok ()

end DBSession

end NextDBM
