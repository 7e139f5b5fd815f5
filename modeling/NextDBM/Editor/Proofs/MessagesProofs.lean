import NextDBM.Editor.Messages

/-!
# What handling a message leaves in the log and in the database

Most types of messages have one shape: the message's SQL is executed once, a row says how it ended,
and what follows touches neither the log nor a transaction. The page of a table and the import of an
archive are the two that begin a transaction; they are followed call by call.
-/

namespace NextDBM.DBSession

open Calls

/-! ## Calls that neither the log nor a transaction sees -/

/-- A statement that the server generates from names. -/
def Statement.Generated : Statement → Prop
  | .own _ => False
  | .count _ => False
  | .page .. => False
  | .script _ => False
  | _ => True

/-- A call that executes no SQL of the user, writes no row, reads no script, and neither begins nor
ends a transaction. -/
def Quiet : Call → Prop
  | .query stmt => stmt.Generated
  | .dbExec stmt => stmt.Generated
  | .txQuery stmt => stmt.Generated
  | .txExec stmt => stmt.Generated
  | .createSqlLog _ => False
  | .readFile _ => False
  | .begin => False
  | .commit => False
  | .rollback => False
  | _ => True

/-- What one event must meet for the message to be recordable. -/
def Fine : Event Response → Prop
  | ⟨.createSqlLog _, r⟩ => r = .ok ()
  | ⟨.readFile _, r⟩ => ∀ text, r ≠ .ok text
  | ⟨.query (.page ..), r⟩ => r = .ok ()
  | _ => True

theorem recordable_iff {es : Trace} : Recordable es ↔ ∀ e ∈ es, Fine e := by
  constructor
  · intro h e he
    obtain ⟨c, r⟩ := e
    cases c with
    | createSqlLog row => exact h.inserted row r he
    | readFile path => exact fun text hr => h.noScript path text (hr ▸ he)
    | query stmt =>
      cases stmt with
      | page sent limit offset => exact h.paged sent limit offset r he
      | _ => trivial
    | _ => trivial
  · intro h
    refine ⟨fun row r he => h _ he, fun path text he => ?_, fun sent limit offset r he => h _ he⟩
    exact h _ he text rfl

/-- What a quiet event contributes. -/
structure Unseen (e : Event Response) : Prop where
  executed : ∀ sqlQuery, executed sqlQuery e = none
  wrapped : wrapped e = none
  logged : logged e = none
  begins : begins e = false
  ends : ends e = false
  fine : Fine e

theorem unseen_of_generated {stmt : Statement} (h : stmt.Generated) :
    (∀ r, Unseen ⟨.query stmt, r⟩) ∧ (∀ r, Unseen ⟨.dbExec stmt, r⟩) ∧
      (∀ r, Unseen ⟨.txQuery stmt, r⟩) ∧ ∀ r, Unseen ⟨.txExec stmt, r⟩ := by
  cases stmt with
  | own sent => exact h.elim
  | count sent => exact h.elim
  | page sent limit offset => exact h.elim
  | script text => exact h.elim
  | _ =>
    refine ⟨?_, ?_, ?_, ?_⟩ <;> exact fun r => ⟨fun _ => rfl, rfl, rfl, rfl, rfl, trivial⟩

theorem unseen_of_quiet {e : Event Response} (h : Quiet e.1) : Unseen e := by
  obtain ⟨c, r⟩ := e
  cases c with
  | query stmt => exact (unseen_of_generated h).1 r
  | dbExec stmt => exact (unseen_of_generated h).2.1 r
  | txQuery stmt => exact (unseen_of_generated h).2.2.1 r
  | txExec stmt => exact (unseen_of_generated h).2.2.2 r
  | createSqlLog row => exact h.elim
  | readFile path => exact h.elim
  | begin => exact h.elim
  | commit => exact h.elim
  | rollback => exact h.elim
  | _ => exact ⟨fun _ => rfl, rfl, rfl, rfl, rfl, trivial⟩

section Traces
variable {es : Trace} {sqlQuery : String}

/-- A stretch of quiet calls. -/
def AllQuiet (es : Trace) : Prop := ∀ e ∈ es, Quiet e.1

theorem AllQuiet.executed (h : AllQuiet es) : es.filterMap (executed sqlQuery) = [] :=
  List.filterMap_eq_nil_iff.mpr fun e he => (unseen_of_quiet (h e he)).executed sqlQuery

theorem AllQuiet.wrapped (h : AllQuiet es) : es.filterMap wrapped = [] :=
  List.filterMap_eq_nil_iff.mpr fun e he => (unseen_of_quiet (h e he)).wrapped

theorem AllQuiet.logged (h : AllQuiet es) : es.filterMap logged = [] :=
  List.filterMap_eq_nil_iff.mpr fun e he => (unseen_of_quiet (h e he)).logged

theorem AllQuiet.begins (h : AllQuiet es) : es.countP begins = 0 :=
  List.countP_eq_zero.mpr fun e he => by simp [(unseen_of_quiet (h e he)).begins]

theorem AllQuiet.ends (h : AllQuiet es) : es.countP ends = 0 :=
  List.countP_eq_zero.mpr fun e he => by simp [(unseen_of_quiet (h e he)).ends]

theorem AllQuiet.fine (h : AllQuiet es) : ∀ e ∈ es, Fine e :=
  fun e he => (unseen_of_quiet (h e he)).fine

theorem AllQuiet.append {es' : Trace} (h : AllQuiet es) (h' : AllQuiet es') :
    AllQuiet (es ++ es') := by
  intro e he
  rcases List.mem_append.mp he with he | he
  · exact h e he
  · exact h' e he

theorem AllQuiet.cons {e : Event Response} (he : Quiet e.1) (h : AllQuiet es) :
    AllQuiet (e :: es) := by
  intro e' he'
  rcases List.mem_cons.mp he' with rfl | he'
  · exact he
  · exact h e' he'

theorem allQuiet_nil : AllQuiet [] := fun _ he => absurd he List.not_mem_nil

end Traces

/-! ## Quiet programs -/

section QuietPrograms
variable {c : Call} {message : Message}

theorem quiet_ignore (h : Quiet c) : (ignore c).Only Quiet :=
  only_bind (only_ask h) fun _ => trivial

theorem quiet_orReturn (h : Quiet c) : (orReturn c).Only Quiet := by
  refine only_bind (only_ask h) fun r => ?_
  cases r <;> trivial

theorem quiet_orPanic (h : Quiet c) : (orPanic c).Only Quiet := by
  refine only_bind (only_ask h) fun r => ?_
  cases r <;> trivial

theorem quiet_replyError {α : Type} (err : String) :
    (replyError message err : Program α).Only Quiet :=
  only_bind (quiet_ignore (c := .reply (message.failed err)) trivial) fun _ => trivial

theorem quiet_orReply (h : Quiet c) : (orReply message c).Only Quiet := by
  refine only_bind (only_ask h) fun r => ?_
  cases r with
  | ok a => trivial
  | error err => exact quiet_replyError err

theorem quiet_replyResult : (replyResult message).Only Quiet :=
  only_bind (quiet_orReturn (c := .marshal message) trivial) fun json =>
    quiet_ignore (c := .writeJSON json) trivial

theorem quiet_stringOf (v : Value) : (stringOf v).Only Quiet := by
  unfold stringOf
  cases v.asString <;> trivial

theorem quiet_ensureDir (parts : List String) : (ensureDir parts).Only Quiet := by
  refine only_bind (only_ask trivial) fun r => ?_
  split
  · trivial
  · exact quiet_orReturn (c := .mkdirAll parts) trivial

theorem quiet_exportPlace : (exportPlace message).Only Quiet := by
  refine only_bind (quiet_stringOf _) fun storageId => ?_
  refine only_bind (quiet_stringOf _) fun filePath => ?_
  refine only_bind (quiet_ensureDir _) fun _ => ?_
  refine only_bind (quiet_stringOf _) fun fileName => ?_
  exact only_bind (quiet_ensureDir _) fun _ => trivial

theorem quiet_writeStructs (dir : List String) (keyValueJson : List (String × String)) :
    (writeStructs dir keyValueJson).Only Quiet :=
  only_each (fun (key, value) =>
    quiet_orReturn (c := .writeFile (dir ++ [key ++ "-struct.sql"]) value) trivial) keyValueJson

theorem quiet_pack (dir targetZip : List String) : (pack dir targetZip).Only Quiet :=
  only_bind (quiet_orPanic (c := .zipDir dir targetZip) trivial) fun _ =>
    quiet_orPanic (c := .moveFile targetZip dir) trivial

theorem quiet_showCreate (database : Value) (tableName : String) :
    (showCreate message database tableName).Only Quiet :=
  only_bind (quiet_orReply (c := .query (.showCreateTable database tableName)) trivial) fun _ =>
    quiet_orReply (c := .rowsToKeyValueJson) trivial

theorem quiet_exportRows (database table : Value) (dir : List String) :
    (exportRows message database table dir).Only Quiet := by
  refine only_bind (quiet_orReply (c := .query (.tableCount database table)) trivial) fun _ => ?_
  refine only_bind (quiet_orReply (c := .scanCount) trivial) fun total => ?_
  refine only_each (fun currentPage => ?_) _
  refine only_bind (quiet_orReply (c := .query (.tablePage ..)) trivial) fun _ => ?_
  refine only_bind (quiet_orReply (c := .rowsToInsertStatements table) trivial) fun json => ?_
  refine only_bind (quiet_stringOf table) fun tableName => ?_
  exact quiet_orReturn (c := .appendFile ..) trivial

end QuietPrograms

theorem begins_begin (b : Answer .begin) : begins ⟨.begin, .ok b⟩ = true := rfl

/-- A transaction that counts has been begun. -/
theorem begun_of_begins {es : Trace} (h : 0 < es.countP begins) : ∃ b, ⟨.begin, .ok b⟩ ∈ es := by
  obtain ⟨⟨c, r⟩, he, hbegins⟩ := List.countP_pos_iff.mp h
  cases c with
  | begin =>
    cases r with
    | error err => cases hbegins
    | ok b => exact ⟨b, he⟩
  | _ => cases hbegins

theorem begins_of_ne {e : Event Response} (h : e.1 ≠ .begin) : begins e = false := by
  obtain ⟨c, r⟩ := e
  cases c with
  | begin => exact absurd rfl h
  | _ => rfl

theorem rows_cons (e : Event Response) (es : Trace) :
    rows (e :: es) = (logged e).toList ++ rows es := by
  unfold rows
  rw [List.filterMap_cons]
  cases logged e <;> rfl

/-- A row against one execution that it records. -/
theorem logged_perm_iff {row : SqlLog} {u : Response (.createSqlLog row)} {entry : String × String}
    (hrow : row.entry = entry) :
    (logged ⟨.createSqlLog row, u⟩).toList.Perm [entry] ↔ u = .ok () := by
  cases u with
  | ok a =>
    have hlogged : logged ⟨.createSqlLog row, .ok a⟩ = some entry := congrArg some hrow
    rw [hlogged]
    exact ⟨fun _ => rfl, fun _ => List.Perm.refl _⟩
  | error err =>
    have hlogged : logged ⟨.createSqlLog row, .error err⟩ = none := rfl
    rw [hlogged]
    constructor
    · intro hperm
      exact absurd hperm.length_eq (by simp)
    · intro hu
      cases hu

/-! ## Messages of the common shape -/

section Shape
variable {c : Call} {es : Trace} {o : Except Exit Unit} {message : Message} {sqlLogObj : SqlLog}

/-- The SQL of the message is executed, its row follows, and nothing else is seen. -/
def Plain (sqlQuery : String) (es : Trace) : Prop :=
  ∃ pre c r row u post, es = pre ++ ⟨c, r⟩ :: ⟨.createSqlLog row, u⟩ :: post ∧
    AllQuiet pre ∧ AllQuiet post ∧ (∃ sent, c = .query (.own sent) ∨ c = .dbExec (.own sent)) ∧
    row.entry = (sqlQuery, stateOf r)

/-- An execution that is logged at once, and what comes after it. -/
theorem runLogged_trace {k : Answer c → Program Unit} (hk : ∀ a, (k a).Only Quiet)
    (h : Runs (runLogged message sqlLogObj c >>= k) es o) :
    ∃ r row u post, es = ⟨c, r⟩ :: ⟨.createSqlLog row, u⟩ :: post ∧ AllQuiet post ∧
      row.entry = (sqlLogObj.sqlCommand, stateOf r) := by
  obtain ⟨r, es', rfl, h'⟩ := runs_ask_bind.mp h
  cases r with
  | error err =>
    obtain ⟨u, es'', rfl, h''⟩ := runs_ask_bind.mp h'
    exact ⟨_, _, u, es'', rfl, fun e he => h''.only (only_bind (quiet_replyError err) hk) e he, rfl⟩
  | ok a =>
    obtain ⟨u, es'', rfl, h''⟩ := runs_ask_bind.mp h'
    exact ⟨_, _, u, es'', rfl, fun e he => h''.only (hk a) e he, rfl⟩

theorem plain_of_query {sent : String} {k : Unit → Program Unit} (hk : ∀ a, (k a).Only Quiet)
    (h : Runs (runLogged message sqlLogObj (.query (.own sent)) >>= k) es o) :
    Plain sqlLogObj.sqlCommand es := by
  obtain ⟨r, row, u, post, rfl, hpost, hrow⟩ := runLogged_trace hk h
  exact ⟨[], _, r, row, u, post, rfl, allQuiet_nil, hpost, ⟨sent, .inl rfl⟩, hrow⟩

theorem plain_exportDatabase {sqlQuery : String}
    {exportOne : Message → Value → List String → String → Program Unit}
    (hone : ∀ message database dir tableName, (exportOne message database dir tableName).Only Quiet)
    (h : Runs (exportDatabase message sqlLogObj sqlQuery exportOne) es o) :
    Plain sqlLogObj.sqlCommand es := by
  refine plain_of_query (fun _ => ?_) h
  refine only_bind (quiet_orReply (c := .rowsToTablesArray) trivial) fun tables => ?_
  refine only_bind (quiet_orReturn (c := .marshal _) trivial) fun json => ?_
  refine only_bind quiet_exportPlace fun (dir, targetZip) => ?_
  refine only_bind (only_each (hone _ _ dir) tables) fun _ => ?_
  refine only_bind (quiet_pack dir targetZip) fun _ => ?_
  exact quiet_ignore (c := .writeJSON json) trivial

theorem plain_exportTable {sqlQuery : String} {exportData : Message → List String → Program Unit}
    (hdata : ∀ message dir, (exportData message dir).Only Quiet)
    (h : Runs (exportTable message sqlLogObj sqlQuery exportData) es o) :
    Plain sqlLogObj.sqlCommand es := by
  refine plain_of_query (fun _ => ?_) h
  refine only_bind (quiet_orReply (c := .rowsToKeyValueJson) trivial) fun keyValueJson => ?_
  refine only_bind (quiet_orReturn (c := .marshal _) trivial) fun json => ?_
  refine only_bind quiet_exportPlace fun (dir, targetZip) => ?_
  refine only_bind (quiet_writeStructs dir keyValueJson) fun _ => ?_
  refine only_bind (hdata _ dir) fun _ => ?_
  refine only_bind (quiet_pack dir targetZip) fun _ => ?_
  exact quiet_ignore (c := .writeJSON json) trivial

theorem plain_keyValueJsonResult {sqlQuery : String}
    (h : Runs (keyValueJsonResult message sqlLogObj sqlQuery) es o) :
    Plain sqlLogObj.sqlCommand es := by
  refine plain_of_query (fun _ => ?_) h
  exact only_bind (quiet_orReply (c := .rowsToKeyValueJson) trivial) fun _ => quiet_replyResult

theorem plain_tableStruct {sqlQuery : String}
    (h : Runs (tableStruct message sqlLogObj sqlQuery) es o) : Plain sqlLogObj.sqlCommand es := by
  refine plain_of_query (fun _ => ?_) h
  exact only_bind (quiet_orReply (c := .rowsToJSONArray) trivial) fun _ => quiet_replyResult

theorem plain_menuResult {sqlQuery : String}
    (h : Runs (menuResult message sqlLogObj sqlQuery) es o) : Plain sqlLogObj.sqlCommand es := by
  refine plain_of_query (fun _ => ?_) h
  refine only_bind (quiet_orReply (c := .rowsToMenuJson ..) trivial) fun menuItems => ?_
  cases menuItems with
  | none => trivial
  | some menuItems => exact quiet_replyResult

theorem plain_erJsonResult {sqlQuery : String}
    (h : Runs (erJsonResult message sqlLogObj sqlQuery) es o) : Plain sqlLogObj.sqlCommand es := by
  refine plain_of_query (fun _ => ?_) h
  refine only_bind (quiet_orReply (c := .rowsToTablesArray) trivial) fun tables => ?_
  refine only_bind (quiet_orReturn (c := .marshal _) trivial) fun json => ?_
  refine only_bind quiet_exportPlace fun (dir, targetDir) => ?_
  refine only_bind (quiet_orReturn (c := .openFile targetDir) trivial) fun _ => ?_
  refine only_bind (only_each (fun tableName => ?_) tables) fun _ => ?_
  · exact only_bind (quiet_showCreate _ tableName) fun _ => trivial
  refine only_bind (quiet_orPanic (c := .moveFile targetDir dir) trivial) fun _ => ?_
  exact quiet_ignore (c := .writeJSON json) trivial

/-- The statement `USE …` comes before the message's SQL. -/
theorem plain_executeResult {sqlQuery : String}
    (h : Runs (executeResult message sqlLogObj sqlQuery) es o) : Plain sqlLogObj.sqlCommand es := by
  obtain ⟨used, es', rfl, h'⟩ := runs_ask_bind.mp h
  obtain ⟨r, row, u, post, rfl, hpost, hrow⟩ := runLogged_trace (fun _ => quiet_replyResult) h'
  refine ⟨[_], _, r, row, u, post, rfl, ?_, hpost, ⟨sqlQuery, .inr rfl⟩, hrow⟩
  exact allQuiet_nil.cons trivial

/-- One execution and one row. -/
theorem Plain.contributes {sqlQuery : String} (h : Plain sqlQuery es) :
    ∃ state row u, row.entry = (sqlQuery, state) ∧ executions sqlQuery es = [(sqlQuery, state)] ∧
      rows es = (logged ⟨.createSqlLog row, u⟩).toList ∧
      (Recordable es ↔ u = .ok ()) ∧ Settled es := by
  obtain ⟨pre, c, r, row, u, post, rfl, hpre, hpost, ⟨sent, hc⟩, hrow⟩ := h
  have hexec : executed sqlQuery ⟨c, r⟩ = some (sqlQuery, stateOf r) := by
    rcases hc with rfl | rfl <;> rfl
  have hwrap : wrapped ⟨c, r⟩ = none := by rcases hc with rfl | rfl <;> rfl
  have hlog : logged ⟨c, r⟩ = none := by rcases hc with rfl | rfl <;> rfl
  have hfine : Fine ⟨c, r⟩ := by rcases hc with rfl | rfl <;> trivial
  have hbegins : begins ⟨c, r⟩ = false := by rcases hc with rfl | rfl <;> rfl
  have hends : ends ⟨c, r⟩ = false := by rcases hc with rfl | rfl <;> rfl
  refine ⟨stateOf r, row, u, hrow, ?_, ?_, ?_, ?_⟩
  · have hnone : executed sqlQuery ⟨.createSqlLog row, u⟩ = none := rfl
    have hnowrap : wrapped ⟨.createSqlLog row, u⟩ = none := rfl
    simp only [executions, wrappedExecution, List.filterMap_append, List.filterMap_cons,
      hpre.executed, hpost.executed, hpre.wrapped, hpost.wrapped, hexec, hwrap, hnone, hnowrap,
      List.nil_append, List.append_nil]
  · simp only [rows, List.filterMap_append, List.filterMap_cons, hpre.logged, hpost.logged, hlog,
      List.nil_append]
    cases logged ⟨.createSqlLog row, u⟩ <;> rfl
  · rw [recordable_iff]
    constructor
    · intro hall
      exact hall ⟨.createSqlLog row, u⟩ (by simp)
    · intro hu e he
      rcases List.mem_append.mp he with he | he
      · exact hpre.fine e he
      · rcases List.mem_cons.mp he with rfl | he
        · exact hfine
        · rcases List.mem_cons.mp he with rfl | he
          · exact hu
          · exact hpost.fine e he
  · have hb : begins ⟨.createSqlLog row, u⟩ = false := rfl
    have he : ends ⟨.createSqlLog row, u⟩ = false := rfl
    simp [Settled, List.countP_append, hpre.begins, hpost.begins, hpre.ends, hpost.ends, hbegins,
      hends, hb, he]

/-- The row of a message of the common shape is that of its execution, unless the log does not take
it. -/
theorem Plain.audited_iff {sqlQuery : String} (h : Plain sqlQuery es) :
    Audited sqlQuery es ↔ Recordable es := by
  obtain ⟨state, row, u, hrow, hexec, hrows, hrec, -⟩ := h.contributes
  rw [hrec, Audited, hexec, hrows]
  exact logged_perm_iff hrow

end Shape

/-! ## The page of a table -/

section Page
variable {es : Trace} {o : Except Exit Unit} {message : Message} {sqlLogObj : SqlLog}
  {sqlQuery dbType : String}

/-- The size and the number of the page are numbers. -/
def Numbered (message : Message) : Prop :=
  (Value.get message.attr.asMap "pageSize").asNumber.isSome ∧
    (Value.get message.attr.asMap "currentPage").asNumber.isSome

/-- What follows the row of a page whose count succeeded: the page is read or not, and the rest is
quiet. -/
def Tail (es : Trace) : Prop :=
  AllQuiet es ∨ ∃ scanned sent limit offset r post,
    es = ⟨.scanCount, scanned⟩ :: ⟨.query (.page sent limit offset), r⟩ :: post ∧ AllQuiet post

/-- The ways a page is handled: the transaction is not begun; the size or the number of the page is
not a number; the count fails; the count succeeds and the transaction is committed. -/
inductive PageTrace (message : Message) (sqlQuery : String) : Trace → Prop
  | notBegun (err : String) : PageTrace message sqlQuery [⟨.begin, .error err⟩]
  | notNumbered {dbType : String} {database : Value} (used : Response (.txExec (.use dbType database)))
      (hnum : ¬ Numbered message) :
      PageTrace message sqlQuery [⟨.begin, .ok ()⟩, ⟨.txExec (.use dbType database), used⟩]
  | countFailed {dbType : String} {database : Value} (used : Response (.txExec (.use dbType database)))
      (hnum : Numbered message) (sent err : String) {row : SqlLog} (u : Response (.createSqlLog row))
      (hrow : row.entry = (sqlQuery, "0")) {replied : Message} (w : Response (.reply replied)) :
      PageTrace message sqlQuery [⟨.begin, .ok ()⟩, ⟨.txExec (.use dbType database), used⟩,
        ⟨.txQuery (.count sent), .error err⟩, ⟨.createSqlLog row, u⟩, ⟨.reply replied, w⟩]
  | counted {dbType : String} {database : Value} (used : Response (.txExec (.use dbType database)))
      (hnum : Numbered message) (sent : String) (committed : Response .commit) {row : SqlLog}
      (u : Response (.createSqlLog row)) (hrow : row.entry = (sqlQuery, "1")) {tail : Trace}
      (htail : Tail tail) :
      PageTrace message sqlQuery (⟨.begin, .ok ()⟩ :: ⟨.txExec (.use dbType database), used⟩ ::
        ⟨.txQuery (.count sent), .ok ()⟩ :: ⟨.commit, committed⟩ :: ⟨.createSqlLog row, u⟩ :: tail)

theorem runs_numberOf_bind {v : Value} {k : Rat → Program Unit} :
    Runs (numberOf v >>= k) es o ↔
      (v.asNumber = none ∧ es = [] ∧ o = .error .panic) ∨
      ∃ x, v.asNumber = some x ∧ Runs (k x) es o := by
  unfold numberOf
  cases v.asNumber with
  | none =>
    constructor
    · intro h
      exact .inl ⟨rfl, runs_stop.mp h⟩
    · rintro (⟨-, h⟩ | ⟨x, hx, -⟩)
      · exact runs_stop.mpr h
      · cases hx
  | some x =>
    constructor
    · exact fun h => .inr ⟨x, rfl, h⟩
    · rintro (⟨h, -⟩ | ⟨y, hy, h⟩)
      · cases h
      · cases hy
        exact h

theorem tail_of_runs {fields : List (String × Value)} {sent : String} {pageSize currentPage : Int}
    (h : Runs (do
      let totalRows := (← orReply message .scanCount).getD 0
      let message := { message with attr := .object (("totalRows", .number totalRows) :: fields) }
      orReply message
        (.query (.page sent pageSize (Int.bmod ((currentPage - 1) * pageSize) (2 ^ 64))))
      let jsonResult ← orReply message .rowsToJSONArray
      replyResult { message with data := jsonResult }) es o) : Tail es := by
  obtain ⟨scanned, es', rfl, h'⟩ := runs_ask_bind.mp h
  cases scanned with
  | error err =>
    obtain ⟨w, es'', rfl, h''⟩ := runs_ask_bind.mp h'
    obtain ⟨rfl, -⟩ := runs_stop.mp h''
    exact .inl (.cons trivial (.cons trivial allQuiet_nil))
  | ok total =>
    obtain ⟨r, post, rfl, h''⟩ := runs_ask_bind.mp h'
    refine .inr ⟨_, _, _, _, r, post, rfl, fun e he => ?_⟩
    cases r with
    | error err =>
      obtain ⟨w, es'', rfl, h₃⟩ := runs_ask_bind.mp h''
      obtain ⟨rfl, -⟩ := runs_stop.mp h₃
      rw [List.mem_singleton.mp he]
      trivial
    | ok u =>
      have hquiet : ∀ m : Message, Prog.Only Quiet (do
          let jsonResult ← orReply m .rowsToJSONArray
          replyResult { m with data := jsonResult }) := fun m =>
        only_bind (quiet_orReply (c := .rowsToJSONArray) trivial) fun _ => quiet_replyResult
      exact Runs.only h'' (hquiet _) e he

theorem pageTrace_of_runs (h : Runs (tableRsesult dbType message sqlLogObj sqlQuery) es o) :
    PageTrace message sqlLogObj.sqlCommand es := by
  obtain ⟨begun, es₁, rfl, h₁⟩ := runs_ask_bind.mp h
  cases begun with
  | error err =>
    obtain ⟨rfl, -⟩ := runs_stop.mp h₁
    exact .notBegun err
  | ok b =>
    obtain ⟨used, es₂, rfl, h₂⟩ := runs_ask_bind.mp h₁
    rcases runs_numberOf_bind.mp h₂ with ⟨hsize, rfl, -⟩ | ⟨size, hsize, h₃⟩
    · exact .notNumbered used fun hnum => by simp [Numbered, hsize] at hnum
    rcases runs_numberOf_bind.mp h₃ with ⟨hpage, rfl, -⟩ | ⟨page, hpage, h₄⟩
    · exact .notNumbered used fun hnum => by simp [Numbered, hpage] at hnum
    have hnum : Numbered message := by simp [Numbered, hsize, hpage]
    obtain ⟨count, es₅, rfl, h₅⟩ := runs_ask_bind.mp h₄
    cases count with
    | error err =>
      obtain ⟨u, es₆, rfl, h₆⟩ := runs_ask_bind.mp h₅
      obtain ⟨w, es₇, rfl, h₇⟩ := runs_ask_bind.mp h₆
      obtain ⟨rfl, -⟩ := runs_stop.mp h₇
      exact .countFailed used hnum _ err u rfl w
    | ok counted =>
      obtain ⟨committed, es₆, rfl, h₆⟩ := runs_ask_bind.mp h₅
      obtain ⟨u, es₇, rfl, h₇⟩ := runs_ask_bind.mp h₆
      exact .counted used hnum _ committed u rfl (tail_of_runs h₇)

/-- What the tail after the row contributes. -/
theorem Tail.contributes {tail : Trace} (h : Tail tail) (sqlQuery : String) :
    tail.filterMap (executed sqlQuery) = [] ∧ tail.filterMap logged = [] ∧
      tail.countP begins = 0 ∧ tail.countP ends = 0 ∧
      (tail.filterMap wrapped = [] ∧ (∀ e ∈ tail, Fine e) ∨
        tail.filterMap wrapped = ["1"] ∧ (∀ e ∈ tail, Fine e) ∨
        tail.filterMap wrapped = ["0"] ∧ ¬ ∀ e ∈ tail, Fine e) := by
  rcases h with h | ⟨scanned, sent, limit, offset, r, post, rfl, h⟩
  · exact ⟨h.executed, h.logged, h.begins, h.ends, .inl ⟨h.wrapped, h.fine⟩⟩
  · refine ⟨?_, ?_, ?_, ?_, .inr ?_⟩
    · exact h.executed
    · exact h.logged
    · exact h.begins
    · exact h.ends
    · cases r with
      | ok u =>
        refine .inl ⟨congrArg ("1" :: ·) h.wrapped, fun e he => ?_⟩
        rcases List.mem_cons.mp he with rfl | he
        · trivial
        · rcases List.mem_cons.mp he with rfl | he
          · exact rfl
          · exact h.fine e he
      | error err =>
        refine .inr ⟨congrArg ("0" :: ·) h.wrapped, fun hall => ?_⟩
        have hpage : (.error err : Except String Unit) = .ok () :=
          hall ⟨.query (.page sent limit offset), .error err⟩ (by simp)
        cases hpage

/-- The row of a page is that of its execution when the log takes it and the page does not fail after
its count. -/
theorem PageTrace.audited_iff (h : PageTrace message sqlQuery es) :
    Audited sqlQuery es ↔ Recordable es := by
  rw [recordable_iff, Audited]
  cases h with
  | notBegun err => exact ⟨fun _ => by simp [Fine], fun _ => List.Perm.refl _⟩
  | notNumbered used hnum => exact ⟨fun _ => by simp [Fine], fun _ => List.Perm.refl _⟩
  | countFailed used hnum sent err u hrow w =>
    have hrows : rows [⟨.begin, .ok ()⟩, ⟨.txExec (.use _ _), used⟩,
        ⟨.txQuery (.count sent), .error err⟩, ⟨.createSqlLog _, u⟩, ⟨.reply _, w⟩] =
        (logged ⟨.createSqlLog _, u⟩).toList :=
      (rows_cons _ [⟨.reply _, w⟩]).trans (List.append_nil _)
    have hexec : executions sqlQuery [⟨.begin, .ok ()⟩, ⟨.txExec (.use _ _), used⟩,
        ⟨.txQuery (.count sent), .error err⟩, ⟨.createSqlLog _, u⟩, ⟨.reply _, w⟩] =
        [(sqlQuery, "0")] := rfl
    rw [hrows, hexec, logged_perm_iff hrow]
    simp [Fine]
  | @counted dbType database used hnum sent committed row u hrow tail htail =>
    obtain ⟨hexec, hlog, -, -, hcases⟩ := htail.contributes sqlQuery
    have hrows : rows (⟨.begin, .ok ()⟩ :: ⟨.txExec (.use dbType database), used⟩ ::
        ⟨.txQuery (.count sent), .ok ()⟩ :: ⟨.commit, committed⟩ :: ⟨.createSqlLog row, u⟩ :: tail) =
        (logged ⟨.createSqlLog row, u⟩).toList := by
      refine (rows_cons ⟨.createSqlLog row, u⟩ tail).trans ?_
      rw [rows, hlog, List.append_nil]
    have hexec' : executions sqlQuery (⟨.begin, .ok ()⟩ :: ⟨.txExec (.use dbType database), used⟩ ::
        ⟨.txQuery (.count sent), .ok ()⟩ :: ⟨.commit, committed⟩ :: ⟨.createSqlLog row, u⟩ :: tail) =
        [(sqlQuery, if "0" ∈ "1" :: tail.filterMap wrapped then "0" else "1")] :=
      congrArg (· ++ _) hexec
    have hfine : (∀ e ∈ (⟨.begin, .ok ()⟩ :: ⟨.txExec (.use dbType database), used⟩ ::
        ⟨.txQuery (.count sent), .ok ()⟩ :: ⟨.commit, committed⟩ :: ⟨.createSqlLog row, u⟩ :: tail : Trace),
        Fine e) ↔ u = .ok () ∧ ∀ e ∈ tail, Fine e := by
      simp only [List.forall_mem_cons, Fine, true_and]
    rw [hrows, hexec', hfine]
    rcases hcases with ⟨hwrap, hall⟩ | ⟨hwrap, hall⟩ | ⟨hwrap, hnot⟩
    · rw [hwrap]
      exact (logged_perm_iff hrow).trans (iff_self_and.mpr fun _ => hall)
    · rw [hwrap]
      exact (logged_perm_iff hrow).trans (iff_self_and.mpr fun _ => hall)
    · -- the row says `"1"`, the page failed
      rw [hwrap]
      constructor
      · intro hperm
        have hmem : (sqlQuery, "0") ∈ (logged ⟨.createSqlLog row, u⟩).toList :=
          hperm.mem_iff.mpr (by simp)
        cases u with
        | ok a =>
          have heq : (sqlQuery, "0") = row.entry := by simpa [logged] using hmem
          rw [hrow] at heq
          simp at heq
        | error err => simp [logged] at hmem
      · exact fun h => absurd h.2 hnot

/-- The transaction of a page is ended when the page is numbered and its count succeeds; otherwise it
is left open. -/
theorem PageTrace.settled_iff (h : PageTrace message sqlQuery es) :
    Settled es ↔ ((∃ b, ⟨.begin, .ok b⟩ ∈ es) → Countable message es) := by
  cases h with
  | notBegun err => exact ⟨fun _ h => by simp at h, fun _ => ⟨Nat.zero_le 1, rfl⟩⟩
  | notNumbered used hnum =>
    constructor
    · intro h
      have hcount : (0 : Nat) = 1 := h.2
      omega
    · intro h
      have hcount := h ⟨(), by simp⟩
      exact absurd ⟨hcount.pageSize, hcount.currentPage⟩ hnum
  | countFailed used hnum sent err u hrow w =>
    constructor
    · intro h
      have hcount : (0 : Nat) = 1 := h.2
      omega
    · intro h
      have hcount := (h ⟨(), by simp⟩).counted sent (.error err) (by simp)
      cases hcount
  | @counted dbType database used hnum sent committed row u hrow tail htail =>
    obtain ⟨-, -, hbegins, hends, -⟩ := htail.contributes sqlQuery
    refine ⟨fun _ _ => ⟨hnum.1, hnum.2, fun sent' r hr => ?_⟩, fun _ => ?_⟩
    · have htail' : ⟨.txQuery (.count sent'), r⟩ ∉ tail := by
        intro he
        rcases htail with h | ⟨scanned, page, limit, offset, r', post, rfl, h⟩
        · exact (h _ he).elim
        · simp only [List.mem_cons, Sigma.mk.injEq, reduceCtorEq, false_and, false_or] at he
          exact (h _ he).elim
      simp only [List.mem_cons, Sigma.mk.injEq, reduceCtorEq, false_and, false_or, htail', or_false,
        Call.txQuery.injEq, Statement.count.injEq] at hr
      obtain ⟨rfl, hr⟩ := hr
      exact eq_of_heq hr
    · simp only [Settled, List.countP_cons, hbegins, hends]
      rw [begins_begin]
      simp [begins_of_ne, ends]

end Page

/-! ## The import of an archive -/

section Import
variable {es es' : Trace} {message : Message} {sqlQuery : String}

/-- No row and no page, and script files are executed as they are read. -/
structure Unrecorded (sqlQuery : String) (es : Trace) : Prop where
  logged : es.filterMap logged = []
  wrapped : es.filterMap wrapped = []
  executed : es.filterMap (executed sqlQuery) = [] ↔ ∀ e ∈ es, Fine e

theorem Unrecorded.append (h : Unrecorded sqlQuery es) (h' : Unrecorded sqlQuery es') :
    Unrecorded sqlQuery (es ++ es') := by
  refine ⟨?_, ?_, ?_⟩
  · rw [List.filterMap_append, h.logged, h'.logged, List.append_nil]
  · rw [List.filterMap_append, h.wrapped, h'.wrapped, List.append_nil]
  · rw [List.filterMap_append, List.append_eq_nil_iff, h.executed, h'.executed,
      List.forall_mem_append]

theorem AllQuiet.unrecorded (h : AllQuiet es) : Unrecorded sqlQuery es :=
  ⟨h.logged, h.wrapped, fun _ => h.fine, fun _ => h.executed⟩

/-- An event that executes nothing and that every recordable message may have. -/
theorem unrecorded_singleton {e : Event Response} (hlog : DBSession.logged e = none)
    (hwrap : DBSession.wrapped e = none) (hexec : DBSession.executed sqlQuery e = none)
    (hfine : Fine e) : Unrecorded sqlQuery [e] := by
  refine ⟨?_, ?_, fun _ e' he' => ?_, fun _ => ?_⟩
  · rw [List.filterMap_cons_none hlog, List.filterMap_nil]
  · rw [List.filterMap_cons_none hwrap, List.filterMap_nil]
  · rw [List.mem_singleton.mp he']
    exact hfine
  · rw [List.filterMap_cons_none hexec, List.filterMap_nil]

/-- A script file is read and executed. -/
theorem unrecorded_script (sqlQuery path text : String) (r : Response (.txExec (.script text))) :
    Unrecorded sqlQuery [⟨.readFile path, .ok text⟩, ⟨.txExec (.script text), r⟩] := by
  refine ⟨rfl, rfl, fun h => ?_, fun h => ?_⟩
  · have hnil : [(text, stateOf r)] = [] := h
    cases hnil
  · exact absurd rfl (h ⟨.readFile path, .ok text⟩ List.mem_cons_self text)

/-- What a walk leaves: its transaction is ended when it says so, unless the process ended. -/
structure Walked (sqlQuery : String) (es : Trace) (o : Except Exit (Option String × Bool)) :
    Prop where
  unrecorded : Unrecorded sqlQuery es
  begins : es.countP begins = 0
  ended : ∀ res, o = .ok res → es.countP ends = if res.2 then 1 else 0
  stopped : ∀ res, o = .ok res → res.2 = true → res.1.isSome
  fatal : ∀ x, o = .error x → x = .fatal

/-- What comes before, without a row or an end of the transaction. -/
theorem Walked.prepend {pre : Trace} {o : Except Exit (Option String × Bool)}
    (hpre : Unrecorded sqlQuery pre) (hbegins : pre.countP DBSession.begins = 0)
    (hends : pre.countP ends = 0) (h : Walked sqlQuery es o) : Walked sqlQuery (pre ++ es) o := by
  refine ⟨hpre.append h.unrecorded, ?_, fun res hres => ?_, h.stopped, h.fatal⟩
  · rw [List.countP_append, hbegins, h.begins]
  · rw [List.countP_append, hends, h.ended res hres, Nat.zero_add]

/-- The walk leaves nothing behind and goes on. -/
theorem walked_nil {res : Option String × Bool} (h : res.2 = false) :
    Walked sqlQuery [] (.ok res) := by
  refine ⟨allQuiet_nil.unrecorded, rfl, fun res' hres => ?_, fun res' hres htrue => ?_, fun x hx => ?_⟩
  · cases hres
    rw [h]
    rfl
  · cases hres
    rw [h] at htrue
    cases htrue
  · cases hx

/-- The process ends. -/
theorem walked_fatal (h : Unrecorded sqlQuery es) (hbegins : es.countP begins = 0) :
    Walked sqlQuery es (.error .fatal) := by
  refine ⟨h, hbegins, fun res hres => ?_, fun res hres _ => ?_, fun x hx => ?_⟩
  · cases hres
  · cases hres
  · cases hx
    rfl

theorem walked_walkScripts (visits : List Visit) {o : Except Exit (Option String × Bool)}
    (h : Runs (walkScripts message visits) es o) : Walked sqlQuery es o := by
  induction visits generalizing es with
  | nil =>
    obtain ⟨rfl, rfl⟩ := runs_pure.mp h
    exact walked_nil rfl
  | cons visit visits ih =>
    unfold walkScripts at h
    cases hvisit : visit.err with
    | some err =>
      rw [hvisit] at h
      obtain ⟨rfl, rfl⟩ := runs_pure.mp h
      exact walked_nil rfl
    | none =>
      rw [hvisit] at h
      dsimp only at h
      split_ifs at h with hscript
      · obtain ⟨read, es₁, rfl, h₁⟩ := runs_ask_bind.mp h
        cases read with
        | error err =>
          obtain ⟨rfl, rfl⟩ := runs_stop.mp h₁
          refine walked_fatal (unrecorded_singleton rfl rfl rfl fun text ht => ?_) rfl
          cases ht
        | ok text =>
          obtain ⟨r, es₂, rfl, h₂⟩ := runs_ask_bind.mp h₁
          have hscript := unrecorded_script sqlQuery visit.path text r
          cases r with
          | ok u => exact (ih h₂).prepend hscript rfl rfl
          | error err =>
            obtain ⟨rolled, es₃, rfl, h₃⟩ := runs_ask_bind.mp h₂
            have hrolled : Unrecorded sqlQuery [⟨.rollback, rolled⟩] :=
              unrecorded_singleton rfl rfl rfl trivial
            cases rolled with
            | error err' =>
              obtain ⟨rfl, rfl⟩ := runs_stop.mp h₃
              exact walked_fatal (hscript.append hrolled) rfl
            | ok u =>
              obtain ⟨w, es₄, rfl, h₄⟩ := runs_ask_bind.mp h₃
              obtain ⟨rfl, rfl⟩ := runs_pure.mp h₄
              have hreply : Unrecorded sqlQuery [⟨.reply (message.failed err), w⟩] :=
                unrecorded_singleton rfl rfl rfl trivial
              refine ⟨hscript.append (hrolled.append hreply), rfl, fun res hres => ?_,
                fun res hres _ => ?_, fun x hx => ?_⟩
              · cases hres
                rfl
              · cases hres
                rfl
              · cases hx
      · exact ih h

/-- How an import is handled: quietly, or quietly up to its transaction. -/
def ImportTrace (o : Except Exit Unit) (es : Trace) : Prop :=
  AllQuiet es ∨ ∃ pre es' message targetDir, es = pre ++ es' ∧ AllQuiet pre ∧
    Runs (importScripts message targetDir) es' o

/-- A quiet part of a program stops it, or is a quiet part of its run. -/
theorem importTrace_bind {α : Type} {p : Program α} {f : α → Program Unit} {o : Except Exit Unit}
    (hp : p.Only Quiet) (h : Runs (p >>= f) es o)
    (hf : ∀ a es, Runs (f a) es o → ImportTrace o es) : ImportTrace o es := by
  rcases runs_bind.mp h with ⟨x, hx, -⟩ | ⟨a, es₁, es₂, rfl, h₁, h₂⟩
  · exact .inl (hx.only hp)
  · have hquiet : AllQuiet es₁ := h₁.only hp
    rcases hf a es₂ h₂ with h | ⟨pre, es', message, targetDir, rfl, hpre, hrun⟩
    · exact .inl (hquiet.append h)
    · refine .inr ⟨es₁ ++ pre, es', message, targetDir, ?_, hquiet.append hpre, hrun⟩
      rw [List.append_assoc]

theorem importTrace_of_runs {dbType : String} {o : Except Exit Unit}
    (h : Runs (importDatabaseJsonResult dbType message) es o) : ImportTrace o es := by
  refine importTrace_bind (quiet_stringOf _) h fun storageId es h => ?_
  refine importTrace_bind (quiet_stringOf _) h fun filePath es h => ?_
  refine importTrace_bind (quiet_stringOf _) h fun fileName es h => ?_
  refine importTrace_bind (quiet_ensureDir _) h fun _ es h => ?_
  refine importTrace_bind (quiet_ensureDir _) h fun _ es h => ?_
  refine importTrace_bind (quiet_orPanic (c := .unzip ..) trivial) h fun _ es h => ?_
  refine importTrace_bind (quiet_ignore (c := .dbExec (.use ..)) trivial) h fun _ es h => ?_
  exact .inr ⟨[], es, _, _, rfl, allQuiet_nil, h⟩

/-- The transaction of an import writes no row; it is begun and ended once, unless the process
ends. -/
theorem importScripts_trace {targetDir : List String} {o : Except Exit Unit}
    (h : Runs (importScripts message targetDir) es o) (sqlQuery : String) :
    Unrecorded sqlQuery es ∧ (o ≠ .error .fatal → Settled es) := by
  obtain ⟨begun, es₁, rfl, h₁⟩ := runs_ask_bind.mp h
  cases begun with
  | error err =>
    obtain ⟨rfl, rfl⟩ := runs_stop.mp h₁
    exact ⟨unrecorded_singleton rfl rfl rfl trivial, fun hne => absurd rfl hne⟩
  | ok b =>
    have hbegin : Unrecorded sqlQuery [⟨.begin, .ok b⟩] := unrecorded_singleton rfl rfl rfl trivial
    obtain ⟨walk, es₂, rfl, h₂⟩ := runs_ask_bind.mp h₁
    have hwalk : Unrecorded sqlQuery [⟨.walk targetDir, walk⟩] :=
      unrecorded_singleton rfl rfl rfl trivial
    -- what is left to show of the events after the walk was listed
    suffices hrest : Unrecorded sqlQuery es₂ ∧
        (o ≠ .error .fatal → es₂.countP begins = 0 ∧ es₂.countP ends = 1) by
      refine ⟨hbegin.append (hwalk.append hrest.1), fun hne => ?_⟩
      obtain ⟨hb, he⟩ := hrest.2 hne
      simp only [Settled, List.countP_cons, hb, he]
      rw [begins_begin]
      simp [begins_of_ne, ends]
    rcases runs_bind.mp h₂ with ⟨x, hx, rfl⟩ | ⟨⟨err, rolledBack⟩, es₃, es₄, rfl, h₃, h₄⟩
    · have hw : Walked sqlQuery es₂ (.error x) := walked_walkScripts _ hx
      refine ⟨hw.unrecorded, fun hne => ?_⟩
      rw [hw.fatal x rfl] at hne
      exact absurd rfl hne
    · have hw : Walked sqlQuery es₃ (.ok (err, rolledBack)) := walked_walkScripts _ h₃
      have hended : es₃.countP ends = if rolledBack then 1 else 0 := hw.ended _ rfl
      rw [List.countP_append, List.countP_append, hw.begins, hended]
      cases err with
      | none =>
        have hrolled : rolledBack = false := by
          cases rolledBack with
          | false => rfl
          | true => exact absurd (hw.stopped _ rfl rfl) (by simp)
        rw [hrolled]
        obtain ⟨committed, es₅, rfl, h₅⟩ := runs_ask_bind.mp h₄
        have hcommit : Unrecorded sqlQuery [⟨.commit, committed⟩] :=
          unrecorded_singleton rfl rfl rfl trivial
        cases committed with
        | error e =>
          obtain ⟨rfl, rfl⟩ := runs_stop.mp h₅
          exact ⟨hw.unrecorded.append hcommit, fun hne => absurd rfl hne⟩
        | ok u =>
          have hquiet : AllQuiet es₅ := Runs.only h₅ quiet_replyResult
          refine ⟨hw.unrecorded.append (hcommit.append hquiet.unrecorded), fun _ => ?_⟩
          simp [List.countP_cons, begins_of_ne, ends, hquiet.begins, hquiet.ends]
      | some err =>
        cases rolledBack with
        | true =>
          obtain ⟨rfl, rfl⟩ := runs_stop.mp h₄
          rw [List.append_nil]
          exact ⟨hw.unrecorded, fun _ => ⟨rfl, rfl⟩⟩
        | false =>
          obtain ⟨rolled, es₅, rfl, h₅⟩ := runs_ask_bind.mp h₄
          have hrollback : Unrecorded sqlQuery [⟨.rollback, rolled⟩] :=
            unrecorded_singleton rfl rfl rfl trivial
          cases rolled with
          | error e =>
            obtain ⟨rfl, rfl⟩ := runs_stop.mp h₅
            exact ⟨hw.unrecorded.append hrollback, fun hne => absurd rfl hne⟩
          | ok u =>
            obtain ⟨rfl, rfl⟩ := runs_stop.mp h₅
            exact ⟨hw.unrecorded.append hrollback, fun _ => ⟨rfl, rfl⟩⟩

/-- An import is recorded when it executes no script. -/
theorem Unrecorded.audited_iff (h : Unrecorded sqlQuery es) : Audited sqlQuery es ↔ Recordable es := by
  have hexec : executions sqlQuery es = es.filterMap (DBSession.executed sqlQuery) := by
    rw [executions, wrappedExecution, h.wrapped, List.append_nil]
  rw [recordable_iff, ← h.executed, Audited, rows, h.logged, hexec, List.nil_perm]

theorem ImportTrace.unrecorded {o : Except Exit Unit} (h : ImportTrace o es) :
    Unrecorded sqlQuery es := by
  rcases h with h | ⟨pre, es', message, targetDir, rfl, hpre, hrun⟩
  · exact h.unrecorded
  · exact hpre.unrecorded.append (importScripts_trace hrun _).1

theorem AllQuiet.settled (h : AllQuiet es) : Settled es :=
  ⟨by rw [h.begins]; omega, by rw [h.begins, h.ends]⟩

theorem ImportTrace.settled {o : Except Exit Unit} (h : ImportTrace o es) (ho : o ≠ .error .fatal) :
    Settled es := by
  rcases h with h | ⟨pre, es', message, targetDir, rfl, hpre, hrun⟩
  · exact h.settled
  · obtain ⟨hle, heq⟩ := (importScripts_trace hrun "").2 ho
    refine ⟨?_, ?_⟩
    · rw [List.countP_append, hpre.begins, Nat.zero_add]
      exact hle
    · rw [List.countP_append, List.countP_append, hpre.begins, hpre.ends, heq]

end Import

/-! ## Every message -/

section Messages
variable {session : Session} {dbType id : String} {message : Message} {es : Trace}
  {o : Except Exit Unit}

/-- How a message is handled, by its type. -/
theorem handleJSONData_trace (h : Runs (handleJSONData session dbType id message) es o)
    {sqlQuery : String} (hsql : sqlQueryOf message.data = .ok sqlQuery) :
    es = [] ∨ ImportTrace o es ∧ message.retType ≠ "tableRsesult" ∨
      Plain sqlQuery es ∧ message.retType ≠ "tableRsesult" ∨
      PageTrace message sqlQuery es ∧ message.retType = "tableRsesult" := by
  unfold handleJSONData at h
  rw [hsql] at h
  simp only at h
  by_cases himport : message.retType = "importDatabaseJsonResult"
  · rw [if_pos himport] at h
    exact .inr (.inl ⟨importTrace_of_runs h, by simp [himport]⟩)
  rw [if_neg himport] at h
  by_cases honly : message.retType = "exportDatabaseOnlyStructJsonResult"
  · rw [if_pos honly] at h
    refine .inr (.inr (.inl ⟨plain_exportDatabase (fun _ database dir name => ?_) h, by simp [honly]⟩))
    exact only_bind (quiet_showCreate database name) fun _ => quiet_writeStructs dir _
  rw [if_neg honly] at h
  by_cases hdata : message.retType = "exportDatabaseStructDataJsonResult"
  · rw [if_pos hdata] at h
    refine .inr (.inr (.inl ⟨plain_exportDatabase (fun _ database dir name => ?_) h, by simp [hdata]⟩))
    refine only_bind (quiet_showCreate database name) fun _ => ?_
    exact only_bind (quiet_writeStructs dir _) fun _ => quiet_exportRows database (.string name) dir
  rw [if_neg hdata] at h
  by_cases htable : message.retType = "exportTableOnlyStructJsonResult"
  · rw [if_pos htable] at h
    refine .inr (.inr (.inl ⟨plain_exportTable (fun _ _ => ?_) h, by simp [htable]⟩))
    trivial
  rw [if_neg htable] at h
  by_cases htableData : message.retType = "exportTableStructDataJsonResult"
  · rw [if_pos htableData] at h
    refine .inr (.inr (.inl ⟨plain_exportTable (fun _ dir => ?_) h, by simp [htableData]⟩))
    exact quiet_exportRows _ _ dir
  rw [if_neg htableData] at h
  by_cases hkey : message.retType = "KeyValueJsonResult"
  · rw [if_pos hkey] at h
    exact .inr (.inr (.inl ⟨plain_keyValueJsonResult h, by simp [hkey]⟩))
  rw [if_neg hkey] at h
  by_cases hexec : message.retType = "executeResult"
  · rw [if_pos hexec] at h
    exact .inr (.inr (.inl ⟨plain_executeResult h, by simp [hexec]⟩))
  rw [if_neg hexec] at h
  by_cases hpage : message.retType = "tableRsesult"
  · rw [if_pos hpage] at h
    exact .inr (.inr (.inr ⟨pageTrace_of_runs h, hpage⟩))
  rw [if_neg hpage] at h
  by_cases hstruct : message.retType = "tableStruct"
  · rw [if_pos hstruct] at h
    exact .inr (.inr (.inl ⟨plain_tableStruct h, hpage⟩))
  rw [if_neg hstruct] at h
  by_cases hmenu : message.retType ∈ menuTypes
  · rw [if_pos hmenu] at h
    exact .inr (.inr (.inl ⟨plain_menuResult h, hpage⟩))
  rw [if_neg hmenu] at h
  by_cases her : message.retType = "erJsonResult"
  · rw [if_pos her] at h
    exact .inr (.inr (.inl ⟨plain_erJsonResult h, hpage⟩))
  rw [if_neg her] at h
  exact .inl (runs_pure.mp h).1

/-- A transaction that handling a message begins is ended exactly once, whatever the message and the
outcomes of the calls, unless it is the transaction of a page: that one is ended exactly when the
size and the number of the page are numbers and the count does not fail. -/
theorem messages_settled_iff (h : Runs (handleJSONData session dbType id message) es o)
    (ho : o ≠ .error .fatal) :
    Settled es ↔ (message.retType = "tableRsesult" → (∃ b, ⟨.begin, .ok b⟩ ∈ es) →
      Countable message es) := by
  cases hsql : sqlQueryOf message.data with
  | error err =>
    unfold handleJSONData at h
    rw [hsql] at h
    obtain ⟨rfl, -⟩ := runs_stop.mp h
    exact ⟨fun _ _ hbegun => by simp at hbegun, fun _ => allQuiet_nil.settled⟩
  | ok sqlQuery =>
    rcases handleJSONData_trace h hsql with rfl | ⟨himport, hne⟩ | ⟨hplain, hne⟩ | ⟨hpage, heq⟩
    · exact ⟨fun _ _ hbegun => by simp at hbegun, fun _ => allQuiet_nil.settled⟩
    · exact ⟨fun _ heq => absurd heq hne, fun _ => himport.settled ho⟩
    · obtain ⟨state, row, u, -, -, -, -, hsettled⟩ := hplain.contributes
      exact ⟨fun _ heq => absurd heq hne, fun _ => hsettled⟩
    · rw [hpage.settled_iff]
      exact ⟨fun h _ => h, fun h => h heq⟩

/-- An environment in which every call succeeds and an archive holds one script. -/
def obliging : (c : Call) → Response c
  | .query _ => .ok ()
  | .dbExec _ => .ok .null
  | .begin => .ok ()
  | .txQuery _ => .ok ()
  | .txExec _ => .ok ()
  | .commit => .ok ()
  | .rollback => .ok ()
  | .createSqlLog _ => .ok ()
  | .rowsToTablesArray => .ok []
  | .rowsToKeyValueJson => .ok []
  | .rowsToJSONArray => .ok .null
  | .rowsToMenuJson .. => .ok (some .null)
  | .rowsToInsertStatements _ => .ok ""
  | .scanCount => .ok (some 0)
  | .marshal _ => .ok ""
  | .writeJSON _ => .ok ()
  | .reply _ => .ok ()
  | .fileExists _ => .ok true
  | .mkdirAll _ => .ok ()
  | .unzip .. => .ok ()
  | .walk _ => .ok [{ path := "a.sql" }]
  | .readFile _ => .ok "drop table t"
  | .writeFile .. => .ok ()
  | .appendFile .. => .ok ()
  | .openFile _ => .ok ()
  | .zipDir .. => .ok ()
  | .moveFile .. => .ok ()

/-- The first page of `select 1`. -/
def pageMessage : Message :=
  { retType := "tableRsesult"
    data := .string "select 1;"
    attr := .object [("pageSize", .number 10), ("currentPage", .number 1)] }

/-- An import of the archive. -/
def importMessage : Message :=
  { retType := "importDatabaseJsonResult"
    attr := .object [("storageId", .string "s"), ("filePath", .string "p"), ("fileName", .string "f")] }

theorem page_settled :
    Countable pageMessage ((handleJSONData {} nd.mariaDB "id" pageMessage).exec obliging).1 :=
  (messages_settled_iff (runs_exec obliging _) (by decide)).mp (by decide) rfl
    (begun_of_begins (by decide))

/-- A page without a size panics with its transaction open. -/
theorem unnumbered_not_settled :
    ¬ ∀ (session : Session) (dbType id : String) (message : Message) (es : Trace)
      (o : Except Exit Unit),
      Runs (handleJSONData session dbType id message) es o → o ≠ .error .fatal → Settled es := by
  intro h
  have hsettled := h {} nd.mariaDB "id" { retType := "tableRsesult" } _ _ (runs_exec obliging _)
    (by decide)
  revert hsettled
  decide

end Messages

end NextDBM.DBSession
