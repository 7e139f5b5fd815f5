import NextDBM.Library.Int64
import NextDBM.Library.IPv4
import NextDBM.Model.Rows

/-!
# The retention of sessions and logs

The clean-up ticker reads from the properties how many days a kind of record is kept, and deletes the
records that the query for this limit selects. The limit of the query is computed in the 64-bit
nanoseconds of a duration. Times are nanoseconds; a column that may be null is an `Option`.
-/

namespace NextDBM

namespace Retention

open Int64Arith

/-- A session, with the columns that the query reads. -/
structure Session where
  id : String
  status : String
  connectedTime : Option Int
  deriving DecidableEq, Repr

/-- A login log, with the columns that the query reads. -/
structure LoginLog where
  id : String
  state : Option String
  loginTime : Option Int
  logoutTime : Option Int
  deriving DecidableEq, Repr

/-- A SQL log, with the columns that the query reads. -/
structure SqlLog where
  id : String
  state : Option String
  created : Option Int
  deriving DecidableEq, Repr

structure Logs where
  sessions : List Session := []
  loginLogs : List LoginLog := []
  sqlLogs : List SqlLog := []

/-! ## The queries -/

/-- `time.Hour` -/
def hour : Int := 3600000000000

/-- `time.Now().Add(time.Duration(-dayLimit*24) * time.Hour)` -/
def limitTime (now dayLimit : Int) : Int :=
  now + wrap (wrap (wrap (-dayLimit) * 24) * hour)

/-- `column < limit`, which does not hold of null. -/
def before (column : Option Int) (limit : Int) : Bool := column.any fun t => t < limit

/-- `SessionRepository.FindOutTimeSessions` -/
def findOutTimeSessions (sessions : List Session) (now dayLimit : Int) : List Session :=
  let limitTime := limitTime now dayLimit
  sessions.filter fun r => r.status == nd.disconnected && before r.connectedTime limitTime

/-- `LoginLogRepository.FindOutTimeLog` -/
def findOutTimeLoginLogs (loginLogs : List LoginLog) (now dayLimit : Int) : List LoginLog :=
  let limitTime := limitTime now dayLimit
  loginLogs.filter fun r =>
    r.state == some "0" && before r.loginTime limitTime ||
      r.state == some "1" && before r.logoutTime limitTime ||
      r.state == none && before r.logoutTime limitTime

/-- `SqlLogRepository.FindOutTimeLog` -/
def findOutTimeSqlLogs (sqlLogs : List SqlLog) (now dayLimit : Int) : List SqlLog :=
  let limitTime := limitTime now dayLimit
  sqlLogs.filter fun r =>
    r.state == some "0" && before r.created limitTime ||
      r.state == some "1" && before r.created limitTime ||
      r.state == none && before r.created limitTime

/-! ## The ticker -/

/-- `strconv.Atoi`; `none` is an error. -/
def atoi (s : String) : Option Int :=
  let unsigned : List Char → Option Nat := fun cs => IPv4.decimal (String.ofList cs)
  let value : Option Int := match s.toList with
    | '-' :: cs => (unsigned cs).map fun n => -(n : Int)
    | '+' :: cs => (unsigned cs).map fun n => (n : Int)
    | cs => (unsigned cs).map fun n => (n : Int)
  value.filter fun n => decide (-2 ^ 63 ≤ n ∧ n < 2 ^ 63)

/-- The limit of a kind of record; a task without one returns. The properties are those that
`FindByName` finds. -/
def savedLimit (properties : String → Option String) (name : String) : Option Int :=
  match properties name with
  | none => none
  | some value => if value = "" ∨ value = "-" then none else atoi value

/-- The records that the task for a kind of record deletes. -/
def outOfTime {ρ : Type} (properties : String → Option String) (name : String)
    (find : Int → List ρ) : List ρ :=
  match savedLimit properties name with
  | none => []
  | some limit => find limit

/-- The sessions that `deleteOutTimeSession` deletes. -/
def deleteOutTimeSession (properties : String → Option String) (logs : Logs) (now : Int) :
    List Session :=
  outOfTime properties "session-saved-limit" (findOutTimeSessions logs.sessions now)

/-- The login logs that `deleteOutTimeLoginLog` deletes. -/
def deleteOutTimeLoginLog (properties : String → Option String) (logs : Logs) (now : Int) :
    List LoginLog :=
  outOfTime properties "login-log-saved-limit" (findOutTimeLoginLogs logs.loginLogs now)

/-- The SQL logs that `deleteOutTimeSqlLog` deletes. -/
def deleteOutTimeSqlLog (properties : String → Option String) (logs : Logs) (now : Int) :
    List SqlLog :=
  outOfTime properties "sql-log-saved-limit" (findOutTimeSqlLogs logs.sqlLogs now)

/-! ## Recent records -/

/-- The time that the age of a login log counts from: a failed login is over at once. -/
def LoginLog.time (r : LoginLog) : Option Int :=
  if r.state = some "0" then r.loginTime else r.logoutTime

/-- The time is known and more than `n` days ago. -/
def OlderThan (n : Nat) (now : Int) (time : Option Int) : Prop :=
  ∃ t, time = some t ∧ t + n * (24 * hour) < now

/-- With these properties the ticker deletes no record before its days are over. -/
def KeepsRecent (properties : String → Option String) : Prop :=
  ∀ (logs : Logs) (now : Int) (n : Nat),
    (savedLimit properties "session-saved-limit" = some (n : Int) →
      ∀ r ∈ deleteOutTimeSession properties logs now, OlderThan n now r.connectedTime) ∧
    (savedLimit properties "login-log-saved-limit" = some (n : Int) →
      ∀ r ∈ deleteOutTimeLoginLog properties logs now, OlderThan n now r.time) ∧
    (savedLimit properties "sql-log-saved-limit" = some (n : Int) →
      ∀ r ∈ deleteOutTimeSqlLog properties logs now, OlderThan n now r.created)

end Retention

end NextDBM
