import NextDBM.Library.Tables
import NextDBM.Library.Paging
import NextDBM.Library.Text
import NextDBM.Model.Rows
import NextDBM.Roles.RoleService

/-!
# Pages of tables

The paging queries of five repositories. Each builds a query for the rows of a page and a query that
counts, and applies the same filters to both by hand. How a text matches a pattern, how a number
compares with a text and in which order texts come is up to the database. A `Group` query counts its
groups.
-/

namespace NextDBM

open Relational Paging

/-- What the queries leave to the database. -/
structure Engine where
  /-- `config.GlobalCfg.DB == "sqlite"` -/
  sqlite : Bool := false
  like : String → String → Bool
  /-- A column of integers compared with a text. -/
  numberEquals : Int → String → Bool
  findInSet : String → String → Bool
  /-- The weights of the characters of a text in the order of the texts. -/
  weights : String → List Int

/-- What the rows are sorted by: a number has one weight, null none. -/
abbrev SortKey : Type := List Int

/-- `strconv.ParseBool` -/
def parseBool (s : String) : Option Bool :=
  if s ∈ ["1", "t", "T", "TRUE", "true", "True"] then some true
  else if s ∈ ["0", "f", "F", "FALSE", "false", "False"] then some false
  else none

/-- The pattern `%s%`. -/
def anywhere (s : String) : String := "%" ++ s ++ "%"

/-! ## The tables -/

structure AssetRecord extends Asset where
  created : Int := 0
  lastAccessTime : Int := 0
  deriving DecidableEq, Repr

structure SqlLogRecord extends SqlLog where
  created : Int := 0
  deriving DecidableEq, Repr

structure AuthorisedRecord extends Authorised where
  created : Int := 0
  deriving DecidableEq, Repr

structure RoleRecord extends Role where
  created : Int := 0
  deriving DecidableEq, Repr

/-- A strategy or a group of sensitive commands, with the columns that a page shows. -/
structure NamedRecord where
  id : String := ""
  name : String := ""
  deriving DecidableEq, Repr

structure PageTables where
  users : Table User User.id := ∅
  assets : Table AssetRecord (fun a => a.id) := ∅
  sqlLogs : Table SqlLogRecord (fun l => l.id) := ∅
  authorised : Table AuthorisedRecord (fun g => g.id) := ∅
  strategies : Table NamedRecord NamedRecord.id := ∅
  sensitiveCommandGroups : Table NamedRecord NamedRecord.id := ∅
  roles : Table RoleRecord (fun r => r.id) := ∅
  loginPolicies : Table LoginPolicy LoginPolicy.id := ∅
  loginPolicyUserRefs : Table LoginPolicyUserRef LoginPolicyUserRef.id := ∅

/-- The nickname of the owner of a row, from a left join with the users. -/
def PageTables.ownerName (db : PageTables) (owner : String) : Option String :=
  (db.users.findById owner).map User.nickname

/-! ## Assets -/

/-- `model.AssetForPage`. -/
structure AssetForPage where
  id : String
  name : String
  description : String
  ip : String
  protocol : String
  port : Int
  active : Bool
  activeMessage : String
  created : Int
  lastAccessTime : Int
  tags : String
  owner : String
  ownerName : Option String
  deriving DecidableEq, Repr

structure AssetFilters where
  name : String := ""
  protocol : String := ""
  tags : String := ""
  ip : String := ""
  port : String := ""
  active : String := ""
  deriving DecidableEq, Repr

namespace AssetRepository

def hasTag (engine : Engine) (tags tag : String) : Bool :=
  if engine.sqlite then engine.like ("," ++ tags ++ ",") ("%," ++ tag ++ ",%")
  else engine.findInSet tag tags

/-- The conditions of a query; `portText` is what the column of the ports is compared with, when there
is a port to filter by. -/
def conditions (engine : Engine) (f : AssetFilters) (portText : String) (a : AssetRecord) : Bool :=
  (f.name == "" || engine.like a.name (anywhere f.name)) &&
    (f.ip == "" || engine.like a.ip (anywhere f.ip)) &&
    (f.port == "" || engine.numberEquals a.port portText) &&
    (f.protocol == "" || a.protocol == f.protocol) &&
    (f.tags == "" || (Text.split f.tags ',').all (hasTag engine a.tags)) &&
    match parseBool f.active with
    | some active => a.active == active
    | none => true

def forPage (db : PageTables) (a : AssetRecord) : AssetForPage :=
  { a with ownerName := db.ownerName a.owner }

/-- The rows that satisfy the filters. -/
def rows (engine : Engine) (db : PageTables) (f : AssetFilters) : List AssetForPage :=
  (db.assets.rows.filter (conditions engine f f.port)).map (forPage db)

/-- The column of the order. -/
def column (engine : Engine) (field : String) (a : AssetForPage) : SortKey :=
  if field = "name" then engine.weights a.name
  else if field = "protocol" then engine.weights a.protocol
  else if field = "ip" then engine.weights a.ip
  else if field = "active" then [if a.active then 1 else 0]
  else if field = "lastAccessTime" then [a.lastAccessTime]
  else [a.created]

/-- `Find`; the query that counts compares the ports with `ip`. -/
def find (engine : Engine) (db : PageTables) (f : AssetFilters) (order field : String)
    (scan : Scan AssetForPage) (pageIndex pageSize : Int) :
    Except Error (List AssetForPage × Nat) :=
  let total := (db.assets.rows.filter (conditions engine f f.ip)).length
  .ok (slice ((pageIndex - 1) * pageSize) pageSize
    (orderBy (column engine field) (order != "ascend") (scan.run (rows engine db f))), total)

/-- There is no port to filter by, or as many assets that satisfy the other filters have the port as
compare equal with the IP filter. -/
def CountsRows (engine : Engine) (db : PageTables) (f : AssetFilters) : Prop :=
  let others := db.assets.rows.filter (conditions engine { f with port := "" } "")
  f.port = "" ∨ (others.filter fun a => engine.numberEquals a.port f.ip).length =
    (others.filter fun a => engine.numberEquals a.port f.port).length

end AssetRepository

/-! ## SQL logs -/

/-- `model.SqlLogForPage`. -/
structure SqlLogForPage where
  id : String
  owner : String
  assetId : String
  created : Int
  state : String
  reason : String
  sqlCommand : String
  assetName : Option String
  ownerName : Option String
  deriving DecidableEq, Repr

structure SqlLogFilters where
  assetId : String := ""
  owner : String := ""
  state : String := ""
  reason : String := ""
  sqlCommand : String := ""
  sessionId : String := ""
  deriving DecidableEq, Repr

namespace SqlLogRepository

/-- The conditions of a query; `sessionText` is what the column of the sessions is compared with, when
there is a session to filter by. The reason is compared with `=` in both queries. -/
def conditions (engine : Engine) (f : SqlLogFilters) (sessionText : String) (l : SqlLogRecord) :
    Bool :=
  (f.assetId == "" || l.assetId == f.assetId) &&
    (f.owner == "" || l.owner == f.owner) &&
    (f.state == "" || l.state == f.state) &&
    (f.reason == "" || l.reason == anywhere f.reason) &&
    (f.sqlCommand == "" || engine.like l.sqlCommand (anywhere f.sqlCommand)) &&
    (f.sessionId == "" || l.sessionId == sessionText)

def forPage (db : PageTables) (l : SqlLogRecord) : SqlLogForPage :=
  { l with
    assetName := (db.assets.findById l.assetId).map fun a => a.name
    ownerName := db.ownerName l.owner }

/-- The rows that satisfy the filters; a log meets one user and one asset at most, so the groups by
its id are the logs. -/
def rows (engine : Engine) (db : PageTables) (f : SqlLogFilters) : List SqlLogForPage :=
  (db.sqlLogs.rows.filter (conditions engine f f.sessionId)).map (forPage db)

def column (l : SqlLogForPage) : SortKey := [l.created]

/-- `Find`; the query that counts compares the sessions with `sqlCommand`. -/
def find (engine : Engine) (db : PageTables) (f : SqlLogFilters) (scan : Scan SqlLogForPage)
    (pageIndex pageSize : Int) : Except Error (List SqlLogForPage × Nat) :=
  let total := (db.sqlLogs.rows.filter (conditions engine f f.sqlCommand)).length
  .ok (slice ((pageIndex - 1) * pageSize) pageSize
    (orderBy column true (scan.run (rows engine db f))), total)

/-- There is no session to filter by, or as many logs that satisfy the other filters are of the session
as have the text of the command filter for their session. -/
def CountsRows (engine : Engine) (db : PageTables) (f : SqlLogFilters) : Prop :=
  let others := db.sqlLogs.rows.filter (conditions engine { f with sessionId := "" } "")
  f.sessionId = "" ∨ (others.filter fun l => l.sessionId == f.sqlCommand).length =
    (others.filter fun l => l.sessionId == f.sessionId).length

end SqlLogRepository

/-! ## Authorised users -/

/-- `dto.UserPageForAuthorised`. -/
structure UserPageForAuthorised where
  id : Option String
  userId : String
  userName : String
  strategyId : Option String
  strategyName : Option String
  sensitiveCommandGroupId : Option String
  sensitiveCommandGroupName : Option String
  webhookPushStatus : Option String
  created : Option Int
  deriving DecidableEq, Repr

namespace AuthorisedRepository

/-- The condition on the grants, which is not met by a row without one. -/
def onAsset (assetId : String) (g : Option AuthorisedRecord) : Bool :=
  assetId == "" || g.any fun g => g.assetId == assetId

def userForPage (db : PageTables) (u : User) (g : Option AuthorisedRecord) :
    UserPageForAuthorised :=
  let strategy := g.bind fun g => db.strategies.findById g.strategyId
  let group := g.bind fun g => db.sensitiveCommandGroups.findById g.sensitiveCommandGroupId
  { id := g.map fun g => g.id
    userId := u.id
    userName := u.nickname
    strategyId := strategy.map NamedRecord.id
    strategyName := strategy.map NamedRecord.name
    sensitiveCommandGroupId := group.map NamedRecord.id
    sensitiveCommandGroupName := group.map NamedRecord.name
    webhookPushStatus := g.map fun g => g.webhookPushStatus
    created := g.map fun g => g.created }

/-- The users with their grants, as far as they satisfy the filters. -/
def userRows (engine : Engine) (db : PageTables) (userName assetId : String) :
    List UserPageForAuthorised :=
  ((leftJoin db.users.rows db.authorised.rows fun u g => g.userId == u.id).filter fun row =>
    (userName == "" || engine.like row.1.nickname (anywhere userName)) && onAsset assetId row.2).map
      fun row => userForPage db row.1 row.2

def column (row : UserPageForAuthorised) : SortKey := row.created.toList

/-- The number of assets with a grant that meets the condition. -/
def countGroups (db : PageTables) (assetId : String) : Nat :=
  (db.assets.rows.filter fun a =>
    (matchesOrNone (db.authorised.rows.filter fun g => g.assetId == a.id)).any
      (onAsset assetId)).length

def unknownColumn : Error := .text "Unknown column 'users.nickname' in 'where clause'"

/-- `FindUserPage`; the query that counts is about the assets, and has no column `users.nickname`. -/
def findUserPage (engine : Engine) (db : PageTables) (userName assetId : String)
    (scan : Scan UserPageForAuthorised) (pageIndex pageSize : Int) :
    Except Error (List UserPageForAuthorised × Nat) :=
  if userName ≠ "" then .error unknownColumn
  else
    .ok (slice ((pageIndex - 1) * pageSize) pageSize
      (orderBy column true (scan.run (userRows engine db userName assetId))),
      countGroups db assetId)

/-- No name is searched for. For all assets, there are as many assets as rows of users; for one asset
that has a grant, to a user or a user group, there is one row, and for any other there is none. -/
structure CountsUsers (engine : Engine) (db : PageTables) (userName assetId : String) : Prop where
  unnamed : userName = ""
  all : assetId = "" → (userRows engine db userName assetId).length = db.assets.rows.length
  one : assetId ≠ "" → (userRows engine db userName assetId).length =
    if (∃ a ∈ db.assets, a.id = assetId) ∧ ∃ g ∈ db.authorised, g.assetId = assetId then 1 else 0

end AuthorisedRepository

/-! ## Roles and login policies -/

namespace RoleRepository

def rows (engine : Engine) (db : PageTables) (name type : String) : List RoleRecord :=
  db.roles.rows.filter fun r =>
    (name == "" || engine.like r.name (anywhere name)) && (type == "" || r.type == type)

def column (engine : Engine) (field : String) (r : RoleRecord) : SortKey :=
  if field = "name" then engine.weights r.name else [r.created]

/-- `Find`, which applies the offset and the limit to a query that has run. -/
def find (engine : Engine) (db : PageTables) (name type order field : String)
    (scan : Scan RoleRecord) (_pageIndex _pageSize : Int) : Except Error (List RoleRecord × Nat) :=
  .ok (orderBy (column engine field) (order != "ascend") (scan.run (rows engine db name type)),
    (rows engine db name type).length)

end RoleRepository

namespace LoginPolicyRepository

/-- The policies with a row of the left join with the references that satisfies the filters; the
groups are by policy. -/
def rows (engine : Engine) (db : PageTables) (name userId : String) : List LoginPolicy :=
  db.loginPolicies.rows.filter fun p =>
    (name == "" || engine.like p.name (anywhere name)) &&
      (matchesOrNone (db.loginPolicyUserRefs.rows.filter fun r => r.loginPolicyId == p.id)).any
        fun r => userId == "" || r.any fun r => r.userId == userId

def column (engine : Engine) (field : String) (p : LoginPolicy) : SortKey :=
  if field = "name" then engine.weights p.name else [p.priority]

/-- `Find`, which applies the offset and the limit to a query that has run. -/
def find (engine : Engine) (db : PageTables) (name userId order field : String)
    (scan : Scan LoginPolicy) (_pageIndex _pageSize : Int) :
    Except Error (List LoginPolicy × Nat) :=
  .ok (orderBy (column engine field) (order != "" && order != "ascend")
    (scan.run (rows engine db name userId)), (rows engine db name userId).length)

end LoginPolicyRepository

end NextDBM
