import Mathlib.Data.String.Basic
import NextDBM.Library.Calls
import NextDBM.Library.Tables

/-!
# Rows of the store

The tables of the server (`server/model`) as records. A column keeps the type the source gives it,
so statuses, types and rules are strings: nothing in the server restricts what a request body puts
there. Every field defaults to the zero value of its Go type, so `{}` is the zero struct that a
lookup returns next to an error. Creation times and columns that no modelled function reads are left
out.
-/

namespace NextDBM

/-- Errors of the services: those of the object-relational mapper, and texts. -/
inductive Error
  /-- `gorm.ErrRecordNotFound`: a `First` query without a match. -/
  | recordNotFound
  /-- An insert that breaks a primary key. -/
  | duplicatedKey
  /-- `gorm.ErrMissingWhereClause`: `Updates` of a row whose primary key is empty. -/
  | missingWhereClause
  /-- An error that carries a text. -/
  | text (s : String)
  deriving DecidableEq, Repr

/-- A sequence of fallible steps succeeds when each of them does. -/
theorem bind_eq_ok {α β : Type} {x : Except Error α} {f : α → Except Error β} {b : β} :
    (x >>= f) = .ok b ↔ ∃ a, x = .ok a ∧ f a = .ok b := by
  cases x with
  | ok a => exact ⟨fun h => ⟨a, rfl, h⟩, fun ⟨_, ha, hb⟩ => by cases ha; exact hb⟩
  | error err => exact ⟨fun h => (by cases h), fun ⟨_, ha, _⟩ => (by cases ha)⟩

/-- The result of a lookup whose error the caller ignores: `gorm` leaves the zero struct. -/
def okOrZero {α : Type} [Inhabited α] : Except Error α → α
  | .ok a => a
  | .error _ => default

/-- The error of a statement that the database does not serve. -/
def databaseFault : Error := .text "database fault"

/-! ## Constants (`server/common/nd`) -/

namespace nd

def mariaDB : String := "MariaDB"
def accessRuleAllow : String := "allow"
def accessRuleReject : String := "reject"
def custom : String := "custom"
def privateKey : String := "private-key"
def noConnect : String := "no_connect"
def connecting : String := "connecting"
def connected : String := "connected"
def disconnected : String := "disconnected"
def guacd : String := "guacd"
def native : String := "native"
def terminal : String := "terminal"
def proxy : String := "proxy"
def typeUser : String := "user"
def typeAdmin : String := "admin"
def sourceLdap : String := "ldap"
def statusEnabled : String := "enabled"
def statusDisabled : String := "disabled"
def anonymous : String := "anonymous"
def rdp : String := "rdp"
def socksProxyEnable : String := "socks-proxy-enable"
def socksProxyHost : String := "socks-proxy-host"
def socksProxyPort : String := "socks-proxy-port"
def socksProxyUsername : String := "socks-proxy-username"
def socksProxyPassword : String := "socks-proxy-password"
def errNameAlreadyUsed : Error := .text "name already used"

end nd

/-! ## Rows -/

/-- `model.User`; `roles` and `userGroupId` come with a request body and are not columns. -/
structure User where
  id : String := ""
  username : String := ""
  password : String := ""
  nickname : String := ""
  totpSecret : String := ""
  status : String := ""
  type : String := ""
  mail : String := ""
  source : String := ""
  roles : List String := []
  proxyAuth : String := ""
  userGroupId : String := ""
  deriving DecidableEq, Repr

/-- `model.UserGroup`; `members` comes with a request body and is not a column. -/
structure UserGroup where
  id : String := ""
  parentId : String := ""
  ancestors : String := ""
  name : String := ""
  status : String := ""
  source : String := ""
  members : List String := []
  deriving DecidableEq, Repr

/-- `model.UserGroupMember`. -/
structure UserGroupMember where
  id : String := ""
  userId : String := ""
  userGroupId : String := ""
  deriving DecidableEq, Repr

/-- `model.Authorised`: a grant of an asset to a user or to a user group. -/
structure Authorised where
  id : String := ""
  assetId : String := ""
  commandFilterId : String := ""
  strategyId : String := ""
  sensitiveCommandGroupId : String := ""
  userId : String := ""
  userGroupId : String := ""
  webhookPushStatus : String := ""
  deriving DecidableEq, Repr

/-- `model.Asset`. -/
structure Asset where
  id : String := ""
  name : String := ""
  protocol : String := ""
  ip : String := ""
  port : Int := 0
  accountType : String := ""
  username : String := ""
  password : String := ""
  credentialId : String := ""
  privateKey : String := ""
  passphrase : String := ""
  description : String := ""
  active : Bool := false
  activeMessage : String := ""
  tags : String := ""
  owner : String := ""
  encrypted : Bool := false
  accessGatewayId : String := ""
  deriving DecidableEq, Repr

/-- `model.AssetAttribute`. -/
structure AssetAttribute where
  id : String := ""
  assetId : String := ""
  name : String := ""
  value : String := ""
  deriving DecidableEq, Repr

/-- `model.Credential`. -/
structure Credential where
  id : String := ""
  name : String := ""
  type : String := ""
  username : String := ""
  password : String := ""
  privateKey : String := ""
  passphrase : String := ""
  owner : String := ""
  encrypted : Bool := false
  deriving DecidableEq, Repr

/-- `model.AccessGateway`. -/
structure AccessGateway where
  id : String := ""
  gatewayType : String := ""
  name : String := ""
  ip : String := ""
  port : Int := 0
  accountType : String := ""
  username : String := ""
  password : String := ""
  privateKey : String := ""
  passphrase : String := ""
  deriving DecidableEq, Repr

/-- `model.Session`. -/
structure Session where
  id : String := ""
  protocol : String := ""
  ip : String := ""
  port : Int := 0
  connectionId : String := ""
  assetId : String := ""
  username : String := ""
  password : String := ""
  creator : String := ""
  clientIP : String := ""
  status : String := ""
  privateKey : String := ""
  passphrase : String := ""
  message : String := ""
  mode : String := ""
  fileSystem : String := ""
  upload : String := ""
  download : String := ""
  delete : String := ""
  rename : String := ""
  edit : String := ""
  createDir : String := ""
  copy : String := ""
  paste : String := ""
  storageId : String := ""
  accessGatewayId : String := ""
  reviewed : Bool := false
  deriving DecidableEq, Repr

/-- `model.UserRoleRef`: a role of a user. -/
structure UserRoleRef where
  id : String := ""
  userId : String := ""
  roleId : String := ""
  deriving DecidableEq, Repr

/-- `model.Strategy`: what a session may do with files and the clipboard. -/
structure Strategy where
  id : String := ""
  upload : Bool := false
  download : Bool := false
  delete : Bool := false
  rename : Bool := false
  edit : Bool := false
  copy : Bool := false
  paste : Bool := false
  deriving DecidableEq, Repr

/-- `model.Storage`: a directory of the drive; `limitSize` is in bytes, and only a positive one is a
limit. -/
structure Storage where
  id : String := ""
  name : String := ""
  isShare : Bool := false
  limitSize : Int := 0
  isDefault : Bool := false
  owner : String := ""
  deriving DecidableEq, Repr

/-- `model.Property`: a setting of the server. -/
structure Property where
  name : String := ""
  value : String := ""
  deriving DecidableEq, Repr

instance : Inhabited User := ⟨{}⟩
instance : Inhabited Asset := ⟨{}⟩

/-! ## The database -/

/-- The tables that the modelled services read and write. -/
structure Database where
  users : Relational.Table User User.id := ∅
  userGroups : Relational.Table UserGroup UserGroup.id := ∅
  userGroupMembers : Relational.Table UserGroupMember UserGroupMember.id := ∅
  authorised : Relational.Table Authorised Authorised.id := ∅
  assets : Relational.Table Asset Asset.id := ∅
  assetAttributes : Relational.Table AssetAttribute AssetAttribute.id := ∅
  credentials : Relational.Table Credential Credential.id := ∅
  accessGateways : Relational.Table AccessGateway AccessGateway.id := ∅
  sessions : Relational.Table Session Session.id := ∅
  userRoleRefs : Relational.Table UserRoleRef UserRoleRef.id := ∅
  strategies : Relational.Table Strategy Strategy.id := ∅
  properties : Relational.Table Property Property.name := ∅

/-- `Updates` writes the non-zero fields of its argument: an empty text leaves the column alone. -/
def nonZero (new old : String) : String := if new = "" then old else new

@[simp] theorem nonZero_empty (old : String) : nonZero "" old = old := rfl

theorem nonZero_of_ne {new : String} (h : new ≠ "") (old : String) : nonZero new old = new :=
  if_neg h

/-! ## Lookups of single rows

The repository functions that return the first matching row in the order of the primary key.
-/

/-- A `First` query: the row, or `gorm.ErrRecordNotFound`. -/
def firstOrNotFound {α : Type} : Option α → Except Error α
  | some a => .ok a
  | none => .error .recordNotFound

theorem firstOrNotFound_eq_ok {α : Type} {o : Option α} {a : α} :
    firstOrNotFound o = .ok a ↔ o = some a := by
  cases o <;> simp [firstOrNotFound]

theorem okOrZero_firstOrNotFound {α : Type} [Inhabited α] (o : Option α) :
    okOrZero (firstOrNotFound o) = o.getD default := by
  cases o <;> rfl

namespace UserRepository

def findByUsername (db : Database) (username : String) : Except Error User :=
  firstOrNotFound (db.users.first fun u => u.username == username)

end UserRepository

namespace AssetRepository

def findById (db : Database) (id : String) : Except Error Asset :=
  firstOrNotFound (db.assets.findById id)

/-- `FindAssetByName`; an empty protocol adds no condition. -/
def findAssetByName (db : Database) (name protocol : String) : Except Error Asset :=
  firstOrNotFound
    (db.assets.first fun a => a.name == name && (protocol == "" || a.protocol == protocol))

end AssetRepository

namespace GatewayRepository

def findById (db : Database) (id : String) : Except Error AccessGateway :=
  firstOrNotFound (db.accessGateways.findById id)

end GatewayRepository

namespace CredentialRepository

def findById (db : Database) (id : String) : Except Error Credential :=
  firstOrNotFound (db.credentials.findById id)

end CredentialRepository

namespace SessionRepository

def findById (db : Database) (id : String) : Except Error Session :=
  firstOrNotFound (db.sessions.findById id)

end SessionRepository

/-! ## The log of SQL statements

Every statement that a user sends to an asset's database, through the proxy or through the editor, is
to be recorded in `sql_logs` with the state of its outcome.
-/

/-- `model.SqlLog`. -/
structure SqlLog where
  id : String := ""
  owner : String := ""
  assetId : String := ""
  /-- `"1"` for a success, `"0"` for a failure. -/
  state : String := ""
  reason : String := ""
  sqlCommand : String := ""
  sessionId : String := ""
  deriving DecidableEq, Repr

namespace SqlLog

/-- The state that records an outcome. -/
def stateOf {α : Type} (r : Calls.Outcome α) : String := if r.succeeded then "1" else "0"

/-- What a row says: which statement, and how it ended. -/
def entry (row : SqlLog) : String × String := (row.sqlCommand, row.state)

end SqlLog

/-! ## Rows of the accounts

The tables of logins, access tokens and login policies, next to those of `Model.Rows`. A column of
time is read only for being null, and is a flag here.
-/

namespace nd

def loginToken : String := "login-token"
def accessToken : String := "access-token"

end nd

/-- `model.LoginLog`. The id of a successful web login is its token. -/
structure LoginLog where
  id : String := ""
  username : String := ""
  clientIP : String := ""
  clientUserAgent : String := ""
  /-- `logout_time` is not null. -/
  loggedOut : Bool := false
  remember : Bool := false
  /-- `"1"` after a success, `"0"` after a failure. -/
  state : String := ""
  reason : String := ""
  deriving DecidableEq, Repr

/-- `model.AccessToken`. -/
structure AccessToken where
  id : String := ""
  userId : String := ""
  token : String := ""
  deriving DecidableEq, Repr

instance : Inhabited AccessToken := ⟨{}⟩

/-- `model.LoginPolicy`; `timePeriod` comes with a request body and is not a column. -/
structure LoginPolicy where
  id : String := ""
  name : String := ""
  ipGroup : String := ""
  priority : Int := 0
  enabled : Bool := false
  rule : String := ""
  deriving DecidableEq, Repr

/-- `model.LoginPolicyUserRef`. -/
structure LoginPolicyUserRef where
  id : String := ""
  userId : String := ""
  loginPolicyId : String := ""
  deriving DecidableEq, Repr

/-- `model.TimePeriod`: the times of one day of the week, counted from Sunday. -/
structure TimePeriod where
  id : String := ""
  loginPolicyId : String := ""
  key : Int := 0
  value : String := ""
  deriving DecidableEq, Repr

/-- The store with the tables of the accounts. -/
structure AccountDatabase extends Database where
  loginLogs : Relational.Table LoginLog LoginLog.id := ∅
  accessTokens : Relational.Table AccessToken AccessToken.id := ∅
  loginPolicies : Relational.Table LoginPolicy LoginPolicy.id := ∅
  loginPolicyUserRefs : Relational.Table LoginPolicyUserRef LoginPolicyUserRef.id := ∅
  timePeriods : Relational.Table TimePeriod TimePeriod.id := ∅

end NextDBM
