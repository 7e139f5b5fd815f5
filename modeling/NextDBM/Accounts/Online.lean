import NextDBM.Accounts.Tokens
import Mathlib.Logic.Function.Basic

/-!
# The online flag

A web login sets the column `online` of its user, and `LogoutByToken` clears it by user name when the
name has no login log without a logout time. Operations run beside each other, statement by statement;
the deletion of an item of `cache.TokenManager` and its callback `OnEvicted` are apart. An item whose
expiry passes is evicted, so the items of the cache are live.
-/

namespace NextDBM

/-- What an operation does next: a statement of the database, or an access to the cache. -/
inductive OnlineStatement
  /-- The writes of a web login, one after the other. -/
  | setToken (l : WebLogin) (user : User)
  | setOnline (l : WebLogin) (user : User)
  | saveLoginLog (l : WebLogin) (user : User)
  /-- `Logout`; the deletion of the login log follows in `DeleteLoginLogs`. -/
  | logout (token : String) (deletesLog : Bool)
  /-- The callback, up to the lookup of `LogoutByToken`. -/
  | onEvicted (token : String)
  /-- A round of `DeleteLoginLogs`, up to the lookup of `LogoutByToken`. -/
  | deleteLoginLog (token : String)
  /-- The other statements of `LogoutByToken`. -/
  | updateLogoutTime (token username : String) (deletesLog : Bool)
  | findAliveLoginLogs (username : String)
  | updateOnline (username : String)
  | deleteById (token : String)
  /-- The lookups of `LogoutById`. -/
  | findUser (id : String)
  | findTokens (username : String)

/-- The store, the column `online` by the id of the user, the cache, and what is left to do of the
operations in progress. -/
structure OnlineServer (κ : Type) where
  db : AccountDatabase
  online : String → Bool := fun _ => false
  tokens : TokenManager := ∅
  running : κ → List OnlineStatement := fun _ => []

inductive OnlineAction (κ : Type)
  /-- A login whose checks have passed. -/
  | login (k : κ) (l : WebLogin)
  | loginFailed (l : WebLogin) (reason : String)
  /-- The log of an SSH login that succeeds. -/
  | sshLogin (remoteAddr username uuid : String)
  /-- `LogoutEndpoint`; the token has passed `Auth`. -/
  | logout (k : κ) (token : String)
  /-- The expiry of some tokens passes. -/
  | evict (k : κ) (tokens : List String)
  | deleteLoginLogs (k : κ) (tokens : List String)
  | logoutById (k : κ) (id : String)
  /-- The transaction of `UpdateUser`; the body of the request may hold the column `online`. -/
  | updateUser (uuid : Nat → String) (id : String) (user : User) (online : Option Bool)
  /-- An operation in progress does its next statement. -/
  | run (k : κ)

/-- The items whose expiry passes. -/
def isEvicted (tokens : List String) (i : ExpiringCache.Item String Authorization) : Bool :=
  i.expires && tokens.contains i.key

def evictedCallback (i : ExpiringCache.Item String Authorization) : OnlineStatement :=
  .onEvicted i.key

namespace OnlineServer

variable {κ : Type} [DecidableEq κ] (s : OnlineServer κ)

/-- The operation goes on with some statements. -/
def goOn (k : κ) (statements : List OnlineStatement) : OnlineServer κ :=
  { s with running := Function.update s.running k statements }

/-- Start an operation. -/
def start (k : κ) (statements : List OnlineStatement) : Option (OnlineServer κ) :=
  match s.running k with
  | [] => some (s.goOn k statements)
  | _ :: _ => none

/-- `Updates` of the column `online`, by the id of the user. -/
def setFlag (id : String) (online : Bool) : OnlineServer κ :=
  { s with online := Function.update s.online id online }

/-- `UpdateOnlineByUsername` with `false`. -/
def clearFlag (username : String) : OnlineServer κ :=
  { s with
    online := fun id =>
      s.online id && !decide (∃ u ∈ s.db.users, u.id = id ∧ u.username = username) }

def saveLoginLog (clientIP clientUserAgent username : String) (success remember : Bool)
    (id reason uuid : String) : OnlineServer κ :=
  { s with
    db := orKept s.db <| UserService.saveLoginLog s.db clientIP clientUserAgent username success
      remember id reason uuid }

/-- The operation does its next statement, before the `rest`. -/
def exec (k : κ) (rest : List OnlineStatement) : OnlineStatement → OnlineServer κ
  | .setToken l user =>
    let authorization : Authorization :=
      { token := l.token, type := nd.loginToken, remember := l.remember, user }
    { s with tokens := s.tokens.set l.token authorization true }.goOn k (.setOnline l user :: rest)
  | .setOnline l user =>
    if user.id = "" then s.goOn k []
    else (s.setFlag user.id true).goOn k (.saveLoginLog l user :: rest)
  | .saveLoginLog l _ =>
    (s.saveLoginLog l.realIP l.userAgent l.username true l.remember l.token "" l.uuid).goOn k rest
  | .logout token deletesLog =>
    let rest := if deletesLog then .deleteById token :: rest else rest
    if (s.tokens.findById token).isSome then
      { s with tokens := s.tokens.deleteWhere fun i => i.key == token }.goOn k
        (.onEvicted token :: rest)
    else s.goOn k rest
  | .onEvicted token =>
    if UserService.isForever token then s.goOn k rest
    else match LoginLogRepository.findById s.db token with
      | .error _ => s.goOn k rest
      | .ok loginLog => s.goOn k (.updateLogoutTime token loginLog.username false :: rest)
  | .deleteLoginLog token =>
    match LoginLogRepository.findById s.db token with
    | .error _ => s.goOn k []
    | .ok loginLog => s.goOn k (.updateLogoutTime token loginLog.username true :: rest)
  | .updateLogoutTime token username deletesLog =>
    let rest := if deletesLog then .logout token true :: rest else rest
    match LoginLogRepository.updateLogoutTime s.db token with
    | .error _ => s.goOn k []
    | .ok db => { s with db }.goOn k (.findAliveLoginLogs username :: rest)
  | .findAliveLoginLogs username =>
    if (LoginLogRepository.findAliveLoginLogsByUsername s.db username).isEmpty then
      s.goOn k (.updateOnline username :: rest)
    else s.goOn k rest
  | .updateOnline username => (s.clearFlag username).goOn k rest
  | .deleteById token => { s with db := LoginLogRepository.deleteById s.db token }.goOn k rest
  | .findUser id =>
    match UserRepository.findById s.db.toDatabase id with
    | .error _ => s.goOn k []
    | .ok user => s.goOn k (.findTokens user.username :: rest)
  | .findTokens username =>
    s.goOn k ((LoginLogRepository.findAliveLoginLogsByUsername s.db username).map
      (fun l => .logout l.id false) ++ rest)

/-- The transaction of `UpdateUser`. -/
def updateUser (uuid : Nat → String) (id : String) (user : User) (online : Option Bool) :
    OnlineServer κ :=
  match UserService.updateUser s.db.toDatabase uuid id user with
  | .error _ => s
  | .ok db =>
    let s := { s with db := { s.db with toDatabase := db } }
    match online with
    | none => s
    | some online => s.setFlag user.id online

def step : OnlineAction κ → Option (OnlineServer κ)
  | .login k l =>
    match UserRepository.findByUsername s.db.toDatabase l.username with
    | .error _ => none
    | .ok user => s.start k [.setToken l user]
  | .loginFailed l reason =>
    some (s.saveLoginLog l.realIP l.userAgent l.username false l.remember "" reason l.uuid)
  | .sshLogin remoteAddr username uuid =>
    some (s.saveLoginLog remoteAddr "terminal" username true false uuid "" "")
  | .logout k token =>
    if (s.tokens.findById token).isSome then s.start k [.logout token false] else none
  | .evict k tokens =>
    { s with tokens := s.tokens.deleteWhere (isEvicted tokens) }.start k
      ((s.tokens.rows.filter (isEvicted tokens)).map evictedCallback)
  | .deleteLoginLogs k tokens => s.start k (tokens.map .deleteLoginLog)
  | .logoutById k id => s.start k [.findUser id]
  | .updateUser uuid id user online => some (s.updateUser uuid id user online)
  | .run k =>
    match s.running k with
    | [] => none
    | statement :: rest => some (s.exec k rest statement)

end OnlineServer

/-! ## What the flag says -/

namespace OnlineStatement

/-- The token that the statement writes or reads. -/
def token? : OnlineStatement → Option String
  | .setToken l _ | .setOnline l _ | .saveLoginLog l _ => some l.token
  | .logout token _ | .onEvicted token | .deleteLoginLog token => some token
  | .updateLogoutTime token _ _ | .deleteById token => some token
  | .findAliveLoginLogs _ | .updateOnline _ | .findUser _ | .findTokens _ => none

/-- The web login that the statement belongs to. -/
def login? : OnlineStatement → Option (WebLogin × User)
  | .setToken l user | .setOnline l user | .saveLoginLog l user => some (l, user)
  | _ => none

end OnlineStatement

namespace OnlineServer

variable {κ : Type} (s : OnlineServer κ)

/-- An operation in progress has the statement left to do. -/
def Pending (statement : OnlineStatement) : Prop := ∃ k, statement ∈ s.running k

/-- No operation is in progress. -/
def Idle : Prop := ∀ k, s.running k = []

/-- The cache holds a token of a web login under the key, for the user with the id. -/
def Holds (token id : String) : Prop :=
  ∃ i ∈ s.tokens, i.key = token ∧ i.value.type = nd.loginToken ∧ i.value.user.id = id

/-- The flags of the users are those of the users with a live web token. -/
def FlagsAgree : Prop :=
  ∀ u ∈ s.db.users, s.online u.id = true ↔ ∃ token, s.Holds token u.id

/-- A user with the id has the name. -/
def Named (id username : String) : Prop := ∃ u ∈ s.db.users, u.id = id ∧ u.username = username

/-- A state that operations start from, such as a store before the first login: no operation is in
progress, no two users have the same name, the alive login logs are those of the live tokens, and the
flags agree with the tokens. -/
structure Settled : Prop where
  idle : s.Idle
  ids : ∀ u ∈ s.db.users, u.id ≠ ""
  names : ∀ u ∈ s.db.users, ∀ v ∈ s.db.users, u.username = v.username → u = v
  logs : ∀ r ∈ s.db.loginLogs, r.id ≠ "" ∧ UserService.isForever r.id = false ∧
    (LoginLogRepository.isAlive r = true → ∃ id, s.Holds r.id id)
  tokens : ∀ token id, s.Holds token id → ∃ r ∈ s.db.loginLogs, r.id = token ∧
    LoginLogRepository.isAlive r = true ∧ s.Named id r.username
  flags : s.FlagsAgree

/-- An id that is drawn: no row, no key of the cache and no operation in progress has it. -/
def New (id : String) : Prop :=
  IsUuid id ∧ (∀ r ∈ s.db.loginLogs, r.id ≠ id) ∧ (∀ i ∈ s.tokens, i.key ≠ id) ∧
    ∀ statement, s.Pending statement → statement.token? ≠ some id

/-- The ids that an action draws are new. -/
def DrawsNew : OnlineAction κ → Prop
  | .login _ l => s.New l.token
  | .loginFailed l _ => s.New l.uuid
  | .sshLogin _ _ uuid => s.New uuid
  | _ => True

/-! ## The condition on a step -/

/-- A web login under the name is in progress. -/
def LoggingIn (username : String) : Prop :=
  ∃ statement l user, s.Pending statement ∧ statement.login? = some (l, user) ∧
    l.username = username

/-- A web login that is in progress has stored the token, or will. -/
def LoggingInWith (token : String) : Prop :=
  ∃ statement l user, s.Pending statement ∧ statement.login? = some (l, user) ∧ l.token = token

/-- The login log is that of a live token, or of one that is being logged out. -/
def OfToken (r : LoginLog) : Prop :=
  (∃ id, s.Holds r.id id) ∨ s.Pending (.onEvicted r.id) ∨
    ∃ username deletesLog, s.Pending (.updateLogoutTime r.id username deletesLog)

/-- A login or a logout under the name is in progress, and has not come to its last write yet. -/
def Busy (username : String) : Prop :=
  s.LoggingIn username ∨ s.Pending (.findAliveLoginLogs username) ∨
    s.Pending (.updateOnline username) ∨
      ∃ r ∈ s.db.loginLogs, r.username = username ∧
        (s.Pending (.onEvicted r.id) ∨
          ∃ name deletesLog, s.Pending (.updateLogoutTime r.id name deletesLog))

/-- The next statement keeps the flags: the alive login logs of a name are counted while no login under
the name is in progress, and not when the only ones are those of SSH sessions. -/
def CountsTokens : OnlineStatement → Prop
  | .findAliveLoginLogs username => ¬ s.LoggingIn username ∧
      ((∃ r ∈ s.db.loginLogs, LoginLogRepository.isAlive r = true ∧ r.username = username) →
        ∃ r ∈ s.db.loginLogs, LoginLogRepository.isAlive r = true ∧ r.username = username ∧
          s.OfToken r)
  | _ => True

/-- An update of a user leaves the flag alone, and one that goes through gives another name only to a
user without a token whom no operation concerns, and only a name that no user has. -/
def RenamesFree (uuid : Nat → String) (id : String) (user : User) (online : Option Bool) : Prop :=
  (∀ b ∈ online, s.online user.id = b) ∧
    ∀ db', UserService.updateUser s.db.toDatabase uuid id user = .ok db' →
      ∀ u ∈ s.db.users, u.id = user.id → user.username ≠ "" → user.username ≠ u.username →
        (∀ v ∈ s.db.users, v.username ≠ user.username) ∧ (∀ token, ¬ s.Holds token u.id) ∧
          ¬ s.Busy u.username

/-- The steps that keep the flags: no login starts while the flag of its name is about to be cleared, no
token is logged out or evicted before its login is done, and the logs are counted and users renamed as
above. -/
def KeepsFlags : OnlineAction κ → Prop
  | .login _ l => ¬ s.Pending (.updateOnline l.username)
  | .logout _ token => ¬ s.LoggingInWith token
  | .evict _ tokens => ∀ token ∈ tokens, ¬ s.LoggingInWith token
  | .updateUser uuid id user online => s.RenamesFree uuid id user online
  | .run k => ∀ statement rest, s.running k = statement :: rest → s.CountsTokens statement
  | _ => True

end OnlineServer

end NextDBM
