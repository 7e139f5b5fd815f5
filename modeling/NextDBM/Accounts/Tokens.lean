import NextDBM.Access.Requests
import NextDBM.Accounts.LoginPolicy
import NextDBM.Library.ExpiringCache
import NextDBM.Library.Runs

/-!
# Tokens

`cache.TokenManager` maps a token to the account that it authenticates. A web login stores its token
there and writes a login log with the token as id; an access token is stored without an expiry and
has a row of its own. An eviction writes the logout time of the login log, and a start rebuilds the
cache from the login logs without one and from the rows of the access tokens.

The flag `online` of the users, which no entrance reads, is left out.
-/

namespace NextDBM

/-- `dto.Authorization`. -/
structure Authorization where
  token : String
  type : String
  remember : Bool
  user : User
  deriving DecidableEq, Repr

abbrev TokenManager : Type := ExpiringCache String Authorization

/-- The store and the cache of tokens. `issued` is a history variable: the tokens that a login or
`GenAccessToken` gave out, each with the id of its user. -/
structure AccountServer where
  db : AccountDatabase
  tokens : TokenManager := ∅
  issued : List (String × String) := []

namespace LoginLogRepository

def findById (db : AccountDatabase) (id : String) : Except Error LoginLog :=
  firstOrNotFound (db.loginLogs.findById id)

/-- The condition of `FindAliveLoginLogs`. -/
def isAlive (l : LoginLog) : Bool := l.state == "1" && !l.loggedOut

def findAliveLoginLogs (db : AccountDatabase) : List LoginLog := db.loginLogs.rows.filter isAlive

def findAliveLoginLogsByUsername (db : AccountDatabase) (username : String) : List LoginLog :=
  db.loginLogs.rows.filter fun l => isAlive l && l.username == username

/-- `Update` with a logout time. -/
def updateLogoutTime (db : AccountDatabase) (id : String) : Except Error AccountDatabase :=
  if id = "" then .error .missingWhereClause
  else .ok { db with
    loginLogs := db.loginLogs.updateById id (fun l => { l with loggedOut := true }) fun _ => rfl }

def deleteById (db : AccountDatabase) (id : String) : AccountDatabase :=
  { db with loginLogs := db.loginLogs.deleteWhere fun l => l.id == id }

end LoginLogRepository

namespace AccessTokenRepository

def findByUserId (db : AccountDatabase) (userId : String) : Option AccessToken :=
  db.accessTokens.first fun o => o.userId == userId

def deleteByUserId (db : AccountDatabase) (userId : String) : AccountDatabase :=
  { db with accessTokens := db.accessTokens.deleteWhere fun o => o.userId == userId }

end AccessTokenRepository

namespace UserService

def logoutByToken (db : AccountDatabase) (token : String) : Except Error AccountDatabase := do
  let _ ← LoginLogRepository.findById db token
  LoginLogRepository.updateLogoutTime db token

/-- The tokens that an eviction does not log out. -/
def isForever (token : String) : Bool := Text.hasPrefix token "forever"

/-- `OnEvicted` -/
def onEvicted (db : AccountDatabase) (token : String) : AccountDatabase :=
  if isForever token then db else orKept db (logoutByToken db token)

/-- `Logout`: delete the token from the cache, with the callback. -/
def logout (s : AccountServer) (token : String) : AccountServer :=
  let (db, tokens) := ExpiringCache.delete onEvicted s.db s.tokens token
  { s with db, tokens }

def logoutById (s : AccountServer) (id : String) : Except Error AccountServer := do
  let user ← UserRepository.findById s.db.toDatabase id
  let loginLogs := LoginLogRepository.findAliveLoginLogsByUsername s.db user.username
  pure (loginLogs.foldl (fun s l => logout s l.id) s)

/-- `DeleteLoginLogs`: the loop stops at the first error, and what was done stays. -/
def deleteLoginLogs (s : AccountServer) : List String → AccountServer
  | [] => s
  | token :: tokens =>
    match logoutByToken s.db token with
    | .error _ => s
    | .ok db =>
      let s := logout { s with db } token
      deleteLoginLogs { s with db := LoginLogRepository.deleteById s.db token } tokens

/-- The body of the loop of `ReloadToken`. -/
def reloadOne (s : AccountServer) (loginLog : LoginLog) : AccountServer :=
  match UserRepository.findByUsername s.db.toDatabase loginLog.username with
  | .error _ => { s with db := LoginLogRepository.deleteById s.db loginLog.id }
  | .ok user =>
    let authorization : Authorization :=
      { token := loginLog.id, type := nd.loginToken, remember := loginLog.remember, user }
    { s with tokens := s.tokens.set loginLog.id authorization true }

def reloadToken (s : AccountServer) : AccountServer :=
  (LoginLogRepository.findAliveLoginLogs s.db).foldl reloadOne s

end UserService

/-- `UpdateStatusById`, with the cache. -/
def AccountServer.updateStatusById (s : AccountServer) (id status : String) :
    Except Error Unit × AccountServer :=
  match if nd.statusDisabled = status then UserService.logoutById s id else .ok s with
  | .error e => (.error e, s)
  | .ok s =>
    match UserRepository.update s.db.toDatabase { id, status } with
    | .error e => (.error e, s)
    | .ok db => (.ok (), { s with db := { s.db with toDatabase := db } })

namespace AccessTokenService

def delAccessToken (s : AccountServer) (userId : String) : AccountServer :=
  let s := match AccessTokenRepository.findByUserId s.db userId with
    | some oldAccessToken =>
      if oldAccessToken.token ≠ "" then UserService.logout s oldAccessToken.token else s
    | none => s
  { s with db := AccessTokenRepository.deleteByUserId s.db userId }

/-- `GenAccessToken`. The cache is not rolled back with the transaction. -/
def genAccessToken (s : AccountServer) (userId id uuid : String) :
    Except Error Unit × AccountServer :=
  let s' := delAccessToken s userId
  let rolledBack : AccountDatabase := { s'.db with accessTokens := s.db.accessTokens }
  match UserRepository.findById s'.db.toDatabase userId with
  | .error e => (.error e, { s' with db := rolledBack })
  | .ok user =>
    let token := "forever-" ++ uuid
    let authorization : Authorization :=
      { token, type := nd.accessToken, remember := false, user }
    let tokens := s'.tokens.set token authorization false
    match s'.db.accessTokens.insert { id, userId, token } with
    | none => (.error .duplicatedKey, { s' with db := rolledBack, tokens })
    | some accessTokens =>
      (.ok (), { db := { s'.db with accessTokens }, tokens, issued := (token, userId) :: s.issued })

/-- The body of the loop of `Reload`. -/
def reloadOne (s : AccountServer) (accessToken : AccessToken) : Except Error AccountServer := do
  let user ← UserRepository.findById s.db.toDatabase accessToken.userId
  let authorization : Authorization :=
    { token := accessToken.token, type := nd.accessToken, remember := false, user }
  pure { s with tokens := s.tokens.set accessToken.token authorization false }

def reload (s : AccountServer) : Except Error AccountServer :=
  s.db.accessTokens.rows.foldlM reloadOne s

end AccessTokenService

/-- `ReloadData`, as far as it fills the cache of tokens, on the empty cache of a new process. -/
def reloadData (s : AccountServer) : Except Error AccountServer :=
  AccessTokenService.reload (UserService.reloadToken { s with tokens := ∅ })

/-! ## The logins -/

/-- The comparisons that libraries make: of a password with its bcrypt hash, of a code with its secret
at a time, and of an IP with a block. -/
structure Verifiers where
  encoderMatch : String → String → Bool
  validate : Nat → String → String → Bool
  contains : String → String → Bool

/-- A web login: `dto.LoginAccount`, the client, what `LoginFailedKeyManager` holds for its key, the
time, and the ids that are drawn for the token and for the log of a failure. -/
structure WebLogin where
  username : String
  password : String
  totp : String := ""
  remember : Bool := false
  realIP : String := ""
  userAgent : String := ""
  failCount : Option Nat := none
  now : Moment
  time : Nat := 0
  token : String
  uuid : String
  deriving Repr

/-- The answer of `LoginEndpoint`. The menus of a success are left out. -/
inductive LoginAnswer
  | fail (code : Int) (message : String)
  | failWithData (code : Int) (message : String) (count : Nat)
  | refused (refusal : Refusal)
  | error (e : Error)
  | success (user : User) (token : String)

namespace AccountApi

section

variable (V : Verifiers)

/-- The log of a failure and the answer with the new count. -/
def failed (s : AccountServer) (l : WebLogin) (message reason : String) :
    LoginAnswer × AccountServer :=
  match UserService.saveLoginLog s.db l.realIP l.userAgent l.username false l.remember "" reason
      l.uuid with
  | .error e => (.error e, s)
  | .ok db => (.failWithData (-1) message (l.failCount.getD 1 + 1), { s with db })

/-- `LoginSuccess` and the log of the success. -/
def loginSuccess (s : AccountServer) (l : WebLogin) (user : User) : LoginAnswer × AccountServer :=
  match LoginPolicyService.check V.contains s.db user.id l.realIP l.now with
  | .error refusal => (.refused refusal, s)
  | .ok () =>
    let authorization : Authorization :=
      { token := l.token, type := nd.loginToken, remember := l.remember, user }
    let tokens := s.tokens.set l.token authorization true
    match UserService.saveLoginLog s.db l.realIP l.userAgent l.username true l.remember l.token ""
        l.uuid with
    | .error e => (.error e, { s with tokens })
    | .ok db =>
      (.success user l.token, { db, tokens, issued := (l.token, user.id) :: s.issued })

/-- `LoginEndpoint` -/
def loginEndpoint (s : AccountServer) (l : WebLogin) : LoginAnswer × AccountServer :=
  if 5 ≤ l.failCount.getD 1 then (.fail (-1) "登录失败次数过多，请等待5分钟后再试", s)
  else if 100 < l.password.utf8ByteSize then (.fail (-1) "您输入的密码过长", s)
  else match UserRepository.findByUsername s.db.toDatabase l.username with
    | .error _ => failed s l "您输入的账号或密码不正确" "账号或密码不正确"
    | .ok user =>
      if user.status = nd.statusDisabled then (.fail (-1) "该账户已停用", s)
      else if !V.encoderMatch user.password l.password then
        failed s l "您输入的账号或密码不正确" "账号或密码不正确"
      else if user.totpSecret ≠ "" ∧ user.totpSecret ≠ "-" then
        if l.totp = "" then (.fail 100 "", s)
        else if !V.validate l.time l.totp user.totpSecret then
          failed s l "您输入双因素认证授权码不正确" "双因素认证授权码不正确"
        else loginSuccess V s l user
      else loginSuccess V s l user

end

end AccountApi

/-- An SSH login: the session, the password, the inputs of the prompts, and the ids of the logs of a
failure and of a success. Without a password the client has authenticated by its key. -/
structure SshLogin where
  sess : Sshd.Session
  pass : Option String
  attempts : List Sshd.Attempt := []
  failedUuid : String
  uuid : String

/-- The authentication of the client, by its password or its key. -/
def SshLogin.authenticate (V : Verifiers) (db : AccountDatabase) (l : SshLogin) :
    Bool × AccountDatabase :=
  match l.pass with
  | some pass => Sshd.passwordAuth V.encoderMatch db l.sess pass l.failedUuid
  | none => (l.sess.publicKey, db)

/-- The session of a client that has authenticated: its user, and the server with the logs. -/
def sshLogin (V : Verifiers) (s : AccountServer) (l : SshLogin) : Option User × AccountServer :=
  match l.authenticate V s.db with
  | (false, db) => (none, { s with db })
  | (true, db) =>
    let (handled, db) := Sshd.sessionHandler V.validate db l.sess l.attempts l.uuid
    (handled.user?, { s with db })

/-! ## The server as a system -/

/-- What happens to the server. A request for one's own access token or a logout comes with a token;
`request` is any other request that passes `Auth` with a token. -/
inductive AccountAction
  | createUser (uuid : Nat → String) (user : User) (encoded : Except Error String)
      (storageCreated : Except Error Unit)
  | updateUser (uuid : Nat → String) (id : String) (user : User)
  | updateStatus (id status : String)
  | webLogin (l : WebLogin)
  | sshLogin (l : SshLogin)
  | request (token : String)
  | logout (token : String)
  | genAccessToken (token id uuid : String)
  | delAccessToken (token : String)
  | deleteLoginLogs (tokens : List String)
  /-- The expiry of a token passes. -/
  | expire (token : String)
  /-- The cache purges what has expired. -/
  | purge
  /-- The process stops, and a new one starts. -/
  | restart

/-- Texts as `utils.UUID` and `utils.LongUUID` draw them. -/
def IsUuid (s : String) : Prop := s ≠ "" ∧ ∀ ch ∈ s.toList, ch ∈ "0123456789abcdef-".toList

instance (s : String) : Decidable (IsUuid s) :=
  @instDecidableAnd _ _ _ (List.decidableBAll _ s.toList)

namespace AccountServer

/-- The ids that an action draws are UUIDs, and no row and no key of the cache has them. -/
def Drawn (s : AccountServer) : AccountAction → Prop
  | .webLogin l =>
    IsUuid l.token ∧ IsUuid l.uuid ∧ (∀ r ∈ s.db.loginLogs, r.id ≠ l.token) ∧
      ∀ i ∈ s.tokens, i.key ≠ l.token
  | .sshLogin l =>
    IsUuid l.failedUuid ∧ (∀ attempt ∈ l.attempts, IsUuid attempt.uuid) ∧ IsUuid l.uuid ∧
      ∀ i ∈ s.tokens, i.key ≠ l.uuid
  | .genAccessToken _ id uuid =>
    (∀ r ∈ s.db.accessTokens, r.id ≠ id ∧ r.token ≠ "forever-" ++ uuid) ∧
      ∀ i ∈ s.tokens, i.key ≠ "forever-" ++ uuid
  | _ => True

instance (s : AccountServer) (a : AccountAction) : Decidable (s.Drawn a) := by
  cases a <;> unfold Drawn <;> infer_instance

/-- The id of the account that a token authenticates (`GetCurrentAccount`). -/
def account (s : AccountServer) (token : String) : Option String :=
  (s.tokens.get token).map fun authorization => authorization.user.id

/-- The server after a write of its tables. -/
def write (s : AccountServer) (f : Database → Except Error Database) : AccountServer :=
  { s with db := { s.db with toDatabase := commit s.db.toDatabase (f s.db.toDatabase) } }

/-- The purge of the cache. -/
def purge (s : AccountServer) : AccountServer :=
  let evicted := ExpiringCache.deleteExpired UserService.onEvicted s.db s.tokens
  { s with db := evicted.1, tokens := evicted.2 }

section

variable (V : Verifiers) (s : AccountServer)

/-- The server after an action; `none` when a start fails. A request with a token that `Auth` does not
accept changes nothing. -/
def act : AccountAction → Option AccountServer
  | .createUser uuid user encoded storageCreated =>
    some (s.write fun db => UserService.createUser db uuid user encoded storageCreated)
  | .updateUser uuid id user => some (s.write fun db => UserService.updateUser db uuid id user)
  | .updateStatus id status => some (s.updateStatusById id status).2
  | .webLogin l => some (AccountApi.loginEndpoint V s l).2
  | .sshLogin l => some (NextDBM.sshLogin V s l).2
  | .request _ => some s
  | .logout token =>
    some (if (s.account token).isSome then UserService.logout s token else s)
  | .genAccessToken token id uuid =>
    match s.account token with
    | some userId => some (AccessTokenService.genAccessToken s userId id uuid).2
    | none => some s
  | .delAccessToken token =>
    match s.account token with
    | some userId => some (AccessTokenService.delAccessToken s userId)
    | none => some s
  | .deleteLoginLogs tokens => some (UserService.deleteLoginLogs s tokens)
  | .expire token => some { s with tokens := s.tokens.expire token }
  | .purge => some s.purge
  | .restart => (reloadData s).toOption

/-- A step draws new ids. -/
def step (a : AccountAction) : Option AccountServer := if s.Drawn a then act V s a else none

/-- The account that an action acts as: that of the login, or that of the token. -/
def actor : AccountAction → Option String
  | .webLogin l =>
    match (AccountApi.loginEndpoint V s l).1 with
    | .success user _ => some user.id
    | _ => none
  | .sshLogin l => (NextDBM.sshLogin V s l).1.map User.id
  | .request token => s.account token
  | .logout token => s.account token
  | .genAccessToken token _ _ => s.account token
  | .delAccessToken token => s.account token
  | _ => none

end

/-- A store before the first login. -/
def init (db : AccountDatabase) : AccountServer :=
  { db := { db with loginLogs := ∅, accessTokens := ∅ } }

abbrev Reaches (V : Verifiers) (ok : AccountServer → AccountAction → Prop) :
    AccountServer → AccountServer → Prop :=
  Transition.Reaches (step V) ok

end AccountServer

/-! ## What a disabled user can do -/

/-- The client has an authorised key, or gives the password of the user of the login name. -/
def SshLogin.Authenticated (V : Verifiers) (db : AccountDatabase) (w : SshLogin) : Prop :=
  match w.pass with
  | some pass => ∃ u, Sshd.FirstNamed db.toDatabase w.sess.user u ∧ V.encoderMatch u.password pass
  | none => w.sess.publicKey = true

/-- An SSH login starts a session of `v`. -/
def SshLogin.Starts (V : Verifiers) (db : AccountDatabase) (w : SshLogin) (v : User) : Prop :=
  w.Authenticated V db ∧ Sshd.FirstNamed db.toDatabase ((Text.split w.sess.user '@').headD "") v ∧
    Sshd.SecondFactor V.validate w.sess w.attempts v

namespace AccountServer

/-- An action does not act as a disabled user. -/
def LockedOut (V : Verifiers) (s : AccountServer) (a : AccountAction) : Prop :=
  ∀ u ∈ s.db.users, u.status = nd.statusDisabled → s.actor V a ≠ some u.id

/-- The actions that lock disabled users out: no rename; no SSH login to a disabled user; no disabling
of a user with an access token; no start while a disabled user has an alive log or an access token. -/
def Locks (V : Verifiers) (s : AccountServer) : AccountAction → Prop
  | .updateUser _ _ _ => False
  | .sshLogin w => ∀ v, w.Starts V s.db v → v.status ≠ nd.statusDisabled
  | .updateStatus id status => status = nd.statusDisabled →
    ∀ i ∈ s.tokens, UserService.isForever i.key = true → i.value.user.id ≠ id
  | .restart => ∀ u ∈ s.db.users, u.status = nd.statusDisabled →
    (∀ l ∈ s.db.loginLogs, LoginLogRepository.isAlive l = true → l.username ≠ u.username) ∧
      ∀ r ∈ s.db.accessTokens, r.userId ≠ u.id
  | _ => True

/-! ## What a restart brings back -/

/-- A start succeeds, and its cache maps the issued tokens that were live to the same users, and no
other key. -/
def RebuildsIssued (s : AccountServer) : Prop :=
  ∃ s', reloadData s = .ok s' ∧ ∀ token id,
    s'.account token = some id ↔ (token, id) ∈ s.issued ∧ s.account token = some id

/-- An update that goes through gives a user another name only when nobody has the name and the user
is not logged in. -/
def RenameSafe (s : AccountServer) (uuid : Nat → String) (id : String) (user : User) : Prop :=
  ∀ db', UserService.updateUser s.db.toDatabase uuid id user = .ok db' →
    ∀ u ∈ s.db.users, u.id = user.id → user.username ≠ "" → user.username ≠ u.username →
      (∀ v ∈ s.db.users, v.username ≠ user.username) ∧
        ∀ l ∈ s.db.loginLogs, LoginLogRepository.isAlive l = true → l.username ≠ u.username

/-- The actions that keep the tokens and their rows together: no SSH session, no rename of a user who
is logged in, no logout of an access token, and no start before expired tokens are purged. -/
def Rebuilds (V : Verifiers) (s : AccountServer) : AccountAction → Prop
  | .sshLogin w => ∀ v, ¬ w.Starts V s.db v
  | .updateUser uuid id user => s.RenameSafe uuid id user
  | .logout token => UserService.isForever token = true → s.account token = none
  | .restart => ∀ i ∈ s.tokens, i.expired = false
  | _ => True

end AccountServer

end NextDBM
