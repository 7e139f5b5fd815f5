import NextDBM.Library.Text
import NextDBM.Model.Rows

/-!
# Logins of the SSH server

`passwordAuth` verifies the password for the whole login name, and `sessionHandler` starts the
session of the user that it finds for the part before the first `@`. Passwords are compared by bcrypt
and codes by the time-based algorithm of a library: both comparisons are parameters.
-/

namespace NextDBM

namespace UserService

/-- `SaveLoginLog`; `uuid` is the id that is drawn for a failure. -/
def saveLoginLog (db : AccountDatabase) (clientIP clientUserAgent username : String)
    (success remember : Bool) (id reason uuid : String) : Except Error AccountDatabase :=
  let loginLog : LoginLog :=
    { id := if success then id else uuid
      state := if success then "1" else "0"
      username, clientIP, clientUserAgent, reason, remember }
  match db.loginLogs.insert loginLog with
  | some loginLogs => .ok { db with loginLogs }
  | none => .error .duplicatedKey

end UserService

/-- The database after a call whose error the caller ignores. -/
def orKept {D : Type} (db : D) : Except Error D → D
  | .ok db' => db'
  | .error _ => db

namespace Sshd

/-- What the server knows of a connection: the login name, the remote address, and, when the client
has offered a key that is authorised, the comment of that key. -/
structure Session where
  user : String
  remoteAddr : String
  publicKey : Bool := false
  publicKeyComment : Option String := none
  deriving DecidableEq, Repr

def Session.remoteIP (sess : Session) : String := (Text.split sess.remoteAddr ':').headD ""

/-- One turn of the loop of `totpUI`. -/
structure Attempt where
  /-- The text that the prompt returns, at least six bytes long; without one the prompt failed. -/
  input : Option { code : String // 6 ≤ code.utf8ByteSize }
  /-- What `LoginFailedKeyManager` holds for the address and the name at that moment. -/
  failCount : Option Nat
  /-- The time that `Validate` reads. -/
  now : Nat
  /-- The id of the login log of a wrong code. -/
  uuid : String

section

variable (encoderMatch : String → String → Bool) (validate : Nat → String → String → Bool)

/-- `passwordAuth`: the decision, and the database with the log of a failure. -/
def passwordAuth (db : AccountDatabase) (sess : Session) (pass uuid : String) :
    Bool × AccountDatabase :=
  let failed := orKept db <| UserService.saveLoginLog db sess.remoteIP "terminal" sess.user
    false false "" "账号或密码不正确" uuid
  match UserRepository.findByUsername db.toDatabase sess.user with
  | .error _ => (false, failed)
  | .ok user => if encoderMatch user.password pass then (true, db) else (false, failed)

/-- The loop of `totpUI`, with the number of turns left: whether a code was accepted, and the
database with the logs of the wrong codes. A list that is used up stands for a client that gives no
further input. -/
def totpLoop (user : User) (remoteAddr username : String) (db : AccountDatabase) :
    Nat → List Attempt → Bool × AccountDatabase
  | 0, _ => (false, db)
  | _ + 1, [] => (false, db)
  | i + 1, attempt :: attempts =>
    match attempt.input with
    | none => (false, db)
    | some result =>
      if 5 ≤ attempt.failCount.getD 1 then totpLoop user remoteAddr username db i attempts
      else if validate attempt.now result user.totpSecret then (true, db)
      else
        totpLoop user remoteAddr username
          (orKept db <| UserService.saveLoginLog db remoteAddr "terminal" username false false ""
            "双因素认证授权码不正确" attempt.uuid) i attempts

/-- What a session ends in: a message, or the menu of a user, who may have named an asset. -/
inductive Handled
  | closed (message : String)
  | mainUI (user : User) (publicKeyAsset : Option String)
  deriving DecidableEq, Repr

/-- `totpUI`; `uuid` is the id of the log of a success. -/
def totpUI (db : AccountDatabase) (user : User) (remoteAddr username : String)
    (publicKeyAsset : Option String) (attempts : List Attempt) (uuid : String) :
    Handled × AccountDatabase :=
  match totpLoop validate user remoteAddr username db 5 attempts with
  | (false, db) => (.closed "", db)
  | (true, db) =>
    (.mainUI user publicKeyAsset,
      orKept db <| UserService.saveLoginLog db remoteAddr "terminal" username true false uuid "" "")

/-- `sessionHandler`; `uuid` is the id of the log of a success. -/
def sessionHandler (db : AccountDatabase) (sess : Session) (attempts : List Attempt)
    (uuid : String) : Handled × AccountDatabase :=
  let rawReq := Text.split sess.user '@'
  let username := rawReq.headD ""
  let publicKeyAsset := if rawReq.length = 2 then rawReq[1]? else none
  match UserRepository.findByUsername db.toDatabase username with
  | .error _ => (.closed "您输入的账户或密码不正确.\n", db)
  | .ok user =>
    if sess.publicKey && sess.publicKeyComment.isNone then (.closed "", db)
    else if sess.publicKey && sess.publicKeyComment != some user.username then
      (.closed "您输入的账户或密码不正确.\n", db)
    else if user.totpSecret != "" && user.totpSecret != "-" && !sess.publicKey then
      totpUI validate db user sess.remoteIP username publicKeyAsset attempts uuid
    else
      (.mainUI user publicKeyAsset,
        orKept db <| UserService.saveLoginLog db sess.remoteIP "terminal" username true false uuid
          "" "")

end

/-! ## Who logs in -/

/-- The user whose session is started. -/
def Handled.user? : Handled → Option User
  | closed _ => none
  | mainUI user _ => some user

section

variable (encoderMatch : String → String → Bool) (validate : Nat → String → String → Bool)

/-- The user whose password `passwordAuth` verifies. -/
def verifiedUser (db : AccountDatabase) (sess : Session) (pass uuid : String) : Option User :=
  if (passwordAuth encoderMatch db sess pass uuid).1 then
    (UserRepository.findByUsername db.toDatabase sess.user).toOption
  else none

/-- The user whose session `sessionHandler` starts. -/
def startedUser (db : AccountDatabase) (sess : Session) (attempts : List Attempt) (uuid : String) :
    Option User :=
  (sessionHandler validate db sess attempts uuid).1.user?

/-- The session is that of the user whose password was verified. -/
def OneIdentity (db : AccountDatabase) (sess : Session) (pass : String) (attempts : List Attempt)
    (uuid : String) : Prop :=
  ∀ u v, verifiedUser encoderMatch db sess pass uuid = some u →
    startedUser validate db sess attempts uuid = some v → u = v

/-- One of the first `n` inputs is an accepted code: no prompt failed up to it, and fewer than five
failures are counted when it is given. -/
def CodeAccepted (secret : String) (n : Nat) (attempts : List Attempt) : Prop :=
  ∃ i < n, ∃ attempt, attempts[i]? = some attempt ∧
    (∃ code, attempt.input = some code ∧ validate attempt.now code secret) ∧
    attempt.failCount.getD 1 < 5 ∧
    ∀ j < i, ∀ earlier, attempts[j]? = some earlier → earlier.input.isSome

/-- What the session handler asks of a user beyond the password: the user is named by the comment of
the key that was offered, or else gives a code when a secret is set. -/
def SecondFactor (sess : Session) (attempts : List Attempt) (user : User) : Prop :=
  if sess.publicKey then sess.publicKeyComment = some user.username
  else user.totpSecret = "" ∨ user.totpSecret = "-" ∨
    CodeAccepted validate user.totpSecret 5 attempts

/-- The user that a lookup by name gives. -/
def FirstNamed (db : Database) (username : String) (u : User) : Prop :=
  u ∈ db.users ∧ u.username = username ∧ ∀ u' ∈ db.users, u'.username = username → u.id ≤ u'.id

/-- The login name has an `@`, it is the name of a user with the presented password, and the part
before the first `@` is the name of a user who gets past the second factor. -/
def TwoReadings (db : AccountDatabase) (sess : Session) (pass : String)
    (attempts : List Attempt) : Prop :=
  '@' ∈ sess.user.toList ∧
    (∃ u, FirstNamed db.toDatabase sess.user u ∧ encoderMatch u.password pass) ∧
    ∃ v, FirstNamed db.toDatabase ((Text.split sess.user '@').headD "") v ∧
      SecondFactor validate sess attempts v

end

end Sshd

end NextDBM
