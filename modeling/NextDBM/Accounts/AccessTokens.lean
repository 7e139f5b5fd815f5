import NextDBM.Accounts.References
import NextDBM.Library.Transactions

/-!
# Access tokens and failing statements

The services of Tokens and References that concern access tokens, statement by statement: the database
may fail at each of them and at the commit. The cache is written in between and is not rolled back.
-/

namespace NextDBM

open Transaction

abbrev TokenWork (α : Type) : Type := Work AccountDatabase TokenManager Error α

namespace AccessTokens

/-- A write of the tables that Tokens has in common with the rest of the server. -/
def lift (f : Database → Except Error Database) (db : AccountDatabase) :
    Except Error (Unit × AccountDatabase) :=
  (f db.toDatabase).map fun database => ((), { db with toDatabase := database })

def findUser (id : String) (db : AccountDatabase) : Except Error (User × AccountDatabase) :=
  (UserRepository.findById db.toDatabase id).map fun user => (user, db)

/-- `LogoutByToken` -/
def logoutByToken (token : String) : TokenWork Unit := do
  let _ ← .statement databaseFault fun db =>
    (LoginLogRepository.findById db token).map fun loginLog => (loginLog, db)
  .statement databaseFault fun db =>
    (LoginLogRepository.updateLogoutTime db token).map fun db => ((), db)

/-- `OnEvicted`, which only logs the errors. -/
def onEvicted (token : String) : TokenWork Unit :=
  if UserService.isForever token then pure () else .ignore (logoutByToken token)

/-- `TokenManager.Delete`, with the callback for a token that is there. -/
def logout (token : String) : TokenWork Unit := fun w =>
  (if (w.memory.findById token).isSome then onEvicted token else pure ())
    { w with memory := w.memory.remove token }

/-- The eviction of the token that `DelAccessToken` has found. -/
def evict : Option AccessToken → TokenWork Unit
  | some oldAccessToken =>
    if oldAccessToken.token ≠ "" then logout oldAccessToken.token else pure ()
  | none => pure ()

def delAccessToken (userId : String) : TokenWork Unit := do
  let oldAccessToken ← .statement databaseFault fun db =>
    .ok (AccessTokenRepository.findByUserId db userId, db)
  evict oldAccessToken
  .statement databaseFault fun db => .ok ((), AccessTokenRepository.deleteByUserId db userId)

def createAccessToken (o : AccessToken) (db : AccountDatabase) :
    Except Error (Unit × AccountDatabase) :=
  match db.accessTokens.insert o with
  | some accessTokens => .ok ((), { db with accessTokens })
  | none => .error .duplicatedKey

def authorization (token : String) (user : User) : Authorization :=
  { token, type := nd.accessToken, remember := false, user }

/-- The second half of `GenAccessToken`, with the ids that it draws. -/
def storeAccessToken (userId id uuid : String) : TokenWork Unit := do
  let user ← .statement databaseFault (findUser userId)
  let token := "forever-" ++ uuid
  .touch fun tokens => tokens.set token (authorization token user) false
  .statement databaseFault (createAccessToken { id, userId, token })

def genAccessToken (userId id uuid : String) : TokenWork Unit :=
  .transaction databaseFault do
    delAccessToken userId
    storeAccessToken userId id uuid

/-- `UpdateUser`; wherever its transaction fails, it leaves the tables as they were. -/
def updateUser (uuid : Nat → String) (id : String) (user : User) : TokenWork Unit :=
  .transaction databaseFault <|
    .statement databaseFault (lift fun db => UserService.updateUser db uuid id user)

/-- `DeleteUserById` -/
def deleteUserById (userId : String) (storageDeleted : Except Error Unit) : TokenWork Unit := do
  let user ← .statement databaseFault (findUser userId)
  let loginTokens ← .statement databaseFault fun db =>
    .ok (LoginLogRepository.findAliveLoginLogsByUsername db user.username, db)
  .transaction databaseFault <|
    .statement databaseFault (lift fun db => UserService.deleteUserById db userId storageDeleted)
  .each (fun loginLog => logout loginLog.id) loginTokens

/-- The body of the loop of `Reload`. -/
def reloadOne (accessToken : AccessToken) : TokenWork Unit := do
  let user ← .statement databaseFault (findUser accessToken.userId)
  .touch fun tokens =>
    tokens.set accessToken.token (authorization accessToken.token user) false

def reload : TokenWork Unit := do
  let accessTokens ← .statement databaseFault fun db => .ok (db.accessTokens.rows, db)
  .each reloadOne accessTokens

end AccessTokens

/-! ## The store as a system -/

structure TokenStore where
  db : AccountDatabase
  tokens : TokenManager := ∅

/-- A call, with the number of statements that the database serves. -/
inductive TokenCall
  | genAccessToken (userId id uuid : String) (served : Option Nat)
  | delAccessToken (userId : String) (served : Option Nat)
  | updateUser (uuid : Nat → String) (id : String) (user : User) (served : Option Nat)
  | deleteUserById (userId : String) (storageDeleted : Except Error Unit) (served : Option Nat)
  /-- The server starts anew; a start that fails ends the process. -/
  | start (served : Option Nat)

namespace TokenStore

def run (s : TokenStore) (served : Option Nat) (x : TokenWork Unit) : TokenStore :=
  let (_, w) := x ⟨s.db, s.tokens, served⟩
  ⟨w.db, w.memory⟩

/-- The id and the token that a call draws are new. -/
def New (s : TokenStore) (id uuid : String) : Prop :=
  (∀ r ∈ s.db.accessTokens, r.id ≠ id ∧ r.token ≠ "forever-" ++ uuid) ∧
    ∀ i ∈ s.tokens, i.key ≠ "forever-" ++ uuid

instance (s : TokenStore) (id uuid : String) : Decidable (s.New id uuid) :=
  inferInstanceAs (Decidable (_ ∧ _))

/-- The store after a start. -/
def start (s : TokenStore) (served : Option Nat) : Option TokenStore :=
  match AccessTokens.reload ⟨s.db, ∅, served⟩ with
  | (.ok (), w) => some ⟨w.db, w.memory⟩
  | (.error _, _) => none

def step (s : TokenStore) : TokenCall → Option TokenStore
  | .genAccessToken userId id uuid served =>
    if s.New id uuid then some (s.run served (AccessTokens.genAccessToken userId id uuid)) else none
  | .delAccessToken userId served => some (s.run served (AccessTokens.delAccessToken userId))
  | .updateUser uuid id user served => some (s.run served (AccessTokens.updateUser uuid id user))
  | .deleteUserById userId storageDeleted served =>
    some (s.run served (AccessTokens.deleteUserById userId storageDeleted))
  | .start served => s.start served

/-- A store without access tokens; the ids of login logs are UUIDs. -/
structure Initial (s : TokenStore) : Prop where
  accessTokens : s.db.accessTokens.rows = []
  tokens : s.tokens.rows = []
  loginLogs : ∀ l ∈ s.db.loginLogs, IsUuid l.id

/-- The live access tokens are the stored ones, each bound to the user of its row. -/
structure Agrees (s : TokenStore) : Prop where
  live : ∀ token authorization, UserService.isForever token = true →
    s.tokens.get token = some authorization →
      ∃ r ∈ s.db.accessTokens, r.token = token ∧ r.userId = authorization.user.id
  stored : ∀ r ∈ s.db.accessTokens, ∃ authorization,
    s.tokens.get r.token = some authorization ∧ authorization.user.id = r.userId
  users : ∀ r ∈ s.db.accessTokens, s.db.HasUser r.userId

def HasToken (s : TokenStore) (userId : String) : Prop := ∃ r ∈ s.db.accessTokens, r.userId = userId

/-- The condition: a call that evicts or sets a token goes through, and a user who is deleted has no
token. -/
def KeepsTokens (s : TokenStore) : TokenCall → Prop
  | .genAccessToken userId _ _ served =>
    ¬ Serves served 1 ∨ (Serves served 5 ∧ s.db.HasUser userId) ∨
      (¬ s.HasToken userId ∧ (¬ Serves served 3 ∨ ¬ s.db.HasUser userId))
  | .delAccessToken userId served => ¬ Serves served 1 ∨ Serves served 2 ∨ ¬ s.HasToken userId
  | .deleteUserById userId storageDeleted served =>
    ¬ Serves served 4 ∨ storageDeleted ≠ .ok () ∨ ¬ s.HasToken userId
  | _ => True

instance (db : Database) (id : String) : Decidable (db.HasUser id) :=
  inferInstanceAs (Decidable (∃ u ∈ db.users.rows, u.id = id))

instance (s : TokenStore) (userId : String) : Decidable (s.HasToken userId) :=
  inferInstanceAs (Decidable (∃ r ∈ s.db.accessTokens.rows, r.userId = userId))

instance (s : TokenStore) : (c : TokenCall) → Decidable (s.KeepsTokens c)
  | .genAccessToken userId _ _ served => inferInstanceAs
    (Decidable (¬ Serves served 1 ∨ (Serves served 5 ∧ s.db.HasUser userId) ∨
      (¬ s.HasToken userId ∧ (¬ Serves served 3 ∨ ¬ s.db.HasUser userId))))
  | .delAccessToken userId served => inferInstanceAs
    (Decidable (¬ Serves served 1 ∨ Serves served 2 ∨ ¬ s.HasToken userId))
  | .deleteUserById userId storageDeleted served => inferInstanceAs
    (Decidable (¬ Serves served 4 ∨ storageDeleted ≠ .ok () ∨ ¬ s.HasToken userId))
  | .updateUser _ _ _ _ | .start _ => inferInstanceAs (Decidable True)

end TokenStore

end NextDBM
