import NextDBM.Accounts.References
import NextDBM.Backups.Backup

/-!
# Passwords

The writers of the column `password` of the users. The hashes are made and compared by a library,
`utils.Encoder`; the first user, the users of an import and the reset from the command line have
passwords that the server chooses.
-/

namespace NextDBM

/-- `utils.Encoder`; the number stands for the salt that `Encode` draws. -/
structure Encoder where
  encode : Nat → String → Except Error String
  isMatch : String → String → Bool

namespace Encoder

/-- A hash is the output of `Encode` on the password, and `Match` accepts that password alone. -/
def Encodes (E : Encoder) (hash password : String) : Prop :=
  (∃ salt, E.encode salt password = .ok hash) ∧ ∀ q, E.isMatch hash q = true ↔ q = password

/-- What the library documents: a hash is not empty, and it matches the password that it was made
from. -/
structure Sound (E : Encoder) : Prop where
  ne_empty : ∀ salt password hash, E.encode salt password = .ok hash → hash ≠ ""
  isMatch_iff : ∀ salt password hash, E.encode salt password = .ok hash →
    ∀ q, E.isMatch hash q = true ↔ q = password

end Encoder

/-- `SuperAdminID` -/
def superAdminId : String := "abcdefghijklmnopqrstuvwxyz"

namespace RoleService

def getRolesByUserId (db : Database) (userId : String) : List String :=
  (db.userRoleRefs.select fun r => r.userId == userId).map UserRoleRef.roleId

end RoleService

section

variable (E : Encoder)

namespace UserService

/-- The body of the loop of `InitUser` over the stored users. -/
def fixUser (db : Database) (uuid : String) (u : User) : Except Error Database :=
  let typed :=
    if u.type = "" then UserRepository.update db { type := nd.typeUser, id := u.id } else .ok db
  typed >>= fun db =>
    if u.type = nd.typeAdmin ∧ RoleService.getRolesByUserId db u.id = [] then
      saveUserRoles db (fun _ => uuid) { u with roles := ["system-administrator"] }
    else .ok db

/-- The loop of `InitUser`, in no transaction: it stops at the first error, and what was done
stays. -/
def fixUsers (uuid : Nat → String) : Database → List User → Database
  | db, [] => db
  | db, u :: us =>
    match fixUser db (uuid us.length) u with
    | .ok db => fixUsers uuid db us
    | .error _ => db

/-- The first user. -/
def initialUser (pass : String) : User :=
  { id := superAdminId, username := "admin", password := pass, nickname := "超级管理员"
    type := nd.typeAdmin, status := nd.statusEnabled, userGroupId := "1" }

/-- `InitUser` -/
def initUser (db : Database) (salt : Nat) (uuid : Nat → String) : Database :=
  if db.users.rows = [] then
    match E.encode salt "admin" with
    | .ok pass => commit db (UserRepository.create db (initialUser pass))
    | .error _ => db
  else fixUsers uuid db db.users.rows

end UserService

namespace UserApi

/-- `CreateEndpoint` -/
def createEndpoint (db : Database) (salt : Nat) (uuid : Nat → String) (item : User)
    (storageCreated : Except Error Unit) : Except Error Database :=
  if 100 < item.password.utf8ByteSize then .error (.text "您输入的密码过长")
  else UserService.createUser db uuid item (E.encode salt item.password) storageCreated

/-- `ChangePasswordEndpoint`, the change by an administrator. -/
def changePasswordEndpoint (db : Database) (salt : Nat) (id password : String) :
    Except Error Database :=
  if password = "" then .error (.text "请输入密码")
  else do
    let passwd ← E.encode salt password
    UserService.changePassword db (Text.split id ',') passwd

end UserApi

namespace AccountApi

/-- `ChangePasswordEndpoint`, the change by the user, up to the logout; the account is that of the
token, as it was cached. -/
def changePasswordEndpoint (demo : Bool) (db : Database) (salt : Nat) (account : User)
    (oldPassword newPassword : String) : Except Error Database :=
  if demo then .error (.text "演示模式禁止修改密码")
  else if 100 < newPassword.utf8ByteSize then .error (.text "您输入的密码过长")
  else if !E.isMatch account.password oldPassword then .error (.text "您输入的原密码不正确")
  else do
    let passwd ← E.encode salt newPassword
    UserRepository.update db { password := passwd, id := account.id }

end AccountApi

namespace Cli

/-- `ResetPassword` -/
def resetPassword (db : Database) (salt : Nat) (username : String) : Except Error Database := do
  let user ← UserRepository.findByUsername db username
  let passwd ← E.encode salt "next-dbm"
  UserRepository.update db { password := passwd, id := user.id }

end Cli

end

/-! ## The store as a system -/

/-- The store, and a history variable: the password last set for the user with an id. -/
structure PasswordStore where
  db : BackupDatabase := {}
  passwords : String → String := fun _ => ""

/-- The operations that write passwords. -/
inductive PasswordCall
  | initUser (salt : Nat) (uuid : Nat → String)
  | createUser (salt : Nat) (uuid : Nat → String) (item : User)
      (storageCreated : Except Error Unit)
  | updateUser (uuid : Nat → String) (id : String) (item : User)
  | changePassword (salt : Nat) (id password : String)
  | changeOwnPassword (salt : Nat) (account : User) (oldPassword newPassword : String)
  | resetPassword (salt : Nat) (username : String)
  | importBackup (addJob : Job → Except Error Int) (uuid : BackupService.Draws) (backup : Backup)

namespace PasswordStore

/-- The passwords after some have been set. -/
def setPasswords (passwords : String → String) (sets : List (String × String)) (id : String) :
    String :=
  (sets.lookup id).getD (passwords id)

/-- The store after a write that sets passwords, if it goes through. -/
def write (s : PasswordStore) (sets : List (String × String)) (r : Except Error Database) :
    PasswordStore :=
  match r with
  | .ok db => { db := { s.db with toDatabase := db }, passwords := setPasswords s.passwords sets }
  | .error _ => s

/-- The users that an import adds to a store with these names. -/
def addedUsers : List String → List User → List User
  | _, [] => []
  | names, item :: items =>
    if item.username ∈ names then addedUsers names items
    else item :: addedUsers (item.username :: names) items

/-- The store after an import, if it goes through. -/
def writeImport (s : PasswordStore) (uuid : BackupService.Draws) (backup : Backup)
    (r : Except Error BackupDatabase) : PasswordStore :=
  match r with
  | .ok db =>
    { db
      passwords := setPasswords s.passwords <|
        (addedUsers (s.db.users.rows.map User.username) backup.users).map fun item =>
          (uuid.user item.id, uuid.password item.id) }
  | .error _ => s

section

variable (E : Encoder) (c : Cipher) (demo : Bool)

/-- The store after a call. -/
def call (s : PasswordStore) : PasswordCall → PasswordStore
  | .initUser salt uuid =>
    s.write (if s.db.users.rows = [] then [(superAdminId, "admin")] else [])
      (.ok (UserService.initUser E s.db.toDatabase salt uuid))
  | .createUser salt uuid item storageCreated =>
    s.write [(uuid item.roles.length, item.password)]
      (UserApi.createEndpoint E s.db.toDatabase salt uuid item storageCreated)
  | .updateUser uuid id item =>
    s.write (if item.password = "" then [] else [(item.id, item.password)])
      (UserService.updateUser s.db.toDatabase uuid id item)
  | .changePassword salt id password =>
    s.write ((Text.split id ',').map fun id => (id, password))
      (UserApi.changePasswordEndpoint E s.db.toDatabase salt id password)
  | .changeOwnPassword salt account oldPassword newPassword =>
    s.write [(account.id, newPassword)]
      (AccountApi.changePasswordEndpoint E demo s.db.toDatabase salt account oldPassword newPassword)
  | .resetPassword salt username =>
    s.write [((okOrZero (UserRepository.findByUsername s.db.toDatabase username)).id, "next-dbm")]
      (Cli.resetPassword E s.db.toDatabase salt username)
  | .importBackup addJob uuid backup =>
    s.writeImport uuid backup (BackupService.importBackup c addJob uuid s.db backup)

/-- Every call is enabled in every state. -/
def step (s : PasswordStore) (a : PasswordCall) : Option PasswordStore :=
  some (s.call E c demo a)

/-- Every stored password is a hash of the password last set for its user. -/
def Encoded (s : PasswordStore) : Prop :=
  ∀ u ∈ s.db.users, E.Encodes u.password (s.passwords u.id)

/-- The calls that store no plain password: an update that goes through has no password for a stored
user, and an import that goes through has no user with a free name. -/
def KeepsEncoded (s : PasswordStore) : PasswordCall → Prop
  | .updateUser uuid id item => ∀ db',
    UserService.updateUser s.db.toDatabase uuid id item = .ok db' →
      item.password = "" ∨ ¬ s.db.HasUser item.id
  | .importBackup addJob uuid backup => ∀ db',
    BackupService.importBackup c addJob uuid s.db backup = .ok db' →
      ∀ item ∈ backup.users, UserRepository.existByUsername s.db.toDatabase item.username = true
  | _ => True

end

end PasswordStore

end NextDBM
