import NextDBM.Accounts.Tokens
import NextDBM.Roles.RoleService

/-!
# References to users

Five tables hold ids of users, without foreign keys: the access tokens, the members of the user
groups, the grants, the roles of the users and the users of the login policies. This file has the
services for users, user groups, login policies and properties that Requests and Tokens leave out, and
the installation as a transition system.
-/

namespace NextDBM

namespace UserRepository

def existById (db : Database) (id : String) : Bool := db.users.rows.any fun u => u.id == id

end UserRepository

namespace UserService

/-- `ChangePassword`, with the encoded password. -/
def changePassword (db : Database) (ids : List String) (passwd : String) : Except Error Database :=
  ids.foldlM (fun db id => do
    let db ← UserRepository.update db { id, password := passwd }
    let _ ← UserRepository.findById db id
    pure db) db

def resetTotp (db : Database) (ids : List String) : Except Error Database :=
  ids.foldlM (fun db id => UserRepository.update db { id, totpSecret := "-" }) db

/-- `DeleteALlLdapUser` -/
def deleteAllLdapUser (db : Database) : Database := UserRepository.deleteBySource db nd.sourceLdap

end UserService

/-- `DeleteUserById`, with the cache: the tokens are logged out after the commit. -/
def AccountServer.deleteUserById (s : AccountServer) (userId : String)
    (storageDeleted : Except Error Unit) : Except Error Unit × AccountServer :=
  match UserRepository.findById s.db.toDatabase userId with
  | .error e => (.error e, s)
  | .ok user =>
    let loginTokens := LoginLogRepository.findAliveLoginLogsByUsername s.db user.username
    match UserService.deleteUserById s.db.toDatabase userId storageDeleted with
    | .error e => (.error e, s)
    | .ok db =>
      (.ok (), loginTokens.foldl (fun s l => UserService.logout s l.id)
        { s with db := { s.db with toDatabase := db } })

/-! ## Properties -/

namespace PropertyRepository

def assign (o p : Property) : Property := { p with value := nonZero o.value p.value }

theorem assign_name (o p : Property) : (assign o p).name = p.name := rfl

def create (db : Database) (o : Property) : Except Error Database :=
  match db.properties.insert o with
  | some properties => .ok { db with properties }
  | none => .error .duplicatedKey

def updateByName (db : Database) (o : Property) (name : String) : Except Error Database :=
  if name = "" then .error .missingWhereClause
  else .ok { db with
    properties := db.properties.updateById name (assign o) (assign_name o) }

end PropertyRepository

namespace PropertyService

/-- The body of the loop of `Update`. -/
def updateOne (db : Database) (item : String × String) : Except Error Database :=
  let (key, text) := item
  let value := if text = "" then "-" else text
  let property : Property := { name := key, value }
  let db := if key = "enable-ldap" ∧ value = "false" then UserService.deleteAllLdapUser db else db
  match db.properties.findById key with
  | none => PropertyRepository.create db property
  | some _ => PropertyRepository.updateByName db property key

/-- `Update`; the items are in the order in which the loop meets them. -/
def update (db : Database) (items : List (String × String)) : Except Error Database :=
  items.foldlM updateOne db

end PropertyService

/-! ## Login policies -/

namespace LoginPolicyRepository

/-- `Updates` of a policy: the columns whose value in `o` is not the zero value. -/
def assign (o p : LoginPolicy) : LoginPolicy :=
  { p with
    name := nonZero o.name p.name
    ipGroup := nonZero o.ipGroup p.ipGroup
    priority := if o.priority = 0 then p.priority else o.priority
    enabled := o.enabled || p.enabled
    rule := nonZero o.rule p.rule }

theorem assign_id (o p : LoginPolicy) : (assign o p).id = p.id := rfl

def create (db : AccountDatabase) (m : LoginPolicy) : Except Error AccountDatabase :=
  match db.loginPolicies.insert m with
  | some loginPolicies => .ok { db with loginPolicies }
  | none => .error .duplicatedKey

/-- A policy without a value to write. -/
def IsBlank (o : LoginPolicy) : Prop :=
  o.name = "" ∧ o.ipGroup = "" ∧ o.priority = 0 ∧ o.enabled = false ∧ o.rule = ""

instance (o : LoginPolicy) : Decidable (IsBlank o) := by unfold IsBlank; infer_instance

/-- `Updates` issues no statement when there is no column to set. -/
def updateById (db : AccountDatabase) (o : LoginPolicy) (id : String) :
    Except Error AccountDatabase :=
  if id = "" ∧ ¬ IsBlank o then .error .missingWhereClause
  else .ok { db with loginPolicies := db.loginPolicies.updateById id (assign o) (assign_id o) }

def deleteById (db : AccountDatabase) (id : String) : AccountDatabase :=
  { db with loginPolicies := db.loginPolicies.deleteWhere fun p => p.id == id }

end LoginPolicyRepository

namespace LoginPolicyUserRefRepository

def createInBatches (db : AccountDatabase) (m : List LoginPolicyUserRef) :
    Except Error AccountDatabase :=
  match db.loginPolicyUserRefs.insertInBatches 100 m with
  | (loginPolicyUserRefs, true) => .ok { db with loginPolicyUserRefs }
  | (_, false) => .error .duplicatedKey

def deleteWhere (db : AccountDatabase) (p : LoginPolicyUserRef → Bool) : AccountDatabase :=
  { db with loginPolicyUserRefs := db.loginPolicyUserRefs.deleteWhere p }

def deleteId (db : AccountDatabase) (id : String) : AccountDatabase :=
  deleteWhere db fun r => r.id == id

def deleteByLoginPolicyId (db : AccountDatabase) (loginPolicyId : String) : AccountDatabase :=
  deleteWhere db fun r => r.loginPolicyId == loginPolicyId

def deleteByLoginPolicyIdAndUserId (db : AccountDatabase) (loginPolicyId userId : String) :
    AccountDatabase :=
  deleteWhere db fun r => r.loginPolicyId == loginPolicyId && r.userId == userId

end LoginPolicyUserRefRepository

namespace TimePeriodRepository

def createInBatches (db : AccountDatabase) (m : List TimePeriod) : Except Error AccountDatabase :=
  match db.timePeriods.insertInBatches 7 m with
  | (timePeriods, true) => .ok { db with timePeriods }
  | (_, false) => .error .duplicatedKey

def deleteByLoginPolicyId (db : AccountDatabase) (loginPolicyId : String) : AccountDatabase :=
  { db with timePeriods := db.timePeriods.deleteWhere fun t => t.loginPolicyId == loginPolicyId }

end TimePeriodRepository

namespace LoginPolicyService

/-- The time periods of a request, with the ids that are drawn for them. -/
def drawTimePeriods (uuid : Nat → String) (loginPolicyId : String) (periods : List TimePeriod) :
    List TimePeriod :=
  periods.zipIdx.map fun (t, i) => { t with id := uuid i, loginPolicyId }

def create (db : AccountDatabase) (m : LoginPolicy) (periods : List TimePeriod)
    (uuid : Nat → String) : Except Error AccountDatabase := do
  let db ← LoginPolicyRepository.create db m
  TimePeriodRepository.createInBatches db (drawTimePeriods uuid m.id periods)

def updateById (db : AccountDatabase) (m : LoginPolicy) (periods : List TimePeriod)
    (uuid : Nat → String) (id : String) : Except Error AccountDatabase := do
  let db ← LoginPolicyRepository.updateById db m id
  let db := TimePeriodRepository.deleteByLoginPolicyId db id
  TimePeriodRepository.createInBatches db (drawTimePeriods uuid id periods)

def deleteByIds (db : AccountDatabase) (ids : List String) : AccountDatabase :=
  ids.foldl (fun db id =>
    let db := LoginPolicyRepository.deleteById db id
    let db := LoginPolicyUserRefRepository.deleteByLoginPolicyId db id
    TimePeriodRepository.deleteByLoginPolicyId db id) db

/-- `Bind`: the ids that name no user are passed over. -/
def bind (db : AccountDatabase) (loginPolicyId : String) (userIds : List String) :
    Except Error AccountDatabase :=
  let userIds := userIds.filter fun id => id != "" && UserRepository.existById db.toDatabase id
  let results := userIds.map fun userId =>
    ({ id := sign [userId, loginPolicyId], userId, loginPolicyId } : LoginPolicyUserRef)
  LoginPolicyUserRefRepository.createInBatches
    (results.foldl (fun db r => LoginPolicyUserRefRepository.deleteId db r.id) db) results

def unbind (db : AccountDatabase) (loginPolicyId : String) (userIds : List String) :
    AccountDatabase :=
  (userIds.filter fun id => id != "").foldl (fun db userId =>
    LoginPolicyUserRefRepository.deleteByLoginPolicyIdAndUserId db loginPolicyId userId) db

end LoginPolicyService

/-! ## The installation as a system -/

/-- The server with the tables and the cache of the roles. -/
structure Installation where
  server : AccountServer
  roles : Relational.Table Role Role.id := ∅
  roleMenuRefs : Relational.Table RoleMenuRef RoleMenuRef.id := ∅
  roleMenus : RoleMenus := fun _ => none

/-- The operations on users, user groups, access tokens, login policies, grants, roles and
properties. -/
inductive InstallationCall
  | createUser (uuid : Nat → String) (user : User) (encoded : Except Error String)
      (storageCreated : Except Error Unit)
  | updateUser (uuid : Nat → String) (id : String) (item : User)
  | updateStatus (id status : String)
  | changePassword (ids : List String) (passwd : String)
  | changeProxyAuth (ids : List String) (proxyAuthEncrypt : String)
  | resetTotp (ids : List String)
  | deleteUser (userId : String) (storageDeleted : Except Error Unit)
  | createUserGroup (userGroupId name : String) (members : List String)
  | updateUserGroup (userGroupId name : String) (members : List String)
  | deleteUserGroup (userGroupId : String)
  | genAccessToken (userId id uuid : String)
  | delAccessToken (userId : String)
  | createLoginPolicy (m : LoginPolicy) (periods : List TimePeriod) (uuid : Nat → String)
  | updateLoginPolicy (m : LoginPolicy) (periods : List TimePeriod) (uuid : Nat → String)
      (id : String)
  | deleteLoginPolicies (ids : List String)
  | bindLoginPolicy (loginPolicyId : String) (userIds : List String)
  | unbindLoginPolicy (loginPolicyId : String) (userIds : List String)
  | authorisedAssets (item : AuthorisedAssetItem)
  | authorisedUsers (item : AuthorisedUserItem)
  | authorisedUserGroups (item : AuthorisedUserGroupItem)
  | deleteAuthorised (id : String)
  | role (call : RoleCall)
  | updateProperties (items : List (String × String))

namespace Installation

/-- The installation after a write of the tables. -/
def write (s : Installation) (f : Database → Except Error Database) : Installation :=
  { s with server := s.server.write f }

/-- The installation after a write of the tables of the accounts. -/
def writeAccounts (s : Installation) (f : AccountDatabase → Except Error AccountDatabase) :
    Installation :=
  { s with server := { s.server with db := orKept s.server.db (f s.server.db) } }

/-- What the role service works on. -/
def roleState (s : Installation) : RoleState where
  db := { roles := s.roles, roleMenuRefs := s.roleMenuRefs, userRoleRefs := s.server.db.userRoleRefs }
  roleMenus := s.roleMenus

def callRoles (s : Installation) (call : RoleCall) : Installation :=
  let r := s.roleState.step call
  { server := { s.server with db := { s.server.db with userRoleRefs := r.db.userRoleRefs } }
    roles := r.db.roles
    roleMenuRefs := r.db.roleMenuRefs
    roleMenus := r.roleMenus }

/-- The installation after a call. -/
def call (s : Installation) : InstallationCall → Installation
  | .createUser uuid user encoded storageCreated =>
    s.write fun db => UserService.createUser db uuid user encoded storageCreated
  | .updateUser uuid id item => s.write fun db => .ok (UserApi.updateEndpoint db uuid id item)
  | .updateStatus id status => { s with server := (s.server.updateStatusById id status).2 }
  | .changePassword ids passwd => s.write fun db => UserService.changePassword db ids passwd
  | .changeProxyAuth ids proxyAuthEncrypt =>
    s.write fun db => UserService.changeProxyAuth db ids proxyAuthEncrypt
  | .resetTotp ids => s.write fun db => UserService.resetTotp db ids
  | .deleteUser userId storageDeleted =>
    { s with server := (s.server.deleteUserById userId storageDeleted).2 }
  | .createUserGroup userGroupId name members =>
    s.write fun db => UserGroupService.create db userGroupId name members
  | .updateUserGroup userGroupId name members =>
    s.write fun db => UserGroupService.update db userGroupId name members
  | .deleteUserGroup userGroupId =>
    s.write fun db => .ok (UserGroupService.deleteById db userGroupId)
  | .genAccessToken userId id uuid =>
    { s with server := (AccessTokenService.genAccessToken s.server userId id uuid).2 }
  | .delAccessToken userId =>
    { s with server := AccessTokenService.delAccessToken s.server userId }
  | .createLoginPolicy m periods uuid =>
    s.writeAccounts fun db => LoginPolicyService.create db m periods uuid
  | .updateLoginPolicy m periods uuid id =>
    s.writeAccounts fun db => LoginPolicyService.updateById db m periods uuid id
  | .deleteLoginPolicies ids => s.writeAccounts fun db => .ok (LoginPolicyService.deleteByIds db ids)
  | .bindLoginPolicy loginPolicyId userIds =>
    s.writeAccounts fun db => LoginPolicyService.bind db loginPolicyId userIds
  | .unbindLoginPolicy loginPolicyId userIds =>
    s.writeAccounts fun db => .ok (LoginPolicyService.unbind db loginPolicyId userIds)
  | .authorisedAssets item => s.write fun db => AuthorisedService.authorisedAssets db item
  | .authorisedUsers item => s.write fun db => AuthorisedService.authorisedUsers db item
  | .authorisedUserGroups item => s.write fun db => AuthorisedService.authorisedUserGroups db item
  | .deleteAuthorised id => s.write fun db => .ok (AuthorisedRepository.deleteById db id)
  | .role call => s.callRoles call
  | .updateProperties items => s.write fun db => PropertyService.update db items

/-- Every call is enabled in every state. -/
def step (s : Installation) (c : InstallationCall) : Option Installation := some (s.call c)

end Installation

/-! ## Integrity -/

/-- There is a user with the id. -/
def Database.HasUser (db : Database) (id : String) : Prop := ∃ u ∈ db.users, u.id = id

/-- A member of a user group, a grant or a role names the user id; a grant to a user group has an empty
one. -/
def Database.Refers (db : Database) (userId : String) : Prop :=
  (∃ m ∈ db.userGroupMembers, m.userId = userId) ∨
    (userId ≠ "" ∧ ∃ r ∈ db.authorised, r.userId = userId) ∨ ∃ r ∈ db.userRoleRefs, r.userId = userId

/-- A user id is stored in one of the five tables. -/
def AccountDatabase.Stores (db : AccountDatabase) (userId : String) : Prop :=
  (∃ r ∈ db.accessTokens, r.userId = userId) ∨
    (∃ r ∈ db.loginPolicyUserRefs, r.userId = userId) ∨ db.Refers userId

/-- Every stored user id names a user. -/
def AccountDatabase.Intact (db : AccountDatabase) : Prop := ∀ id, db.Stores id → db.HasUser id

namespace Installation

/-- Every stored user id names a user, and a start loads the tokens. -/
def Sound (s : Installation) : Prop :=
  s.server.db.Intact ∧ ∃ server, reloadData s.server = .ok server

/-- The calls that keep the references intact: one that goes through adds references to stored users
only, and removes no user who is named by a table that it does not clean. -/
def Keeps (s : Installation) : InstallationCall → Prop
  | .updateUser uuid id item => ∀ db',
    UserService.updateUser s.server.db.toDatabase uuid id item = .ok db' →
      item.roles = [] ∨ s.server.db.HasUser item.id
  | .deleteUser userId storageDeleted => storageDeleted = .ok () →
    (∀ r ∈ s.server.db.accessTokens, r.userId ≠ userId) ∧
      ∀ r ∈ s.server.db.loginPolicyUserRefs, r.userId ≠ userId
  | .createUserGroup userGroupId name members => ∀ db',
    UserGroupService.create s.server.db.toDatabase userGroupId name members = .ok db' →
      ∀ id ∈ members, s.server.db.HasUser id
  | .updateUserGroup userGroupId name members => ∀ db',
    UserGroupService.update s.server.db.toDatabase userGroupId name members = .ok db' →
      ∀ id ∈ members, s.server.db.HasUser id
  | .authorisedAssets item => ∀ db',
    AuthorisedService.authorisedAssets s.server.db.toDatabase item = .ok db' →
      item.assetIds = [] ∨ item.userId = "" ∨ s.server.db.HasUser item.userId
  | .authorisedUsers item => ∀ db',
    AuthorisedService.authorisedUsers s.server.db.toDatabase item = .ok db' →
      ∀ id ∈ item.userIds, id = "" ∨ s.server.db.HasUser id
  | .updateProperties items => ∀ db',
    PropertyService.update s.server.db.toDatabase items = .ok db' →
      ("enable-ldap", "false") ∈ items →
        ∀ u ∈ s.server.db.users, u.source = nd.sourceLdap → ¬ s.server.db.Stores u.id
  | _ => True

abbrev Reaches (ok : Installation → InstallationCall → Prop) :
    Installation → Installation → Prop :=
  Transition.Reaches step ok

end Installation

end NextDBM
