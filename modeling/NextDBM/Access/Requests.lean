import NextDBM.Access.Mutations

/-!
# Requests that write the authorisation tables

Every way in which the server writes `user_groups`, `user_group_members` and `authorised`: the
endpoints for users, user groups, grants and assets, the import of a backup and the migration at
start-up. A request runs to its end before the next one; one that fails leaves the tables as they
were, except where the source has no transaction around its writes (`UserApi.updateEndpoint`, the
migration). What other requests do to the other tables is left open.
-/

namespace NextDBM

/-- The membership rows that the services create for a group. -/
def memberRows (userGroupId : String) (members : List String) : List UserGroupMember :=
  members.map fun member =>
    { id := sign [userGroupId, member], userId := member, userGroupId }

namespace UserGroupService

/-- `Create`, with the new group id. -/
def create (db : Database) (userGroupId name : String) (members : List String) :
    Except Error Database :=
  if UserGroupRepository.existByName db name then .error nd.errNameAlreadyUsed
  else do
    let db ← UserGroupRepository.create db { id := userGroupId, name }
    UserGroupMemberRepository.createAll db (memberRows userGroupId members)

def update (db : Database) (userGroupId name : String) (members : List String) :
    Except Error Database := do
  let dbUserGroup ← UserGroupRepository.findById db userGroupId
  if dbUserGroup.name ≠ name ∧ UserGroupRepository.existByName db name then
    throw nd.errNameAlreadyUsed
  let db ← UserGroupRepository.update db { id := userGroupId, name }
  let db := UserGroupMemberRepository.deleteByUserGroupId db userGroupId
  UserGroupMemberRepository.createAll db (memberRows userGroupId members)

def deleteById (db : Database) (userGroupId : String) : Database :=
  let db := UserGroupRepository.deleteById db userGroupId
  let db := UserGroupMemberRepository.deleteByUserGroupId db userGroupId
  AuthorisedRepository.deleteByUserGroupId db userGroupId

end UserGroupService

namespace UserService

/-- `saveUserRoles`; `uuid i` is the `i`-th identifier that the request draws. -/
def saveUserRoles (db : Database) (uuid : Nat → String) (user : User) : Except Error Database :=
  let refs := user.roles.zipIdx.map fun (role, i) =>
    { id := uuid i, userId := user.id, roleId := role : UserRoleRef }
  match db.userRoleRefs.insertAll refs with
  | some userRoleRefs => .ok { db with userRoleRefs }
  | none => .error .duplicatedKey

/-- `CreateUser`, with the encoded password; `storageCreated` is the outcome of creating the user's
storage. -/
def createUser (db : Database) (uuid : Nat → String) (user : User) (encoded : Except Error String)
    (storageCreated : Except Error Unit) : Except Error Database := do
  if UserRepository.existByUsername db user.username then
    throw (.text ("username " ++ user.username ++ " is already used"))
  let password ← encoded
  let user := { user with password, id := uuid user.roles.length, status := nd.statusEnabled }
  let db ← UserRepository.create db user
  let db ← saveUserRoles db uuid user
  storageCreated
  pure db

/-- `UpdateUser` up to the write of the user row: the row is looked up by the id of the path, but the
role references are written under the id of the body. -/
def updateUserRoles (db : Database) (uuid : Nat → String) (id : String) (user : User) :
    Except Error Database := do
  let dbUser ← UserRepository.findById db id
  if dbUser.username ≠ user.username ∧ UserRepository.existByUsername db user.username then
    throw (.text ("username " ++ user.username ++ " is already used"))
  let db := UserRoleRefRepository.deleteByUserId db user.id
  saveUserRoles db uuid user

/-- `UpdateUser`; the user row is written under the id of the body. -/
def updateUser (db : Database) (uuid : Nat → String) (id : String) (user : User) :
    Except Error Database := do
  let db ← updateUserRoles db uuid id user
  UserRepository.update db user

/-- `UpdateStatusById`. To log the user out, a disabled user has to exist. -/
def updateStatusById (db : Database) (id status : String) : Except Error Database := do
  if nd.statusDisabled = status then
    let _ ← UserRepository.findById db id
  UserRepository.update db { id, status }

/-- The transaction of `ChangeProxyAuth`. -/
def changeProxyAuth (db : Database) (ids : List String) (proxyAuthEncrypt : String) :
    Except Error Database :=
  ids.foldlM (fun db id => UserRepository.update db { id, proxyAuth := proxyAuthEncrypt }) db

/-- `DeleteUserById`; `storageDeleted` is the outcome of deleting the user's storage. -/
def deleteUserById (db : Database) (userId : String) (storageDeleted : Except Error Unit) :
    Except Error Database := do
  let user ← UserRepository.findById db userId
  let db := UserGroupMemberRepository.deleteByUserId db userId
  let db := AuthorisedRepository.deleteByUserId db userId
  storageDeleted
  let db := UserRoleRefRepository.deleteByUserId db user.id
  pure (UserRepository.deleteById db userId)

end UserService

namespace UserApi

/-- The writes of `UpdateEndpoint` after `UpdateUser`: they are in no transaction, and their errors
are ignored. -/
def updateMembership (db : Database) (uuid id userGroupId : String) : Database :=
  let db := UserGroupMemberRepository.deleteByUserId db id
  match UserGroupMemberRepository.create db { id := uuid, userId := id, userGroupId } with
  | .ok db => db
  | .error _ => db

def updateEndpoint (db : Database) (uuid : Nat → String) (id : String) (item : User) : Database :=
  match UserService.updateUser db uuid id item with
  | .ok db => updateMembership db (uuid item.roles.length) id item.userGroupId
  | .error _ => db

end UserApi

namespace AssetService

def deleteById (db : Database) (id : String) : Database :=
  let db := { db with assets := db.assets.deleteWhere fun a => a.id == id }
  let db := { db with assetAttributes := db.assetAttributes.deleteWhere fun a => a.assetId == id }
  AuthorisedRepository.deleteByAssetId db id

end AssetService

namespace BackupService

/-- The loop of `Import` over the user groups: members are translated to the ids of the imported
users (a user that was not imported becomes the empty id), groups whose name is taken are skipped. -/
def importUserGroups (uuid : Nat → String) (userIdMapping : String → String) :
    Database → List UserGroup → Except Error Database
  | db, [] => .ok db
  | db, item :: items =>
    match UserGroupService.create db (uuid items.length) item.name
        (item.members.map userIdMapping) with
    | .ok db => importUserGroups uuid userIdMapping db items
    | .error err =>
      if err = nd.errNameAlreadyUsed then importUserGroups uuid userIdMapping db items
      else .error err

end BackupService

/-- `resourceSharer`: a row of the table that the migration reads. -/
structure ResourceSharer where
  resourceId : String := ""
  resourceType : String := ""
  strategyId : String := ""
  userId : String := ""
  userGroupId : String := ""

namespace MigrateService

def authorisedOf (result : ResourceSharer) : Authorised :=
  { id := sign [result.resourceId, result.userId, result.userGroupId]
    assetId := result.resourceId
    commandFilterId := ""
    strategyId := result.strategyId
    userId := result.userId
    userGroupId := result.userGroupId }

/-- `migrateFormV127to130`; `sharers` is `none` when the old table does not exist. No transaction:
without the default transaction of the mapper, the batches before a failing one stay. -/
def migrateFormV127to130 (db : Database) (localVersion : String)
    (sharers : Option (List ResourceSharer)) (skipDefaultTransaction : Bool) : Database :=
  if ¬ "beta".toList <:+: localVersion.toList ∧ "v1.3.0" < localVersion then db
  else match sharers with
    | none => db
    | some rows =>
      let items := (rows.filter fun r => r.resourceType == "asset").map authorisedOf
      let db := items.foldl (fun db r => AuthorisedRepository.deleteById db r.id) db
      match db.authorised.insertInBatches 100 items with
      | (authorised, true) => { db with authorised }
      | (authorised, false) => if skipDefaultTransaction then { db with authorised } else db

end MigrateService

/-! ## The requests as one transition function -/

/-- A request that writes the authorisation tables, or any other request. -/
inductive Request
  | userGroupCreate (userGroupId name : String) (members : List String)
  | userGroupUpdate (userGroupId name : String) (members : List String)
  | userGroupDelete (userGroupId : String)
  | userGroupUpdateStatus (id status : String)
  | userUpdate (uuid : Nat → String) (id : String) (item : User)
  | userDelete (userId : String) (storageDeleted : Except Error Unit)
  | authorisedAssets (item : AuthorisedAssetItem)
  | authorisedUsers (item : AuthorisedUserItem)
  | authorisedUserGroups (item : AuthorisedUserGroupItem)
  | authorisedDelete (id : String)
  | authorisedWebhookPushStatus (id status : String)
  | assetDelete (id : String)
  | backupImport (uuid : Nat → String) (userIdMapping : String → String) (groups : List UserGroup)
  | migrate (localVersion : String) (sharers : Option (List ResourceSharer))
      (skipDefaultTransaction : Bool)
  /-- A request that writes tables other than the authorisation tables, in any way. -/
  | other (db : Database)

/-- The committed database after a transaction: its result, or the old one after a rollback. -/
def commit (db : Database) : Except Error Database → Database
  | .ok db' => db'
  | .error _ => db

/-- The database after a request. -/
def handle (db : Database) : Request → Database
  | .userGroupCreate userGroupId name members =>
    commit db (UserGroupService.create db userGroupId name members)
  | .userGroupUpdate userGroupId name members =>
    commit db (UserGroupService.update db userGroupId name members)
  | .userGroupDelete userGroupId => UserGroupService.deleteById db userGroupId
  | .userGroupUpdateStatus id status => commit db (UserGroupRepository.update db { id, status })
  | .userUpdate uuid id item => UserApi.updateEndpoint db uuid id item
  | .userDelete userId storageDeleted =>
    commit db (UserService.deleteUserById db userId storageDeleted)
  | .authorisedAssets item => commit db (AuthorisedService.authorisedAssets db item)
  | .authorisedUsers item => commit db (AuthorisedService.authorisedUsers db item)
  | .authorisedUserGroups item => commit db (AuthorisedService.authorisedUserGroups db item)
  | .authorisedDelete id => AuthorisedRepository.deleteById db id
  | .authorisedWebhookPushStatus id status =>
    commit db (AuthorisedService.updateWebhookPushStatusById db id status)
  | .assetDelete id => AssetService.deleteById db id
  | .backupImport uuid userIdMapping groups =>
    commit db (BackupService.importUserGroups uuid userIdMapping db groups)
  | .migrate localVersion sharers skip =>
    MigrateService.migrateFormV127to130 db localVersion sharers skip
  | .other db' =>
    { db' with
      userGroups := db.userGroups
      userGroupMembers := db.userGroupMembers
      authorised := db.authorised }

/-- Every request is enabled in every state. -/
def requestStep (db : Database) (r : Request) : Option Database := some (handle db r)

/-- The database after a list of requests. -/
def handleAll (db : Database) (rs : List Request) : Database := rs.foldl handle db

end NextDBM
