import Mathlib.Data.List.Infix
import NextDBM.Access.Authorised
import NextDBM.Model.Rows

/-!
# Writers of the authorisation tables

The services that write `user_groups`, `user_group_members` and `authorised`. A service that runs in
a transaction returns the committed database or the error it rolls back with. Identifiers that the
code draws with `utils.UUID` are arguments.
-/

namespace NextDBM

namespace UserRepository

def findById (db : Database) (id : String) : Except Error User :=
  firstOrNotFound (db.users.findById id)

def existByUsername (db : Database) (username : String) : Bool :=
  db.users.rows.any fun u => u.username == username

def create (db : Database) (o : User) : Except Error Database :=
  match db.users.insert o with
  | some users => .ok { db with users }
  | none => .error .duplicatedKey

/-- `Updates` of a user: the columns whose value in `o` is not the zero value. -/
def assign (o : User) (u : User) : User :=
  { u with
    username := nonZero o.username u.username
    password := nonZero o.password u.password
    nickname := nonZero o.nickname u.nickname
    totpSecret := nonZero o.totpSecret u.totpSecret
    status := nonZero o.status u.status
    type := nonZero o.type u.type
    mail := nonZero o.mail u.mail
    source := nonZero o.source u.source
    proxyAuth := nonZero o.proxyAuth u.proxyAuth }

@[simp] theorem assign_id (o r : User) : (assign o r).id = r.id := rfl

def update (db : Database) (o : User) : Except Error Database :=
  if o.id = "" then .error .missingWhereClause
  else .ok { db with users := db.users.updateById o.id (assign o) (assign_id o) }

def deleteById (db : Database) (id : String) : Database :=
  { db with users := db.users.deleteWhere fun u => u.id == id }

def deleteBySource (db : Database) (source : String) : Database :=
  { db with users := db.users.deleteWhere fun u => u.source == source }

end UserRepository

namespace UserRoleRefRepository

def deleteByUserId (db : Database) (userId : String) : Database :=
  { db with userRoleRefs := db.userRoleRefs.deleteWhere fun r => r.userId == userId }

end UserRoleRefRepository

namespace UserGroupRepository

def findById (db : Database) (id : String) : Except Error UserGroup :=
  firstOrNotFound (db.userGroups.findById id)

def existByName (db : Database) (name : String) : Bool :=
  db.userGroups.rows.any fun g => g.name == name

/-- `Create`; the column `parent_id` defaults to `'0'`. -/
def create (db : Database) (o : UserGroup) : Except Error Database :=
  match db.userGroups.insert { o with parentId := nonZero o.parentId "0" } with
  | some userGroups => .ok { db with userGroups }
  | none => .error .duplicatedKey

def assign (o : UserGroup) (g : UserGroup) : UserGroup :=
  { g with
    parentId := nonZero o.parentId g.parentId
    ancestors := nonZero o.ancestors g.ancestors
    name := nonZero o.name g.name
    status := nonZero o.status g.status
    source := nonZero o.source g.source }

@[simp] theorem assign_id (o r : UserGroup) : (assign o r).id = r.id := rfl

def update (db : Database) (o : UserGroup) : Except Error Database :=
  if o.id = "" then .error .missingWhereClause
  else .ok { db with userGroups := db.userGroups.updateById o.id (assign o) (assign_id o) }

def deleteById (db : Database) (id : String) : Database :=
  { db with userGroups := db.userGroups.deleteWhere fun g => g.id == id }

end UserGroupRepository

namespace UserGroupMemberRepository

def create (db : Database) (o : UserGroupMember) : Except Error Database :=
  match db.userGroupMembers.insert o with
  | some userGroupMembers => .ok { db with userGroupMembers }
  | none => .error .duplicatedKey

/-- The loop of the services over `Create`, which stops at the first error. -/
def createAll (db : Database) (os : List UserGroupMember) : Except Error Database :=
  match db.userGroupMembers.insertAll os with
  | some userGroupMembers => .ok { db with userGroupMembers }
  | none => .error .duplicatedKey

def deleteByUserId (db : Database) (userId : String) : Database :=
  { db with userGroupMembers := db.userGroupMembers.deleteWhere fun m => m.userId == userId }

def deleteByUserGroupId (db : Database) (userGroupId : String) : Database :=
  { db with userGroupMembers :=
      db.userGroupMembers.deleteWhere fun m => m.userGroupId == userGroupId }

end UserGroupMemberRepository

namespace AuthorisedRepository

/-- `CreateInBatches(m, 100)` inside a transaction. -/
def createInBatches (db : Database) (m : List Authorised) : Except Error Database :=
  match db.authorised.insertInBatches 100 m with
  | (authorised, true) => .ok { db with authorised }
  | (_, false) => .error .duplicatedKey

def deleteWhere (db : Database) (p : Authorised → Bool) : Database :=
  { db with authorised := db.authorised.deleteWhere p }

def deleteById (db : Database) (id : String) : Database := deleteWhere db fun r => r.id == id

def deleteByUserId (db : Database) (userId : String) : Database :=
  deleteWhere db fun r => r.userId == userId

def deleteByUserGroupId (db : Database) (userGroupId : String) : Database :=
  deleteWhere db fun r => r.userGroupId == userGroupId

def deleteByAssetId (db : Database) (assetId : String) : Database :=
  deleteWhere db fun r => r.assetId == assetId

def assign (o : Authorised) (r : Authorised) : Authorised :=
  { r with
    assetId := nonZero o.assetId r.assetId
    commandFilterId := nonZero o.commandFilterId r.commandFilterId
    strategyId := nonZero o.strategyId r.strategyId
    sensitiveCommandGroupId := nonZero o.sensitiveCommandGroupId r.sensitiveCommandGroupId
    userId := nonZero o.userId r.userId
    userGroupId := nonZero o.userGroupId r.userGroupId
    webhookPushStatus := nonZero o.webhookPushStatus r.webhookPushStatus }

@[simp] theorem assign_id (o r : Authorised) : (assign o r).id = r.id := rfl

def update (db : Database) (o : Authorised) : Except Error Database :=
  if o.id = "" then .error .missingWhereClause
  else .ok { db with authorised := db.authorised.updateById o.id (assign o) (assign_id o) }

end AuthorisedRepository

/-! ## Grants -/

/-- `dto.AuthorisedAsset`. -/
structure AuthorisedAssetItem where
  assetIds : List String := []
  commandFilterId : String := ""
  strategyId : String := ""
  sensitiveCommandGroupId : String := ""
  userId : String := ""
  userGroupId : String := ""

/-- `dto.AuthorisedUser`. -/
structure AuthorisedUserItem where
  userIds : List String := []
  commandFilterId : String := ""
  strategyId : String := ""
  sensitiveCommandGroupId : String := ""
  assetId : String := ""

/-- `dto.AuthorisedUserGroup`. -/
structure AuthorisedUserGroupItem where
  userGroupIds : List String := []
  commandFilterId : String := ""
  strategyId : String := ""
  sensitiveCommandGroupId : String := ""
  assetId : String := ""

namespace AuthorisedService

/-- The body shared by the three grant services: delete the rows with the ids of the new rows, one
by one, then create the new rows. -/
def replaceInBatches (db : Database) (items : List Authorised) : Except Error Database :=
  AuthorisedRepository.createInBatches
    (items.foldl (fun db r => AuthorisedRepository.deleteById db r.id) db) items

def authorisedAssets (db : Database) (item : AuthorisedAssetItem) : Except Error Database :=
  replaceInBatches db <| item.assetIds.map fun assetId =>
    { id := sign [assetId, item.userId, item.userGroupId]
      assetId
      commandFilterId := item.commandFilterId
      strategyId := item.strategyId
      userId := item.userId
      userGroupId := item.userGroupId
      sensitiveCommandGroupId := item.sensitiveCommandGroupId }

def authorisedUsers (db : Database) (item : AuthorisedUserItem) : Except Error Database :=
  replaceInBatches db <| item.userIds.map fun userId =>
    { id := sign [item.assetId, userId, ""]
      assetId := item.assetId
      commandFilterId := item.commandFilterId
      strategyId := item.strategyId
      userId
      userGroupId := ""
      sensitiveCommandGroupId := item.sensitiveCommandGroupId }

def authorisedUserGroups (db : Database) (item : AuthorisedUserGroupItem) :
    Except Error Database :=
  replaceInBatches db <| item.userGroupIds.map fun userGroupId =>
    { id := sign [item.assetId, "", userGroupId]
      assetId := item.assetId
      commandFilterId := item.commandFilterId
      strategyId := item.strategyId
      userId := ""
      userGroupId
      sensitiveCommandGroupId := item.sensitiveCommandGroupId }

def updateWebhookPushStatusById (db : Database) (id status : String) : Except Error Database :=
  AuthorisedRepository.update db { id, webhookPushStatus := status }

end AuthorisedService

end NextDBM
