import NextDBM.Assets.Services
import NextDBM.Library.Refresh
import NextDBM.Proxy.Login

/-!
# Reloads of the credential provider

The user pool of the MariaDB proxy is a cache of the query `findAllUsersAssetsProxyAuth`. A mutation
of users, user groups, grants or assets spawns `go proxy.Reload()` at some point of its work: inside
its transaction, after it, or not at all. `program` gives for each mutation the order of its
transactions and of the reloads that it spawns, as the endpoints and services have it.
-/

namespace NextDBM

open Refresh

namespace Reloading

/-- What the body of the loop of `InitAuth` does with a row. -/
def rowEffect (decrypt : String → Except Error String) (auth : UsersAssetsProxyAuth) :
    Effect String String :=
  if auth.proxyAuth = "" then .skip
  else match decrypt auth.proxyAuth with
    | .ok password => .put auth.username password
    | .error _ => .halt

/-- The user pool as a cache; `decrypt` is `utils.Passwder.Decrypt`. -/
def authSource (decrypt : String → Except Error String) :
    Source Database UsersAssetsProxyAuth String String :=
  { rows := fun db => AuthorisedRepository.findAllUsersAssetsProxyAuth db nd.mariaDB
    effect := rowEffect decrypt }

/-- The mutations. -/
inductive Mutation
  | createUser (uuid : Nat → String) (user : User) (encoded : Except Error String)
      (storageCreated : Except Error Unit)
  | updateUser (uuid : Nat → String) (id : String) (item : User)
  | updateUserStatus (id status : String)
  /-- The ids of the request, each with the outcome of deleting the user's storage, and the account
  that makes the request. -/
  | deleteUsers (accountId : String) (users : List (String × Except Error Unit))
  | changeUsersProxyAuth (ids : List String) (proxyAuthEncrypt : String)
  | changeAccountProxyAuth (accountId proxyAuthEncrypt : String)
  | createUserGroup (userGroupId name : String) (members : List String)
  | updateUserGroup (userGroupId name : String) (members : List String)
  | deleteUserGroups (userGroupIds : List String)
  | updateUserGroupStatus (id status : String)
  | authorisedAssets (item : AuthorisedAssetItem)
  | authorisedUsers (item : AuthorisedUserItem)
  | authorisedUserGroups (item : AuthorisedUserGroupItem)
  | deleteAuthorised (id : String)
  | updateWebhookPushStatus (id status : String)
  | createAsset (uuid : String) (m : AssetBody)
  | updateAsset (id : String) (m : AssetBody)
  | deleteAssets (ids : List String)
  | changeAssetOwner (id owner : String)
  /-- The import of a backup, with the number of user groups that it creates. -/
  | importBackup (userGroups : ℕ) (write : Database → Option Database)
  /-- A transaction after which the source spawns no reload: the import of assets, the endpoints of
  `DBMAssetApi`, the removal of the LDAP users, changes of login passwords. -/
  | unreloaded (write : Database → Option Database)

/-- The body of a transaction that spawns a reload before it commits. -/
def attempt (f : Database → Except Error Database) : Instr Database := .check fun db => (f db).isOk

def transaction (f : Database → Except Error Database) : Instr Database :=
  .commit fun db => (f db).toOption

/-- A transaction that spawns a reload as the last thing before it commits. -/
def spawnInside (f : Database → Except Error Database) : List (Instr Database) :=
  [attempt f, .spawn, transaction f]

/-- A transaction, and a reload after it. -/
def spawnAfter (f : Database → Except Error Database) : List (Instr Database) :=
  [transaction f, .spawn]

/-- `UserApi.DeleteEndpoint` stops at the account's own id. -/
def deleteUsersProgram (accountId : String) (users : List (String × Except Error Unit)) :
    List (Instr Database) :=
  (users.takeWhile fun (userId, _) => accountId != userId).flatMap fun (userId, storageDeleted) =>
    spawnInside fun db => UserService.deleteUserById db userId storageDeleted

/-- The transactions and reloads of a mutation, in the order of the source. -/
def program (c : Cipher) : Mutation → List (Instr Database)
  | .createUser uuid user encoded storageCreated =>
    [transaction fun db => UserService.createUser db uuid user encoded storageCreated]
  | .updateUser uuid id item =>
    -- the reload is spawned before the user row is written; the membership is written after the
    -- transaction, in two statements whose errors are ignored
    [attempt fun db => UserService.updateUserRoles db uuid id item,
      .spawn,
      transaction fun db => UserService.updateUser db uuid id item,
      .commit fun db => some (UserGroupMemberRepository.deleteByUserId db id),
      .commit fun db => some (commit db (UserGroupMemberRepository.create db
        { id := uuid item.roles.length, userId := id, userGroupId := item.userGroupId }))]
  | .updateUserStatus id status => spawnAfter fun db => UserService.updateStatusById db id status
  | .deleteUsers accountId users => deleteUsersProgram accountId users
  | .changeUsersProxyAuth ids proxyAuthEncrypt =>
    -- the service spawns a reload inside its transaction, the endpoint another one after it
    spawnInside (fun db => UserService.changeProxyAuth db ids proxyAuthEncrypt) ++ [.spawn]
  | .changeAccountProxyAuth accountId proxyAuthEncrypt =>
    spawnAfter fun db => UserRepository.update db { id := accountId, proxyAuth := proxyAuthEncrypt }
  | .createUserGroup userGroupId name members =>
    spawnInside fun db => UserGroupService.create db userGroupId name members
  | .updateUserGroup userGroupId name members =>
    spawnInside fun db => UserGroupService.update db userGroupId name members
  | .deleteUserGroups userGroupIds =>
    userGroupIds.flatMap fun userGroupId =>
      spawnInside fun db => .ok (UserGroupService.deleteById db userGroupId)
  | .updateUserGroupStatus id status =>
    [transaction fun db => UserGroupRepository.update db { id, status }]
  | .authorisedAssets item => spawnAfter fun db => AuthorisedService.authorisedAssets db item
  | .authorisedUsers item => spawnAfter fun db => AuthorisedService.authorisedUsers db item
  | .authorisedUserGroups item => spawnAfter fun db => AuthorisedService.authorisedUserGroups db item
  | .deleteAuthorised id => spawnAfter fun db => .ok (AuthorisedRepository.deleteById db id)
  | .updateWebhookPushStatus id status =>
    [transaction fun db => AuthorisedService.updateWebhookPushStatusById db id status]
  | .createAsset uuid m => spawnAfter fun db => (AssetService.create c db uuid m).map Prod.fst
  | .updateAsset id m => spawnAfter fun db => AssetService.updateById c db id m
  | .deleteAssets ids =>
    (ids.map fun id => transaction fun db => .ok (AssetService.deleteById db id)) ++ [.spawn]
  | .changeAssetOwner id owner => spawnAfter fun db => AssetRepository.updateById db { owner } id
  | .importBackup userGroups write => List.replicate userGroups .spawn ++ [.commit write]
  | .unreloaded write => [.commit write]

/-- The database, the user pool, and the mutations and reloads in progress. -/
abbrev PoolState : Type := State Database UsersAssetsProxyAuth String String

/-- One step of a mutation or of a reload. -/
def poolStep (c : Cipher) (decrypt : String → Except Error String) :
    PoolState → Action Mutation → Option PoolState :=
  step (authSource decrypt) (program c)

/-- The condition on a step: see `Refresh.Safe`. -/
def PoolSafe (decrypt : String → Except Error String) : PoolState → Action Mutation → Prop :=
  Safe (authSource decrypt)

end Reloading

end NextDBM
