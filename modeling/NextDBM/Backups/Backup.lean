import Mathlib.Data.List.AList
import NextDBM.Accounts.Tokens
import NextDBM.Assets.Services
import NextDBM.Gate.Manager
import NextDBM.Library.Copies

/-!
# Backups

`Export` reads the tables into one document, with the secrets decrypted; `Import` adds the rows of a
document to a store in one transaction. Nearly every row gets a new id, and a map from old ids to new
ones translates the columns that refer to it. The rules in memory, which an import patches too, are
in `Gate/Manager`; times are left out.
-/

namespace NextDBM

open Relational

/-! ## The other tables of a backup -/

/-- `model.Command`. -/
structure Command where
  id : String := ""
  name : String := ""
  content : String := ""
  owner : String := ""
  deriving DecidableEq, Repr

/-- `model.Job`. -/
structure Job where
  id : String := ""
  cronJobId : Int := 0
  name : String := ""
  func : String := ""
  cron : String := ""
  mode : String := ""
  resourceIds : String := ""
  status : String := ""
  metadata : String := ""
  deriving DecidableEq, Repr

/-- `model.Sqls`: a saved query. -/
structure Sqls where
  id : String := ""
  name : String := ""
  content : String := ""
  owner : String := ""
  dbAssetId : String := ""
  dbName : String := ""
  deriving DecidableEq, Repr

/-- `model.Translations`. -/
structure Translations where
  id : String := ""
  langCode : String := ""
  translationKey : String := ""
  translationValue : String := ""
  deriving DecidableEq, Repr

/-- The tables that an export reads and an import writes. -/
structure BackupDatabase extends Database where
  storages : Table Storage Storage.id := ∅
  accessSecurities : AccessRules := ∅
  commands : Table Command Command.id := ∅
  jobs : Table Job Job.id := ∅
  sqls : Table Sqls Sqls.id := ∅
  translations : Table Translations Translations.id := ∅

/-- `dto.Backup`. -/
structure Backup where
  users : List User := []
  userGroups : List UserGroup := []
  storages : List Storage := []
  strategies : List Strategy := []
  accessSecurities : List AccessSecurity := []
  accessGateways : List AccessGateway := []
  commands : List Command := []
  credentials : List Credential := []
  assets : List AssetBody := []
  jobs : List Job := []
  sqls : List Sqls := []
  translations : List Translations := []

namespace nd

def funcCheckAssetStatusJob : String := "check-asset-status-job"
def funcShellJob : String := "shell-job"
def jobStatusRunning : String := "running"

end nd

namespace UserGroupMemberRepository

def findUserIdsByUserGroupId (db : Database) (userGroupId : String) : List String :=
  (db.userGroupMembers.select fun m => m.userGroupId == userGroupId).map UserGroupMember.userId

end UserGroupMemberRepository

namespace JobService

/-- `getJob`: the functions that a job may have. -/
def getJob (o : Job) : Except Error Unit :=
  if o.func = nd.funcCheckAssetStatusJob ∨ o.func = nd.funcShellJob then .ok ()
  else .error (.text "未识别的任务")

/-- The entry of the scheduler; `addJob` is its answer to a running job. -/
def schedule (addJob : Job → Except Error Int) (o : Job) : Except Error Job :=
  if o.status = nd.jobStatusRunning then do
    getJob o
    let cronJobId ← addJob o
    pure { o with cronJobId }
  else .ok o

def create (addJob : Job → Except Error Int) (jobs : Table Job Job.id) (o : Job) :
    Except Error (Table Job Job.id) := do
  let o ← schedule addJob o
  match jobs.insert o with
  | some jobs => .ok jobs
  | none => .error .duplicatedKey

end JobService

namespace BackupService

/-! ## Export -/

/-- A user in a document: `Export` blanks the password, and the seed of the one-time passwords has no
JSON name. -/
def blankUser (u : User) : User := { u with password := "", totpSecret := "" }

/-- A user group in a document. -/
def withMembers (db : Database) (g : UserGroup) : UserGroup :=
  { g with members := UserGroupMemberRepository.findUserIdsByUserGroupId db g.id }

/-- An asset in a document. No attribute has the name of a column, so the map keeps both. -/
def exportAsset (c : Cipher) (db : Database) (asset : Asset) : Except Error AssetBody := do
  let item ← AssetRepository.decrypt c asset
  let attributes ← AssetRepository.findAssetAttrMapByAssetId db asset.id
  pure { item, attributes }

/-- `Export`. -/
def exportBackup (c : Cipher) (db : BackupDatabase) : Except Error Backup := do
  let credentials ← db.credentials.rows.mapM (CredentialService.decrypt c)
  let assets ← db.assets.rows.mapM (exportAsset c db.toDatabase)
  pure {
    users := db.users.rows.map blankUser
    userGroups := db.userGroups.rows.map (withMembers db.toDatabase)
    storages := db.storages.rows
    strategies := db.strategies.rows
    accessSecurities := SecurityRepository.findAll db.accessSecurities
    accessGateways := db.accessGateways.rows
    commands := db.commands.rows
    credentials
    assets
    jobs := db.jobs.rows
    sqls := db.sqls.rows
    translations := db.translations.rows }

/-! ## Import -/

/-- The texts that an import draws for the rows of a document, by the ids they have there; for a user
group, by the number of groups after it. -/
structure Draws where
  user : String → String
  password : String → String
  userGroup : Nat → String
  storage : String → String
  strategy : String → String
  accessSecurity : String → String
  accessGateway : String → String
  command : String → String
  credential : String → String
  asset : String → String
  job : String → String

/-- A map from the ids of a document to the new ones. -/
abbrev IdMapping : Type := AList fun _ : String => String

/-- A lookup in the map; the zero value where there is no entry. -/
def IdMapping.translate (m : IdMapping) (id : String) : String := (m.lookup id).getD ""

/-- The map that a loop over rows with these ids fills. -/
def idMapping (uuid : String → String) (ids : List String) : IdMapping :=
  ids.foldl (fun m id => m.insert id (uuid id)) ∅

/-- The loop over the users: one whose name is taken is skipped, and its id leaves the map. -/
def importUsers (uuid : Draws) : Database → IdMapping → List User →
    Except Error (Database × IdMapping)
  | db, m, [] => .ok (db, m)
  | db, m, item :: items =>
    if UserRepository.existByUsername db item.username then
      importUsers uuid db (m.erase item.id) items
    else do
      let db ← UserRepository.create db
        { item with id := uuid.user item.id, password := uuid.password item.id }
      importUsers uuid db (m.insert item.id (uuid.user item.id)) items

/-- The loop over `Create`, which stops at the first error. -/
def createAll {α : Type} {key : α → String} (t : Table α key) (os : List α) :
    Except Error (Table α key) :=
  match t.insertAll os with
  | some t => .ok t
  | none => .error .duplicatedKey

def importCredentials (c : Cipher) (uuid : Draws) (users : IdMapping) (db : Database)
    (items : List Credential) : Except Error Database :=
  items.foldlM (fun db item => CredentialService.create c db
    { item with id := uuid.credential item.id, owner := users.translate item.owner }) db

/-- An empty reference and the placeholder stay as they are. -/
def translateUnlessNone (m : IdMapping) (id : String) : String :=
  if id ≠ "" ∧ id ≠ "-" then m.translate id else id

/-- The map of an asset with its references translated. -/
def translateAsset (users credentials accessGateways : IdMapping) (m : AssetBody) : AssetBody :=
  { m with
    item := { m.item with
      credentialId := translateUnlessNone credentials m.item.credentialId
      accessGatewayId := translateUnlessNone accessGateways m.item.accessGatewayId
      owner := users.translate m.item.owner } }

def importAssets (c : Cipher) (uuid : Draws) (users credentials accessGateways : IdMapping)
    (db : Database) (items : List AssetBody) : Except Error Database :=
  items.foldlM (fun db m => (AssetService.create c db (uuid.asset m.item.id)
    (translateAsset users credentials accessGateways m)).map Prod.fst) db

/-- A job with its references translated. -/
def translateJob (uuid : Draws) (assets : IdMapping) (item : Job) : Job :=
  { item with
    id := uuid.job item.id
    resourceIds := Text.join "," ((Text.split item.resourceIds ',').map assets.translate) }

/-- The loop over the jobs; the check of the assets is not imported. -/
def importJobs (addJob : Job → Except Error Int) (uuid : Draws) (assets : IdMapping)
    (jobs : Table Job Job.id) (items : List Job) : Except Error (Table Job Job.id) :=
  (items.filter fun item => item.func != nd.funcCheckAssetStatusJob).foldlM
    (fun jobs item => JobService.create addJob jobs (translateJob uuid assets item)) jobs

/-- `Import`. -/
def importBackup (c : Cipher) (addJob : Job → Except Error Int) (uuid : Draws) (db : BackupDatabase)
    (backup : Backup) : Except Error BackupDatabase := do
  let (usersDb, users) ← importUsers uuid db.toDatabase ∅ backup.users
  let groupsDb ← importUserGroups uuid.userGroup users.translate usersDb backup.userGroups
  let storages ← createAll db.storages <| backup.storages.map fun item =>
    { item with id := uuid.storage item.id, owner := users.translate item.owner }
  let strategies ← createAll groupsDb.strategies <| backup.strategies.map fun item =>
    { item with id := uuid.strategy item.id }
  let accessSecurities ← createAll db.accessSecurities <| backup.accessSecurities.map fun item =>
    { item with id := uuid.accessSecurity item.id }
  let gateways ← createAll groupsDb.accessGateways <| backup.accessGateways.map fun item =>
    { item with id := uuid.accessGateway item.id }
  let commands ← createAll db.commands <| backup.commands.map fun item =>
    { item with id := uuid.command item.id }
  let credentialsDb ← importCredentials c uuid users
    { groupsDb with strategies, accessGateways := gateways } backup.credentials
  let assetsDb ← importAssets c uuid users
    (idMapping uuid.credential (backup.credentials.map Credential.id))
    (idMapping uuid.accessGateway (backup.accessGateways.map AccessGateway.id))
    credentialsDb backup.assets
  let jobs ← importJobs addJob uuid (idMapping uuid.asset (backup.assets.map (·.item.id)))
    db.jobs backup.jobs
  let sqls ← createAll db.sqls <| backup.sqls.map fun item =>
    { item with owner := users.translate item.owner }
  let translations ← createAll db.translations backup.translations
  pure { assetsDb with storages, accessSecurities, commands, jobs, sqls, translations }

end BackupService

/-! ## References after an import

A row of a store refers to users, credentials, access gateways and assets by their ids. An import
keeps a reference when the id that the imported row holds is that of the imported copy of what the
row referred to, or of a row of the same name that was there before.
-/

section References

namespace BackupService

def NameTaken (db : Database) (username : String) : Prop := ∃ u ∈ db.users, u.username = username

def GroupNameTaken (db : Database) (name : String) : Prop := ∃ g ∈ db.userGroups, g.name = name

/-- What the drawn texts are: UUIDs, the ones for user groups distinct and without members in the
target, the ones for users and assets not among the ids of the exported store. -/
structure Draws.Fresh (uuid : Draws) (source target : BackupDatabase) : Prop where
  user : ∀ id, IsUuid (uuid.user id) ∧ ∀ u ∈ source.users, uuid.user id ≠ u.id
  asset : ∀ id, IsUuid (uuid.asset id) ∧ ∀ a ∈ source.assets, uuid.asset id ≠ a.id
  credential : ∀ id, IsUuid (uuid.credential id)
  accessGateway : ∀ id, IsUuid (uuid.accessGateway id)
  distinct : Function.Injective uuid.userGroup
  noMembers : ∀ m ∈ target.userGroupMembers, ∀ n, m.userGroupId ≠ uuid.userGroup n

section KeepsReferences

variable (uuid : Draws) (source target db : BackupDatabase)

/-- An id stands for a user of the exported store. -/
def KeepsUser (old new : String) : Prop :=
  ∀ u ∈ source.users, u.id = old →
    Corresponds User.username uuid.user target.users db.users u new

def KeepsAsset (old new : String) : Prop :=
  ∀ a ∈ source.assets, a.id = old →
    Corresponds Asset.name uuid.asset target.assets db.assets a new

def KeepsCredential (old new : String) : Prop :=
  old ≠ "" → old ≠ "-" → ∀ r ∈ source.credentials, r.id = old →
    Corresponds Credential.name uuid.credential target.credentials db.credentials r new

def KeepsAccessGateway (old new : String) : Prop :=
  old ≠ "" → old ≠ "-" → ∀ g ∈ source.accessGateways, g.id = old →
    Corresponds AccessGateway.name uuid.accessGateway target.accessGateways db.accessGateways g new

/-- Every imported row keeps its references: `db` is the store after the import of what `source`
exported into `target`. A row of a document is found again under the id that was drawn for it. -/
structure KeepsReferences : Prop where
  members : ∀ pre g rest, source.userGroups.rows = pre ++ g :: rest → ∀ r ∈ db.userGroupMembers,
    r.userGroupId = uuid.userGroup rest.length →
      ∃ m ∈ source.userGroupMembers, m.userGroupId = g.id ∧
        KeepsUser uuid source target db m.userId r.userId
  storages : ∀ s ∈ source.storages, ∀ r ∈ db.storages, r.id = uuid.storage s.id →
    KeepsUser uuid source target db s.owner r.owner
  commands : ∀ c ∈ source.commands, ∀ r ∈ db.commands, r.id = uuid.command c.id →
    KeepsUser uuid source target db c.owner r.owner
  credentials : ∀ o ∈ source.credentials, ∀ r ∈ db.credentials, r.id = uuid.credential o.id →
    KeepsUser uuid source target db o.owner r.owner
  assets : ∀ a ∈ source.assets, ∀ r ∈ db.assets, r.id = uuid.asset a.id →
    KeepsUser uuid source target db a.owner r.owner ∧
      KeepsCredential uuid source target db a.credentialId r.credentialId ∧
      KeepsAccessGateway uuid source target db a.accessGatewayId r.accessGatewayId
  jobs : ∀ j ∈ source.jobs, j.func ≠ nd.funcCheckAssetStatusJob → ∀ r ∈ db.jobs,
    r.id = uuid.job j.id → List.Forall₂ (KeepsAsset uuid source target db)
      (Text.split j.resourceIds ',') (Text.split r.resourceIds ',')
  sqls : ∀ q ∈ source.sqls, ∀ r ∈ db.sqls, r.id = q.id →
    KeepsUser uuid source target db q.owner r.owner ∧
      KeepsAsset uuid source target db q.dbAssetId r.dbAssetId

end KeepsReferences

section Translatable

variable (source target : BackupDatabase)

/-- A user of the exported store that an import adds. -/
def Added (u : User) : Prop :=
  FirstOfName User.username (NameTaken target.toDatabase) source.users.rows u

/-- What stands under an id among the users of the exported store is added. -/
def AddsUser (id : String) : Prop := ∀ u ∈ source.users, u.id = id → Added source target u

/-- The users that translated references name are added; what the columns name that an import does
not translate (the owner of a command, the asset of a query) stands under the same id and name in the
target. -/
structure Translatable : Prop where
  members : ∀ g ∈ source.userGroups,
    FirstOfName UserGroup.name (GroupNameTaken target.toDatabase) source.userGroups.rows g →
      ∀ m ∈ source.userGroupMembers, m.userGroupId = g.id → AddsUser source target m.userId
  storages : ∀ s ∈ source.storages, AddsUser source target s.owner
  credentials : ∀ o ∈ source.credentials, AddsUser source target o.owner
  assets : ∀ a ∈ source.assets, AddsUser source target a.owner
  sqls : ∀ q ∈ source.sqls, AddsUser source target q.owner
  commands : ∀ c ∈ source.commands, ∀ u ∈ source.users, u.id = c.owner →
    Known User.username target.users u
  queried : ∀ q ∈ source.sqls, ∀ a ∈ source.assets, a.id = q.dbAssetId →
    Known Asset.name target.assets a

end Translatable

end BackupService

end References

end NextDBM
