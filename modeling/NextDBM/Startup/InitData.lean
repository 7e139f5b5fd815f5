import NextDBM.Accounts.Passwords
import NextDBM.Accounts.PropertyCache
import NextDBM.Library.Transactions
import NextDBM.Sessions.Retention

/-!
# The data of a start

Before it serves requests the server repairs its tables: it drops the properties of old versions and
adds those that are missing, creates the first account and the missing roles of administrators, and
gives every user a storage. None of it runs in a transaction, so that a start that stops half-way
leaves what it has written; the next one begins anew.

A storage is a directory of the drive, named by its id. The ids are drawn by `utils.UUID` or are ids of
users, and so the directories stand beside each other.
-/

namespace NextDBM

open Transaction Relational

/-- The store with the storages. -/
structure StartDatabase extends Database where
  storages : Table Storage Storage.id := ∅

/-- The directories of the storages, each with what is in it. -/
abbrev Drive (C : Type) : Type := String → Option C

/-- The drive, and how many more operations on it succeed. -/
structure Disk (C : Type) where
  dirs : Drive C
  served : Option Nat := none

/-- What a start works on; the database and the drive fail each on its own. -/
abbrev StartWork (C α : Type) : Type := Work StartDatabase (Disk C) Error α

variable {C : Type}

namespace StartWork

/-- A statement that reads. -/
def read {α : Type} (f : StartDatabase → Except Error α) : StartWork C α :=
  .statement databaseFault fun db => (f db).map fun a => (a, db)

/-- A statement that writes the tables of `Model.Rows`. -/
def write (f : Database → Except Error Database) : StartWork C Unit :=
  .statement databaseFault fun db => (f db.toDatabase).map fun d => ((), { db with toDatabase := d })

def writeStorages (f : Table Storage Storage.id → Except Error (Table Storage Storage.id)) :
    StartWork C Unit :=
  .statement databaseFault fun db => (f db.storages).map fun storages => ((), { db with storages })

/-- A query whose error the caller looks at. -/
def query {α : Type} (f : StartDatabase → Except Error α) : StartWork C (Except Error α) := fun w =>
  match w.served with
  | some 0 => (.ok (.error databaseFault), w)
  | served => (.ok (f w.db), { w with served := spend 1 served })

/-- An operation on the drive. -/
def onDrive (g : Drive C → Drive C) : StartWork C Unit := fun w =>
  match w.memory.served with
  | some 0 => (.error (.text "file system fault"), w)
  | served => (.ok (), { w with memory := ⟨g w.memory.dirs, spend 1 served⟩ })

/-- When the work fails, the cleanup follows; its own error is dropped. -/
def orElse (x : StartWork C Unit) (cleanup : StartWork C Unit) : StartWork C Unit := fun w =>
  match x w with
  | (.ok u, w') => (.ok u, w')
  | (.error e, w') => (.error e, (cleanup w').2)

end StartWork

open StartWork

/-! ## Properties -/

namespace PropertyRepository

def deleteByName (db : Database) (name : String) : Except Error Database :=
  .ok { db with properties := db.properties.deleteWhere fun p => p.name == name }

/-- `FindAllMap`: a name that is not in the map has the empty text, and the map of a read that fails is
empty. -/
def findAllMap (db : Database) (readable : Bool) (name : String) : String :=
  if readable then (PropertyStore.stored db name).getD "" else ""

end PropertyRepository

namespace PropertyService

def deprecatedPropertyNames : List String :=
  ["enable-drive", "drive-path", "drive-name", "disable-glyph-caching", "create-recording-path"]

def defaultProperties : List (String × String) :=
  [("enable-recording", "true"), ("font-name", "menlo"), ("font-size", "12"),
    ("color-scheme", "gray-black"), ("enable-wallpaper", "true"), ("enable-theming", "true"),
    ("enable-font-smoothing", "true"), ("enable-full-window-drag", "true"),
    ("enable-desktop-composition", "true"), ("enable-menu-animations", "true"),
    ("disable-bitmap-caching", "false"), ("disable-offscreen-caching", "false"),
    ("cron-log-saved-limit", "360"), ("login-log-saved-limit", "360"),
    ("session-saved-limit", "360"), ("user-default-storage-size", "5120"),
    ("default-language", "zh-CN"), ("default-theme", "default")]

/-- The map of all properties. Whether the read succeeds is `readable` and what is served. -/
def propertyMap (readable : Bool) : StartWork C (String → String) := do
  let answer ← query fun db => .ok (PropertyRepository.findAllMap db.toDatabase readable)
  match answer with
  | .ok properties => pure properties
  | .error _ => pure fun _ => ""

def createIfAbsent (properties : String → String) (item : String × String) : StartWork C Unit :=
  if (properties item.1).length = 0 then
    write fun db => PropertyRepository.create db { name := item.1, value := item.2 }
  else pure ()

/-- `InitProperties`; `order` has the defaults in the order in which the loop meets them. -/
def initProperties (readable : Bool) (order : List (String × String)) : StartWork C Unit := do
  let properties ← propertyMap readable
  .each (createIfAbsent properties) order

def deleteDeprecated (properties : String → String) (name : String) : StartWork C Unit :=
  if properties name = "" then pure ()
  else write fun db => PropertyRepository.deleteByName db name

def deleteDeprecatedProperty (readable : Bool) : StartWork C Unit := do
  let properties ← propertyMap readable
  .each (deleteDeprecated properties) deprecatedPropertyNames

/-- Whatever fails, only properties of old versions go, and only defaults come. -/
structure KeepsSettings (before after : Database) : Prop where
  kept : ∀ name value, name ∉ deprecatedPropertyNames →
    PropertyStore.stored before name = some value → PropertyStore.stored after name = some value
  added : ∀ name value, PropertyStore.stored after name = some value →
    PropertyStore.stored before name = some value ∨ (name, value) ∈ defaultProperties

/-- What is set stays as it is, with a default where nothing was set and nothing under an old name. -/
structure Repaired (before after : Database) : Prop where
  deprecated : ∀ name ∈ deprecatedPropertyNames, PropertyStore.stored after name = none
  defaults : ∀ item ∈ defaultProperties, PropertyStore.stored after item.1 =
    some ((PropertyStore.stored before item.1).getD item.2)
  others : ∀ name, name ∉ deprecatedPropertyNames → (∀ item ∈ defaultProperties, item.1 ≠ name) →
    PropertyStore.stored after name = PropertyStore.stored before name

end PropertyService

/-! ## Accounts -/

namespace Startup

/-- An account without a type becomes one of a user. -/
def repairType (user : User) : StartWork C Unit :=
  if user.type = "" then
    write fun db => UserRepository.update db { id := user.id, type := nd.typeUser }
  else pure ()

/-- An administrator without a role gets one; `uuid` is the id that is drawn for it. -/
def repairRole (uuid : String → String) (user : User) : StartWork C Unit :=
  if user.type = nd.typeAdmin then do
    let roles ← read fun db => .ok (RoleService.getRolesByUserId db.toDatabase user.id)
    if roles.length = 0 then
      write fun db => UserService.saveUserRoles db (fun _ => uuid user.id)
        { user with roles := ["system-administrator"] }
    else pure ()
  else pure ()

/-- The body of the loop of `InitUser`. -/
def repairUser (uuid : String → String) (user : User) : StartWork C Unit := do
  repairType user
  repairRole uuid user

/-- `InitUser`, statement by statement, with the encoded password of the first account. -/
def initUser (encoded : Except Error String) (uuid : String → String) : StartWork C Unit := do
  let users ← read fun db => .ok db.users.rows
  if users.length = 0 then
    let pass ← .ofExcept encoded
    write fun db => UserRepository.create db (UserService.initialUser pass)
  else .each (repairUser uuid) users

end Startup

/-! ## Storages -/

namespace StorageRepository

def create (m : Storage) (storages : Table Storage Storage.id) :
    Except Error (Table Storage Storage.id) :=
  match storages.insert m with
  | some storages => .ok storages
  | none => .error .duplicatedKey

def deleteById (id : String) (storages : Table Storage Storage.id) :
    Except Error (Table Storage Storage.id) :=
  .ok (storages.deleteWhere fun storage => storage.id == id)

/-- `FindByOwnerIdAndDefault`, for `true`. -/
def findDefaultOf (db : StartDatabase) (owner : String) : Except Error Storage :=
  firstOrNotFound (db.storages.first fun storage => storage.owner == owner && storage.isDefault)

end StorageRepository

namespace StorageService

/-- `os.MkdirAll` -/
def mkdirAll [EmptyCollection C] (id : String) : StartWork C Unit :=
  onDrive fun drive => Function.update drive id (some ((drive id).getD ∅))

/-- `MkdirAll`, unless the directory is there. -/
def ensureDir [EmptyCollection C] (id : String) : StartWork C Unit := fun w =>
  if (w.memory.dirs id).isSome then (.ok (), w) else mkdirAll id w

/-- `os.RemoveAll` -/
def removeAll (id : String) : StartWork C Unit :=
  onDrive fun drive => Function.update drive id none

/-- The limit that a setting stands for, in bytes. -/
def limitSize (megabytes : Int) : Int :=
  if Int64Arith.wrap (megabytes * 1024 * 1024) < 0 then -1
  else Int64Arith.wrap (megabytes * 1024 * 1024)

/-- The storage that is created for a user. -/
def defaultStorage (user : User) (megabytes : Int) : Storage where
  id := user.id
  name := user.nickname ++ "的默认空间"
  isShare := false
  isDefault := true
  limitSize := limitSize megabytes
  owner := user.id

/-- `strconv.ParseInt(value, 10, 64)` -/
def parseSize (value : String) : Except Error Int :=
  match Retention.atoi value with
  | some n => .ok n
  | none => .error (.text ("parsing \"" ++ value ++ "\""))

def createStorageByUser [EmptyCollection C] (user : User) : StartWork C Unit := do
  let property ← read fun db =>
    firstOrNotFound (db.properties.findById "user-default-storage-size")
  let megabytes ← .ofExcept (parseSize property.value)
  mkdirAll user.id
  (writeStorages (StorageRepository.create (defaultStorage user megabytes))).orElse
    (removeAll user.id)

/-- `DeleteStorageById`; `RemoveAll` takes the directory before the row goes. -/
def deleteStorageById (id : String) (force : Bool) : StartWork C Unit := do
  let found ← query fun db => firstOrNotFound (db.storages.findById id)
  match found with
  | .error .recordNotFound => pure ()
  | .error e => .fail e
  | .ok storage =>
    if !force && storage.isDefault then .fail (.text "默认空间不能删除")
    else do
      removeAll id
      writeStorages (StorageRepository.deleteById id)

/-- The first loop of `InitStorages`. The query for the storage of a user is only looked at for having
found nothing; it fails for the users that are not `readable`. -/
def ensureStorage [EmptyCollection C] (readable : String → Bool) (user : User) :
    StartWork C Unit := do
  let found ← query fun db => StorageRepository.findDefaultOf db user.id
  match found with
  | .error .recordNotFound => if readable user.id then createStorageByUser user else pure ()
  | _ => pure ()

/-- A default storage without its user. -/
def isLeftOver (users : List User) (storage : Storage) : Bool :=
  storage.isDefault && !(users.any fun user => storage.id == user.id)

/-- What is left over goes. -/
def removeLeftOver (users : List User) (storage : Storage) : StartWork C Unit :=
  if isLeftOver users storage then deleteStorageById storage.id true else pure ()

/-- The body of the second loop. -/
def reviewStorage [EmptyCollection C] (users : List User) (storage : Storage) :
    StartWork C Unit := do
  removeLeftOver users storage
  ensureDir storage.id

/-- `InitStorages`. -/
def initStorages [EmptyCollection C] (readable : String → Bool) : StartWork C Unit := do
  let users ← read fun db => .ok db.users.rows
  .each (ensureStorage readable) users
  let storages ← read fun db => .ok db.storages.rows
  .each (reviewStorage users) storages

/-- The user has a default storage. -/
def HasDefault (db : StartDatabase) (userId : String) : Prop :=
  ∃ storage ∈ db.storages, storage.owner = userId ∧ storage.isDefault = true

/-- The size of new storages, when it is set to a number. -/
def sizeSetting (db : Database) : Option Int :=
  (PropertyStore.stored db "user-default-storage-size").bind Retention.atoi

end StorageService

/-! ## A start -/

/-- What a start meets: which reads of all properties succeed, the order of the loop over the defaults,
the encoded password of a first account, the ids for the roles of administrators, and for which users the
storage can be looked up. -/
structure StartPlan where
  deprecatedReadable : Bool := true
  defaultsReadable : Bool := true
  order : List (String × String) := PropertyService.defaultProperties
  encoded : Except Error String
  uuid : String → String
  readable : String → Bool := fun _ => true

/-- The loop over the defaults meets each of them once. -/
def StartPlan.Orders (plan : StartPlan) : Prop := plan.order.Perm PropertyService.defaultProperties

/-- Every read of the start succeeds, unless the database is out. -/
structure StartPlan.Reads (plan : StartPlan) : Prop where
  deprecated : plan.deprecatedReadable = true
  defaults : plan.defaultsReadable = true
  storages : ∀ userId, plan.readable userId = true

/-- The part of `InitDBData` that repairs properties, accounts and storages. -/
def initDBData [EmptyCollection C] (plan : StartPlan) : StartWork C Unit := do
  PropertyService.deleteDeprecatedProperty plan.deprecatedReadable
  PropertyService.initProperties plan.defaultsReadable plan.order
  Startup.initUser plan.encoded plan.uuid
  StorageService.initStorages plan.readable

/-! ## The installation between starts -/

/-- The tables and the drive. -/
structure Premises (C : Type) where
  db : StartDatabase := {}
  drive : Drive C := fun _ => none

/-- A user of a backup, with the id and the password that are drawn for it. -/
structure ImportedUser where
  uuid : String
  password : String
  item : User

/-- A storage of a backup, with the id that is drawn for it. -/
structure ImportedStorage where
  uuid : String
  item : Storage

/-- The operations that write users, properties or storages. -/
inductive PremisesCall
  | updateProperties (u : PropertyUpdate)
  | upgradeFinishApp
  | createUser (uuid : Nat → String) (user : User) (encoded : Except Error String)
  | updateUser (uuid : Nat → String) (userId : String) (item : User)
  /-- The other writes to the row of a user: passwords, states, secrets. -/
  | updateRow (o : User)
  | deleteUser (userId : String)
  /-- `StorageCreateEndpoint`, with the drawn id, the account and the body. -/
  | createStorage (uuid account : String) (item : Storage)
  /-- `StorageUpdateEndpoint`, once the limit is found to be high enough. -/
  | updateStorage (id : String) (item : Storage)
  /-- `StorageDeleteEndpoint` -/
  | deleteStorages (ids : List String)
  /-- `Import`, with the outcome of what it does to the other tables. -/
  | importBackup (users : List ImportedUser) (storages : List ImportedStorage)
      (others : Except Error Unit)
  | start (plan : StartPlan)

/-- An operation, and how many statements and operations on the drive succeed in it. -/
structure PremisesAction where
  call : PremisesCall
  served : Option Nat := none
  driveServed : Option Nat := none

namespace PremisesCall

def updateStorageRow (id : String) (item : Storage) (storages : Table Storage Storage.id) :
    Except Error (Table Storage Storage.id) :=
  match storages.findById id with
  | some storage => .ok (storages.put { storage with
      name := item.name, limitSize := item.limitSize, isShare := item.isShare })
  | none => .error .recordNotFound

/-- The loop over the users of a backup returns the new ids by the old ones; a name that is taken is
skipped. -/
def importUsers : List ImportedUser → (String → String) → StartWork C (String → String)
  | [], mapping => pure mapping
  | user :: users, mapping => do
    let exist ← read fun db => .ok (UserRepository.existByUsername db.toDatabase user.item.username)
    if exist then importUsers users (Function.update mapping user.item.id "")
    else do
      write fun db =>
        UserRepository.create db { user.item with id := user.uuid, password := user.password }
      importUsers users (Function.update mapping user.item.id user.uuid)

def importStorage (mapping : String → String) (storage : ImportedStorage) : StartWork C Unit :=
  writeStorages (StorageRepository.create
    { storage.item with id := storage.uuid, owner := mapping storage.item.owner })

def work [EmptyCollection C] : PremisesCall → StartWork C Unit
  | .updateProperties u => fun w =>
    (.ok (), { w with db := { w.db with
      toDatabase := (PropertyStore.update ⟨w.db.toDatabase, fun _ => none⟩ u).db } })
  | .upgradeFinishApp => .ignore (write fun db =>
    PropertyRepository.updateByName db { name := "upgrade", value := "upgradeFinish" } "upgrade")
  | .createUser uuid user encoded => .transaction databaseFault do
    write fun db => UserService.createUser db uuid user encoded (.ok ())
    StorageService.createStorageByUser { user with id := uuid user.roles.length }
  | .updateUser uuid userId item => .transaction databaseFault
    (write fun db => UserService.updateUser db uuid userId item)
  | .updateRow o => write fun db => UserRepository.update db o
  | .deleteUser userId => do
    let _ ← read fun db => UserRepository.findById db.toDatabase userId
    .transaction databaseFault do
      write fun db => .ok (UserGroupMemberRepository.deleteByUserId db userId)
      write fun db => .ok (AuthorisedRepository.deleteByUserId db userId)
      StorageService.deleteStorageById userId true
      write fun db => .ok (UserRoleRefRepository.deleteByUserId db userId)
      write fun db => .ok (UserRepository.deleteById db userId)
  | .createStorage uuid account item => do
    StorageService.mkdirAll uuid
    writeStorages (StorageRepository.create { item with id := uuid, owner := account })
  | .updateStorage id item => writeStorages (updateStorageRow id item)
  | .deleteStorages ids => .each (StorageService.deleteStorageById · false) ids
  | .importBackup users storages others => .transaction databaseFault do
    let mapping ← importUsers users fun _ => ""
    .each (importStorage mapping) storages
    .ofExcept others
  | .start plan => initDBData plan

end PremisesCall

namespace Premises

variable [EmptyCollection C]

/-- What an operation meets. -/
def world (s : Premises C) (a : PremisesAction) : World StartDatabase (Disk C) :=
  ⟨s.db, ⟨s.drive, a.driveServed⟩, a.served⟩

/-- The state after an operation, however it ends. -/
def after (s : Premises C) (a : PremisesAction) : Premises C :=
  let w := (a.call.work (s.world a)).2
  ⟨w.db, w.memory.dirs⟩

def GoesThrough (s : Premises C) (a : PremisesAction) : Prop :=
  (a.call.work (s.world a)).1 = .ok ()

def step (s : Premises C) (a : PremisesAction) : Option (Premises C) := some (s.after a)

/-- Ids that are drawn are new: no storage has that of a new user, and no user that of a new storage. The
loop over the defaults meets each of them once. -/
def Draws (s : Premises C) (a : PremisesAction) : Prop :=
  match a.call with
  | .createUser uuid user _ =>
    uuid user.roles.length ≠ "" ∧ ∀ storage ∈ s.db.storages, storage.id ≠ uuid user.roles.length
  | .createStorage uuid _ _ => uuid ≠ superAdminId ∧ ∀ user ∈ s.db.users, user.id ≠ uuid
  | .importBackup users storages _ =>
    (∀ user ∈ users, user.uuid ≠ "" ∧ ∀ storage ∈ s.db.storages, storage.id ≠ user.uuid) ∧
      ∀ storage ∈ storages, storage.uuid ≠ superAdminId ∧
        (∀ user ∈ s.db.users, user.id ≠ storage.uuid) ∧ ∀ user ∈ users, user.uuid ≠ storage.uuid
  | .start plan => plan.Orders
  | _ => True

abbrev Reaches (s t : Premises C) : Prop := Transition.Reaches step Draws s t

end Premises

/-! ## What starts bring about -/

/-- No property of an old version is left and every default has a value, every account has a type and
every administrator a role, every user has a default storage under its own id, there is no other default
storage, and every storage has its directory. -/
structure Settled (s : Premises C) : Prop where
  deprecated : ∀ name ∈ PropertyService.deprecatedPropertyNames,
    PropertyStore.stored s.db.toDatabase name = none
  defaults : ∀ item ∈ PropertyService.defaultProperties,
    (PropertyStore.stored s.db.toDatabase item.1).isSome = true
  populated : s.db.users.rows ≠ []
  typed : ∀ user ∈ s.db.users, user.type ≠ ""
  roles : ∀ user ∈ s.db.users, user.type = nd.typeAdmin →
    RoleService.getRolesByUserId s.db.toDatabase user.id ≠ []
  own : ∀ user ∈ s.db.users, ∃ storage ∈ s.db.storages,
    storage.isDefault = true ∧ storage.id = user.id ∧ storage.owner = user.id
  only : ∀ storage ∈ s.db.storages, storage.isDefault = true →
    ∃ user ∈ s.db.users, user.id = storage.id
  dirs : ∀ storage ∈ s.db.storages, (s.drive storage.id).isSome = true

/-- The accounts that a start finds or creates. -/
def accountIds (db : Database) : List String :=
  if db.users.rows = [] then [superAdminId] else db.users.rows.map User.id

/-- The size that new storages have once the defaults are there. -/
def sizeText (db : Database) : String :=
  (PropertyStore.stored db "user-default-storage-size").getD "5120"

/-- The size is a number, or no account waits for its storage. -/
def Startable (db : StartDatabase) : Prop :=
  (Retention.atoi (sizeText db.toDatabase)).isSome = true ∨
    ∀ userId ∈ accountIds db.toDatabase, StorageService.HasDefault db userId

/-- What a start that goes through may do to a directory: nothing, or make an empty one where there is
none, or empty the one of a default storage whose user is gone. -/
def SparesDir [EmptyCollection C] (s : Premises C) (drive : Drive C) (id : String) : Prop :=
  drive id = s.drive id ∨ (s.drive id = none ∧ drive id = some ∅) ∨
    ((drive id = none ∨ drive id = some ∅) ∧ id ∉ accountIds s.db.toDatabase ∧
      ∃ storage ∈ s.db.storages, storage.id = id ∧ storage.isDefault = true)

/-- When the insert of a storage fails, its directory goes again, whatever was in it. -/
def MayLose (s : Premises C) (drive : Drive C) (id : String) : Prop :=
  id ∈ accountIds s.db.toDatabase ∧ ¬ StorageService.HasDefault s.db id ∧ drive id = none

/-- The ids that are drawn for the roles of administrators are new. -/
structure StartPlan.DrawsRoles (plan : StartPlan) (db : Database) : Prop where
  fresh : ∀ user ∈ db.users, ∀ r ∈ db.userRoleRefs, r.id ≠ plan.uuid user.id
  distinct : ∀ u ∈ db.users, ∀ v ∈ db.users, plan.uuid u.id = plan.uuid v.id → u.id = v.id

end NextDBM
