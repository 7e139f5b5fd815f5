import NextDBM.Access.Authorised
import NextDBM.Library.Transactions
import NextDBM.Web.Menus

/-!
# Roles

`RoleService` keeps the menus of every role in a cache that the permission check reads. `Create`,
`UpdateById` and `DeleteByIds` write the cache from inside their transactions; a start of the server
builds it from the tables.
-/

namespace NextDBM

open Relational Transaction

/-- `model.RoleMenuRef`. -/
structure RoleMenuRef where
  id : String := ""
  roleId : String := ""
  menuId : String := ""
  checked : Bool := false
  deriving DecidableEq, Repr

/-- `model.Role`; `menus` comes with a request body and is not a column. -/
structure Role where
  id : String := ""
  name : String := ""
  type : String := ""
  deletable : Bool := false
  modifiable : Bool := false
  menus : List RoleMenuRef := []
  deriving DecidableEq, Repr

structure RoleDatabase where
  roles : Table Role Role.id := ∅
  roleMenuRefs : Table RoleMenuRef RoleMenuRef.id := ∅
  userRoleRefs : Table UserRoleRef UserRoleRef.id := ∅

/-- `roleMenus`, the map from roles to menu ids. -/
abbrev RoleMenus : Type := String → Option (List String)

abbrev RoleWork (α : Type) : Type := Work RoleDatabase RoleMenus Error α

namespace RoleRepository

def findById (id : String) (db : RoleDatabase) : Except Error (Role × RoleDatabase) :=
  match db.roles.findById id with
  | some role => .ok (role, db)
  | none => .error .recordNotFound

def existsById (id : String) (db : RoleDatabase) : Bool :=
  db.roles.rows.any fun role => role.id == id

def create (role : Role) (db : RoleDatabase) : Except Error (Unit × RoleDatabase) :=
  match db.roles.insert role with
  | some roles => .ok ((), { db with roles })
  | none => .error .duplicatedKey

/-- `Updates` of a role: the columns whose value in `o` is not the zero value. -/
def assign (o : Role) (r : Role) : Role :=
  { r with
    name := nonZero o.name r.name
    type := nonZero o.type r.type
    deletable := o.deletable || r.deletable
    modifiable := o.modifiable || r.modifiable }

theorem assign_id (o r : Role) : (assign o r).id = r.id := rfl

def updateById (o : Role) (id : String) (db : RoleDatabase) :
    Except Error (Unit × RoleDatabase) :=
  if id = "" then .error .missingWhereClause
  else .ok ((), { db with roles := db.roles.updateById id (assign o) (assign_id o) })

def deleteById (id : String) (db : RoleDatabase) : Except Error (Unit × RoleDatabase) :=
  .ok ((), { db with roles := db.roles.deleteWhere fun role => role.id == id })

end RoleRepository

namespace RoleMenuRefRepository

def findByRoleId (roleId : String) (db : RoleDatabase) : List RoleMenuRef :=
  db.roleMenuRefs.select fun ref => ref.roleId == roleId

def createInBatches (refs : List RoleMenuRef) (db : RoleDatabase) :
    Except Error (Unit × RoleDatabase) :=
  match db.roleMenuRefs.insertInBatches 100 refs with
  | (roleMenuRefs, true) => .ok ((), { db with roleMenuRefs })
  | (_, false) => .error .duplicatedKey

def deleteWhere (p : RoleMenuRef → Bool) (db : RoleDatabase) :
    Except Error (Unit × RoleDatabase) :=
  .ok ((), { db with roleMenuRefs := db.roleMenuRefs.deleteWhere p })

def deleteByRoleId (roleId : String) : RoleDatabase → Except Error (Unit × RoleDatabase) :=
  deleteWhere fun ref => ref.roleId == roleId

def deleteByIdIn (ids : List String) : RoleDatabase → Except Error (Unit × RoleDatabase) :=
  deleteWhere fun ref => ids.contains ref.id

end RoleMenuRefRepository

/-- `UserRoleRefRepository.DeleteByRoleId`. -/
def deleteUserRoleRefsByRoleId (roleId : String) (db : RoleDatabase) :
    Except Error (Unit × RoleDatabase) :=
  .ok ((), { db with userRoleRefs := db.userRoleRefs.deleteWhere fun ref => ref.roleId == roleId })

namespace RoleService

def setRoleMenus (role : String) (items : List String) (m : RoleMenus) : RoleMenus :=
  fun id => if id = role then some items else m id

def removeRole (role : String) (m : RoleMenus) : RoleMenus :=
  fun id => if id = role then none else m id

def getMenuListByRole (m : RoleMenus) (role : String) : List String := (m role).getD []

/-- One round of the loop over the menus of a role: a reference is built unless its id is among those
already built. -/
def addRef (roleId : String) (refs : List RoleMenuRef) (menu : RoleMenuRef) : List RoleMenuRef :=
  let refId := sign [roleId, menu.menuId]
  if refs.any fun ref => ref.id == refId then refs
  else refs ++ [⟨refId, roleId, menu.menuId, menu.checked⟩]

/-- The references that the loop builds; `menuIds` are their menus. -/
def permissionRefs (role : Role) : List RoleMenuRef := role.menus.foldl (addRef role.id) []

def createRolePermissionRefs (role : Role) : RoleWork Unit := do
  let refs := permissionRefs role
  .statement databaseFault (RoleMenuRefRepository.deleteByIdIn (refs.map RoleMenuRef.id))
  .statement databaseFault (RoleMenuRefRepository.createInBatches refs)
  .touch (setRoleMenus role.id (refs.map RoleMenuRef.menuId))

def createBody (role : Role) : RoleWork Unit := do
  .statement databaseFault (RoleRepository.create role)
  createRolePermissionRefs role

def create (role : Role) : RoleWork Unit := .transaction databaseFault (createBody role)

/-- `UpdateById` of the service; the repository has set the id of `role` when its references are
built. -/
def updateBody (role : Role) (id : String) (force : Bool) : RoleWork Unit := do
  let dbRole ← .statement databaseFault (RoleRepository.findById id)
  if !force && !dbRole.modifiable then .fail (.text ("prohibit to modify " ++ dbRole.name))
  else do
    .statement databaseFault (RoleRepository.updateById role id)
    .statement databaseFault (RoleMenuRefRepository.deleteByRoleId id)
    createRolePermissionRefs { role with id }

def updateById (role : Role) (id : String) (force : Bool) : RoleWork Unit :=
  .transaction databaseFault (updateBody role id force)

/-- The check that precedes a delete without force. -/
def checkDeletable (id : String) (force : Bool) : RoleWork Unit :=
  if force then pure ()
  else do
    let role ← .statement databaseFault (RoleRepository.findById id)
    if !role.deletable then .fail (.text ("prohibit to delete " ++ role.name)) else pure ()

/-- One round of `DeleteByIds`. -/
def deleteOne (force : Bool) (id : String) : RoleWork Unit := do
  checkDeletable id force
  .statement databaseFault (RoleRepository.deleteById id)
  .statement databaseFault (RoleMenuRefRepository.deleteByRoleId id)
  .statement databaseFault (deleteUserRoleRefsByRoleId id)
  .touch (removeRole id)

def deleteByIds (ids : List String) (force : Bool) : RoleWork Unit :=
  .transaction databaseFault (.each (deleteOne force) ids)

/-! ## Start -/

def mapRoleMenus (keys : List String) : List RoleMenuRef :=
  keys.map fun key => { menuId := key, checked := true }

def auditPermissions : List String :=
  ["git", "build", "dashboard", "log-audit", "online-session", "offline-session", "login-log",
    "online-session-paging", "online-session-disconnect", "online-session-monitor",
    "offline-session-paging", "offline-session-playback", "offline-session-del",
    "offline-session-clear", "offline-session-reviewed", "offline-session-unreviewed",
    "offline-session-reviewed-all", "login-log-paging", "login-log-del", "login-log-clear"]

def securityPermissions : List String :=
  ["security", "access-security-paging", "access-security-add", "access-security-edit",
    "access-security-del"]

def defaultRoles : List Role :=
  [⟨"system-administrator", "系统管理员", "default", false, false,
      mapRoleMenus (defaultMenu.map Menu.id)⟩,
    ⟨"audit-administrator", "审计管理员", "default", false, false, mapRoleMenus auditPermissions⟩,
    ⟨"security-administrator", "安全管理员", "default", false, false,
      mapRoleMenus securityPermissions⟩]

/-- The round of `CreateDefaultRoles`. -/
def createDefaultRole (role : Role) : RoleWork Unit := do
  let exist ← .statement databaseFault fun db => .ok (RoleRepository.existsById role.id db, db)
  if exist then updateById role role.id true else create role

def createDefaultRoles : RoleWork Unit := .each createDefaultRole defaultRoles

/-- The round of `Init` that loads the menus of one role. -/
def loadRole (role : Role) : RoleWork Unit := do
  let refs ← .statement databaseFault fun db =>
    .ok (RoleMenuRefRepository.findByRoleId role.id db, db)
  .touch (setRoleMenus role.id (refs.map RoleMenuRef.menuId))

def init : RoleWork Unit := do
  createDefaultRoles
  let roles ← .statement databaseFault fun db => .ok (db.roles.rows, db)
  .each loadRole roles

end RoleService

/-- The role exists and may be deleted. -/
def RoleDatabase.Deletable (db : RoleDatabase) (id : String) : Prop :=
  ∃ role ∈ db.roles, role.id = id ∧ role.deletable = true

/-! ## The system -/

/-- A call of the service, with the number of statements that the database serves. -/
inductive RoleCall
  | create (role : Role) (served : Option Nat)
  | updateById (role : Role) (id : String) (force : Bool) (served : Option Nat)
  | deleteByIds (ids : List String) (force : Bool) (served : Option Nat)
  /-- The server starts anew; a start that fails ends the process. -/
  | start

structure RoleState where
  db : RoleDatabase := {}
  roleMenus : RoleMenus := fun _ => none

namespace RoleState

def run (s : RoleState) (served : Option Nat) (x : RoleWork Unit) : RoleState :=
  let (_, w) := x ⟨s.db, s.roleMenus, served⟩
  ⟨w.db, w.memory⟩

def step (s : RoleState) : RoleCall → RoleState
  | .create role served => s.run served (RoleService.create role)
  | .updateById role id force served => s.run served (RoleService.updateById role id force)
  | .deleteByIds ids force served => s.run served (RoleService.deleteByIds ids force)
  | .start => { s with roleMenus := fun _ => none }.run none RoleService.init

/-- For every role the cache has exactly the menus of the role's references, and it has no role that
does not exist. -/
structure Coherent (s : RoleState) : Prop where
  menus : ∀ role ∈ s.db.roles, ∀ menuId,
    menuId ∈ RoleService.getMenuListByRole s.roleMenus role.id ↔
      ∃ ref ∈ s.db.roleMenuRefs, ref.roleId = role.id ∧ ref.menuId = menuId
  exist : ∀ id, s.roleMenus id ≠ none → ∃ role ∈ s.db.roles, role.id = id

/-- No reference of another role has an id that the call computes. -/
def NoCollision (s : RoleState) (role : Role) : Prop :=
  ∀ ref ∈ s.db.roleMenuRefs, ref.roleId ≠ role.id →
    ∀ menu ∈ role.menus, ref.id ≠ sign [role.id, menu.menuId]

/-- The statements of a round of `DeleteByIds`. -/
def deleteCost (force : Bool) : Nat := if force then 3 else 4

/-- The condition: a call commits, without a coincidence of digests, or it ends before it writes the
cache. -/
def Ok (s : RoleState) : RoleCall → Prop
  | .create role served =>
    (∃ r ∈ s.db.roles, r.id = role.id) ∨ ¬ Serves served 3 ∨
      Serves served 4 ∧ s.NoCollision role
  | .updateById role id force served =>
    (∀ r ∈ s.db.roles, r.id = id → force = false ∧ r.modifiable = false) ∨ id = "" ∨
      ¬ Serves served 5 ∨ Serves served 6 ∧ s.NoCollision { role with id }
  | .deleteByIds ids force served =>
    (∀ id ∈ ids.head?, ¬ Serves served (deleteCost force) ∨ force = false ∧ ¬ s.db.Deletable id) ∨
      Serves served (deleteCost force * ids.length + 1) ∧
        (force = true ∨ ids.Nodup ∧ ∀ id ∈ ids, s.db.Deletable id)
  | .start => True

end RoleState

end NextDBM
