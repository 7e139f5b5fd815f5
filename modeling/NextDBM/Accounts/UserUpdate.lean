import NextDBM.Accounts.RoleChanges
import NextDBM.Library.Transactions

/-!
# The update of a user, statement by statement

`UpdateEndpoint` takes the id of a user from the path and the user from the body. `UpdateUser` looks the
user up by the id of the path and writes under the id of the body; the memberships are replaced after
its transaction, and the errors of these two statements are dropped. The database may fail at every
statement.
-/

namespace NextDBM

open Transaction

namespace UserUpdate

/-- What lies beside the tables: the cache of roles, and, to speak of them, the errors that the endpoint
drops. -/
structure Memory where
  manager : UserRolesManager := fun _ => none
  dropped : List Error := []

abbrev UpdateWork (α : Type) : Type := Work Database Memory Error α

/-- A statement that writes. -/
def write (f : Database → Except Error Database) : UpdateWork Unit :=
  .statement databaseFault fun db => (f db).map fun db => ((), db)

/-- A statement that reads. -/
def read {α : Type} (f : Database → Except Error α) : UpdateWork α :=
  .statement databaseFault fun db => (f db).map fun a => (a, db)

/-- The rows that `saveUserRoles` creates. -/
def roleRefs (uuid : Nat → String) (user : User) : List UserRoleRef :=
  user.roles.zipIdx.map fun (role, i) => { id := uuid i, userId := user.id, roleId := role }

def createRoleRef (ref : UserRoleRef) (db : Database) : Except Error Database :=
  match db.userRoleRefs.insert ref with
  | some userRoleRefs => .ok { db with userRoleRefs }
  | none => .error .duplicatedKey

/-- The lookups of `UpdateUser`. -/
def checkUsername (id : String) (user : User) : UpdateWork Unit := do
  let dbUser ← read fun db => UserRepository.findById db id
  if dbUser.username ≠ user.username then
    let exist ← read fun db => .ok (UserRepository.existByUsername db user.username)
    if exist then .fail (.text ("username " ++ user.username ++ " is already used")) else pure ()
  else pure ()

/-- `UpdateUser` -/
def updateUser (uuid : Nat → String) (id : String) (user : User) : UpdateWork Unit :=
  .transaction databaseFault do
    checkUsername id user
    write fun db => .ok (UserRoleRefRepository.deleteByUserId db user.id)
    .each (fun ref => write (createRoleRef ref)) (roleRefs uuid user)
    .touch fun memory => { memory with manager := Function.update memory.manager id none }
    write fun db => UserRepository.update db user

/-- A statement whose error is dropped. -/
def drop (x : UpdateWork Unit) : UpdateWork Unit := fun w =>
  match x w with
  | (.ok (), w') => (.ok (), w')
  | (.error err, w') =>
    (.ok (), { w' with memory := { w'.memory with dropped := err :: w'.memory.dropped } })

/-- The membership that the endpoint creates. -/
def membership (uuid : Nat → String) (id : String) (item : User) : UserGroupMember :=
  { id := uuid item.roles.length, userId := id, userGroupId := item.userGroupId }

/-- `UpdateEndpoint`; `body` is what `Bind` reads. -/
def updateEndpoint (uuid : Nat → String) (id : String) (body : Except Error User) :
    UpdateWork Unit := do
  let item ← .ofExcept body
  updateUser uuid id item
  drop (write fun db => .ok (UserGroupMemberRepository.deleteByUserId db id))
  drop (write fun db => UserGroupMemberRepository.create db (membership uuid id item))

/-- The answer to a request, and what is left, when the database serves so many statements. -/
def answer (db : Database) (uuid : Nat → String) (id : String) (body : Except Error User)
    (served : Option Nat) : Except Error Unit × World Database Memory :=
  updateEndpoint uuid id body { db, memory := {}, served }

end UserUpdate

/-! ## What the update is about -/

/-- All but the row, the roles and the memberships of a user is as it was. -/
structure OnlyOf (id : String) (db db' : Database) : Prop where
  users : ∀ u : User, u.id ≠ id → (u ∈ db'.users ↔ u ∈ db.users)
  roles : ∀ r : UserRoleRef, r.userId ≠ id → (r ∈ db'.userRoleRefs ↔ r ∈ db.userRoleRefs)
  memberships : ∀ m : UserGroupMember, m.userId ≠ id →
    (m ∈ db'.userGroupMembers ↔ m ∈ db.userGroupMembers)
  rest : { db' with users := ∅, userRoleRefs := ∅, userGroupMembers := ∅ } =
    { db with users := ∅, userRoleRefs := ∅, userGroupMembers := ∅ }

namespace UserUpdate

section

variable (db : Database) (uuid : Nat → String) (id : String) (item : User) (served : Option Nat)

/-- The request changes nothing but what belongs to the user of the path, and nothing at all when one
of its steps fails. -/
structure Framed (body : Except Error User) : Prop where
  others : OnlyOf id db (answer db uuid id body served).2.db
  atomic : ((∃ err, (answer db uuid id body served).1 = .error err) ∨
    (answer db uuid id body served).2.memory.dropped ≠ []) → (answer db uuid id body served).2.db = db

/-- How many statements the transaction has, with the commit: the name is looked up when it changes. -/
def statements : Nat :=
  (if (db.users.findById id).any (fun u => u.username == item.username) then 4 else 5) +
    item.roles.length

/-- The ids that `utils.UUID` draws for the request are new. -/
structure NewIds : Prop where
  injective : Function.Injective uuid
  roles : ∀ r ∈ db.userRoleRefs, ∀ i, r.id ≠ uuid i
  memberships : ∀ m ∈ db.userGroupMembers, ∀ i, m.id ≠ uuid i

/-- The transaction goes through: the user of the path exists, its new name is its own or free, the body
has an id, and the database serves every statement. -/
structure Commits : Prop where
  found : ∃ u ∈ db.users, u.id = id ∧
    (u.username = item.username ∨ UserRepository.existByUsername db item.username = false)
  keyed : item.id ≠ ""
  served : Serves served (statements db id item)

/-- The body says nothing new of the user that it names: no role, and no other value of a column. -/
structure Idle : Prop where
  roles : item.roles = [] ∧ ∀ r ∈ db.userRoleRefs, r.userId ≠ item.id
  row : ∀ u ∈ db.users, u.id = item.id → UserRepository.assign item u = u

/-- The condition: the transaction fails; or the body names the user of the path, or says nothing new,
and both statements for the memberships are served, or nothing is changed before one fails. -/
def FrameCondition (body : Except Error User) : Prop :=
  ∀ item, body = .ok item → Commits db id item served →
    (item.id = id ∨ Idle db item) ∧
      (Serves served (statements db id item + 2) ∨
        Idle db item ∧ (¬ Serves served (statements db id item + 1) ∨
          ∀ m ∈ db.userGroupMembers, m.userId ≠ id))

end

end UserUpdate

end NextDBM
