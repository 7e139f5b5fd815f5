import NextDBM.Accounts.Passwords
import NextDBM.Library.Runs
import NextDBM.Web.Auth

/-!
# Changes of roles

`Auth` reads the roles of an account from `cache.UserRolesManager`, and from the tables when the cache
has none. `UpdateUser` removes the roles of a user from the cache while its transaction is open. Here
the transactions and the requests run side by side: what a transaction has written is seen when it is
committed, and every statement of `Auth` is a step of its own.
-/

namespace NextDBM

/-- `cache.UserRolesManager` -/
abbrev UserRolesManager : Type := String → Option (List String)

/-! ## `UpdateUser` -/

namespace UserService

/-- What `UpdateUser` asks before it writes. -/
def checkUpdate (db : Database) (id : String) (user : User) : Except Error Unit := do
  let dbUser ← UserRepository.findById db id
  if dbUser.username ≠ user.username ∧ UserRepository.existByUsername db user.username then
    throw (.text ("username " ++ user.username ++ " is already used"))

/-- What `UpdateUser` writes. -/
def writeUpdate (db : Database) (uuid : Nat → String) (user : User) : Except Error Database := do
  let db ← saveUserRoles (UserRoleRefRepository.deleteByUserId db user.id) uuid user
  UserRepository.update db user

end UserService

inductive UpdatePhase
  | begun
  /-- The role references are written. -/
  | written
  /-- The roles are removed from the cache. -/
  | evicted
  deriving DecidableEq

/-- An open transaction of `UpdateUser`: the id is the one of the path. -/
structure UpdateTask where
  id : String
  user : User
  uuid : Nat → String
  phase : UpdatePhase := .begun

/-! ## `Auth` -/

inductive RequestPhase
  | started
  /-- The cache had no roles. -/
  | missed
  /-- The roles are read from the tables. -/
  | found (roles : List String)
  /-- The permissions of these roles decide. -/
  | decided (roles : List String)
  deriving DecidableEq

/-- A request of an account that needs a permission. -/
structure RoleRequest where
  account : String
  path : String
  phase : RequestPhase := .started
  /-- The roles that the account has had since the request started. -/
  since : List (List String)

/-- The first look at the cache; an empty list counts as none. -/
def lookupRoles (manager : UserRolesManager) (account : String) : RequestPhase :=
  match manager account with
  | some (role :: roles) => .decided (role :: roles)
  | _ => .missed

/-- The loop of `Auth` over the roles. -/
def permitsPath (matcher : Matcher) (roleMenus : String → Option (List String)) (path : String)
    (roles : List String) : Bool :=
  roles.any fun role =>
    ((roleMenus role).getD []).any fun menu =>
      (getPermissionByMenu menu).any fun perm => matcher.isMatch perm path

/-! ## The system -/

structure RoleSystem where
  db : Database
  manager : UserRolesManager := fun _ => none
  updates : List UpdateTask := []
  requests : List RoleRequest := []

inductive RoleAction
  | begin (id : String) (user : User) (uuid : Nat → String)
  | write (i : Nat)
  | evict (i : Nat)
  | commit (i : Nat)
  /-- A statement of the transaction fails, or its commit. -/
  | rollback (i : Nat)
  | start (account path : String)
  | lookup (i : Nat)
  /-- A read that fails gives no roles. -/
  | read (i : Nat) (served : Bool)
  | cache (i : Nat)
  /-- An item of the cache is too old. -/
  | expire (account : String)

namespace RoleSystem

def roles (s : RoleSystem) (account : String) : List String :=
  RoleService.getRolesByUserId s.db account

def begin (s : RoleSystem) (task : UpdateTask) : RoleSystem :=
  match UserService.checkUpdate s.db task.id task.user with
  | .ok () => { s with updates := s.updates ++ [task] }
  | .error _ => s

def write (s : RoleSystem) (i : Nat) (task : UpdateTask) : Option RoleSystem :=
  if task.phase = .begun then
    some { s with updates := s.updates.set i { task with phase := .written } }
  else none

def evict (s : RoleSystem) (i : Nat) (task : UpdateTask) : Option RoleSystem :=
  if task.phase = .written then
    some { s with
      manager := Function.update s.manager task.id none
      updates := s.updates.set i { task with phase := .evicted } }
  else none

/-- The tables after a commit; every open request has seen one more version of its roles. -/
def install (s : RoleSystem) (db : Database) : RoleSystem :=
  { s with
    db
    requests := s.requests.map fun r =>
      { r with since := RoleService.getRolesByUserId db r.account :: r.since } }

def commit (s : RoleSystem) (i : Nat) (task : UpdateTask) : Option RoleSystem :=
  if task.phase = .evicted then
    match UserService.writeUpdate s.db task.uuid task.user with
    | .ok db => some { s.install db with updates := s.updates.eraseIdx i }
    | .error _ => none
  else none

def start (s : RoleSystem) (account path : String) : RoleSystem :=
  { s with requests := s.requests ++ [{ account, path, since := [s.roles account] }] }

def setPhase (s : RoleSystem) (i : Nat) (r : RoleRequest) (phase : RequestPhase) : RoleSystem :=
  { s with requests := s.requests.set i { r with phase } }

def lookup (s : RoleSystem) (i : Nat) (r : RoleRequest) : Option RoleSystem :=
  match r.phase with
  | .started => some (s.setPhase i r (lookupRoles s.manager r.account))
  | _ => none

def read (s : RoleSystem) (i : Nat) (served : Bool) (r : RoleRequest) : Option RoleSystem :=
  match r.phase with
  | .missed => some (s.setPhase i r (.found (if served then s.roles r.account else [])))
  | _ => none

def cache (s : RoleSystem) (i : Nat) (r : RoleRequest) : Option RoleSystem :=
  match r.phase with
  | .found roles =>
    some { s.setPhase i r (.decided roles) with
      manager := Function.update s.manager r.account (some roles) }
  | _ => none

def step (s : RoleSystem) : RoleAction → Option RoleSystem
  | .begin id user uuid => some (s.begin { id, user, uuid })
  | .write i => s.updates[i]?.bind (s.write i)
  | .evict i => s.updates[i]?.bind (s.evict i)
  | .commit i => s.updates[i]?.bind (s.commit i)
  | .rollback i =>
    if i < s.updates.length then some { s with updates := s.updates.eraseIdx i } else none
  | .start account path => some (s.start account path)
  | .lookup i => s.requests[i]?.bind (s.lookup i)
  | .read i served => s.requests[i]?.bind (s.read i served)
  | .cache i => s.requests[i]?.bind (s.cache i)
  | .expire account => some { s with manager := Function.update s.manager account none }

/-- A request that is authorised is authorised with roles that the account has had since it started:
what an earlier `UpdateUser` has replaced, it does not see. -/
def TakesEffect (s : RoleSystem) (matcher : Matcher) (roleMenus : String → Option (List String)) :
    Prop :=
  ∀ r ∈ s.requests, ∀ roles, r.phase = .decided roles →
    permitsPath matcher roleMenus r.path roles = true → roles ∈ r.since

/-! ## The condition -/

/-- The cache has no other roles of the account than these. -/
def CachesOnly (s : RoleSystem) (account : String) (roles : List String) : Prop :=
  ∀ cached ∈ s.manager account, cached = [] ∨ cached = roles

/-- The roles of the user after a commit are the only ones that may be cached. -/
def KeepsCommit (s : RoleSystem) (task : UpdateTask) : Prop :=
  ∀ db ∈ (UserService.writeUpdate s.db task.uuid task.user).toOption,
    s.CachesOnly task.user.id (RoleService.getRolesByUserId db task.user.id)

/-- The roles that a request has read are still those of its account. -/
def KeepsCache (s : RoleSystem) (r : RoleRequest) : Prop :=
  match r.phase with
  | .found roles => roles = [] ∨ roles = s.roles r.account
  | _ => True

/-- The condition: at a commit the cache has no old roles of the user, and no request caches roles that
have been replaced since it read them. -/
def KeepsRoles (s : RoleSystem) : RoleAction → Prop
  | .commit i => ∀ task ∈ s.updates[i]?, s.KeepsCommit task
  | .cache i => ∀ r ∈ s.requests[i]?, s.KeepsCache r
  | _ => True

instance (s : RoleSystem) (account : String) (roles : List String) :
    Decidable (s.CachesOnly account roles) :=
  inferInstanceAs (Decidable (∀ cached ∈ s.manager account, cached = [] ∨ cached = roles))

instance (s : RoleSystem) (task : UpdateTask) : Decidable (s.KeepsCommit task) :=
  inferInstanceAs (Decidable (∀ db ∈ (UserService.writeUpdate s.db task.uuid task.user).toOption, _))

instance (s : RoleSystem) : (r : RoleRequest) → Decidable (s.KeepsCache r)
  | ⟨account, _, .found roles, _⟩ =>
    inferInstanceAs (Decidable (roles = [] ∨ roles = s.roles account))
  | ⟨_, _, .started, _⟩ | ⟨_, _, .missed, _⟩ | ⟨_, _, .decided _, _⟩ =>
    inferInstanceAs (Decidable True)

instance (s : RoleSystem) : (a : RoleAction) → Decidable (s.KeepsRoles a)
  | .commit i => inferInstanceAs (Decidable (∀ task ∈ s.updates[i]?, s.KeepsCommit task))
  | .cache i => inferInstanceAs (Decidable (∀ r ∈ s.requests[i]?, s.KeepsCache r))
  | .begin .. | .write _ | .evict _ | .rollback _ | .start .. | .lookup _ | .read .. | .expire _ =>
    inferInstanceAs (Decidable True)

end RoleSystem

end NextDBM
