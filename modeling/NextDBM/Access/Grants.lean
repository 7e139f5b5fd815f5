import Mathlib.Data.Set.BooleanAlgebra
import Mathlib.Data.Set.Function
import Mathlib.Order.CompletePartialOrder
import NextDBM.Access.Mutations
import NextDBM.Library.Transactions
import NextDBM.Web.Auth

/-!
# Grants

The calls that write grants, `AuthorisedAssets`, `AuthorisedUsers`, `AuthorisedUserGroups` and
`DeleteById`, with a database that may fail at any statement; and what the table `authorised` is for:
a map from the asset, the user and the user group of a grant to its strategy and filters.
-/

namespace NextDBM

open Transaction

/-- A call that writes grants. -/
inductive GrantCall
  | assets (item : AuthorisedAssetItem)
  | users (item : AuthorisedUserItem)
  | userGroups (item : AuthorisedUserGroupItem)
  | deleteById (id : String)

namespace GrantCall

/-- The rows that the loop of a service builds. -/
def rows : GrantCall → List Authorised
  | .assets item => item.assetIds.map fun assetId =>
    { id := sign [assetId, item.userId, item.userGroupId]
      assetId
      commandFilterId := item.commandFilterId
      strategyId := item.strategyId
      userId := item.userId
      userGroupId := item.userGroupId
      sensitiveCommandGroupId := item.sensitiveCommandGroupId }
  | .users item => item.userIds.map fun userId =>
    { id := sign [item.assetId, userId, ""]
      assetId := item.assetId
      commandFilterId := item.commandFilterId
      strategyId := item.strategyId
      userId
      userGroupId := ""
      sensitiveCommandGroupId := item.sensitiveCommandGroupId }
  | .userGroups item => item.userGroupIds.map fun userGroupId =>
    { id := sign [item.assetId, "", userGroupId]
      assetId := item.assetId
      commandFilterId := item.commandFilterId
      strategyId := item.strategyId
      userId := ""
      userGroupId
      sensitiveCommandGroupId := item.sensitiveCommandGroupId }
  | .deleteById _ => []

/-- The body of the three services: the deletes of the loop, then `CreateInBatches`. -/
def replaceBody (items : List Authorised) : Work Database Unit Error Unit := do
  .each (fun r => .statement databaseFault fun db =>
    .ok ((), AuthorisedRepository.deleteById db r.id)) items
  .statement databaseFault fun db =>
    (AuthorisedRepository.createInBatches db items).map fun db => ((), db)

def replaceRows (items : List Authorised) : Work Database Unit Error Unit :=
  .transaction databaseFault (replaceBody items)

def work : GrantCall → Work Database Unit Error Unit
  | .deleteById id => .statement databaseFault fun db =>
    .ok ((), AuthorisedRepository.deleteById db id)
  | c => replaceRows c.rows

/-- Make a call on a database that serves so many statements: the result and the database after. -/
def attempt (c : GrantCall) (served : Option Nat) (db : Database) : Except Error Unit × Database :=
  let (result, w) := c.work ⟨db, (), served⟩
  (result, w.db)

end GrantCall

/-! ## The table as a map -/

/-- What a row is about; an absent user or group is the empty text. -/
structure Triple where
  assetId : String
  userId : String
  userGroupId : String
  deriving DecidableEq, Repr

/-- What a row grants. -/
structure Grant where
  commandFilterId : String
  strategyId : String
  sensitiveCommandGroupId : String
  deriving DecidableEq, Repr

namespace Triple

def ids (t : Triple) : List String := [t.assetId, t.userId, t.userGroupId]

/-- The text that `Sign` gives to MD5. -/
def text (t : Triple) : String := String.join (t.ids.insertionSort (· ≤ ·))

/-- The id of the row for a triple. -/
def id (t : Triple) : String := sign t.ids

end Triple

def Authorised.triple (r : Authorised) : Triple := ⟨r.assetId, r.userId, r.userGroupId⟩

def Authorised.grant (r : Authorised) : Grant :=
  ⟨r.commandFilterId, r.strategyId, r.sensitiveCommandGroupId⟩

/-- The ids in use, by kind: texts of 36 characters or the id of the super administrator, no id of
two kinds. -/
structure IdKinds where
  asset : Set String
  user : Set String
  group : Set String
  wellFormed : ∀ id, id ∈ asset ∨ id ∈ user ∨ id ∈ group → id.length = 36 ∨ id = superAdminID
  asset_user : Disjoint asset user
  asset_group : Disjoint asset group
  user_group : Disjoint user group

/-- The triples over the ids in use. -/
def IdKinds.triples (k : IdKinds) : Set Triple :=
  {t | t.assetId ∈ k.asset ∧ (t.userId = "" ∨ t.userId ∈ k.user) ∧
    (t.userGroupId = "" ∨ t.userGroupId ∈ k.group)}

/-- The triples that a call grants. -/
def GrantCall.triples : GrantCall → List Triple
  | .assets item => item.assetIds.map fun assetId => ⟨assetId, item.userId, item.userGroupId⟩
  | .users item => item.userIds.map fun userId => ⟨item.assetId, userId, ""⟩
  | .userGroups item => item.userGroupIds.map fun userGroupId => ⟨item.assetId, "", userGroupId⟩
  | .deleteById _ => []

def GrantCall.grant : GrantCall → Grant
  | .assets item => ⟨item.commandFilterId, item.strategyId, item.sensitiveCommandGroupId⟩
  | .users item => ⟨item.commandFilterId, item.strategyId, item.sensitiveCommandGroupId⟩
  | .userGroups item => ⟨item.commandFilterId, item.strategyId, item.sensitiveCommandGroupId⟩
  | .deleteById _ => ⟨"", "", ""⟩

/-- The call is about ids in use; `DeleteById` may be given any text. -/
def IdKinds.Admits (k : IdKinds) (c : GrantCall) : Prop := ∀ t ∈ c.triples, t ∈ k.triples

/-- The call grants the triple, or deletes the row of the triple. -/
def GrantCall.Names : GrantCall → Triple → Prop
  | .deleteById id, t => t.id = id
  | c, t => t ∈ c.triples

/-- What is granted for each triple. -/
abbrev Grants : Type := Triple → Option Grant

/-- A call that returned, on the map: the triples it names get its grant, a deleted id loses the
grant, the other triples keep theirs. -/
def GrantCall.record : GrantCall → Grants → Grants
  | .deleteById id, g => fun t => if t.id = id then none else g t
  | c, g => fun t => if t ∈ c.triples then some c.grant else g t

/-- A database together with what the calls that returned have granted. -/
structure Granting where
  db : Database
  granted : Grants := fun _ => none

/-- Make one call and record it if it returned. -/
def Granting.call (s : Granting) (c : GrantCall × Option Nat) : Granting :=
  match c.1.attempt c.2 s.db with
  | (.ok (), db) => ⟨db, c.1.record s.granted⟩
  | (.error _, db) => ⟨db, s.granted⟩

/-- Make calls one after the other. -/
def Granting.calls (s : Granting) (cs : List (GrantCall × Option Nat)) : Granting :=
  cs.foldl Granting.call s

/-- At most one row for each triple. -/
def AtMostOneRow (db : Database) : Prop :=
  ∀ r ∈ db.authorised, ∀ r' ∈ db.authorised, r.triple = r'.triple → r = r'

/-- The rows of the table are exactly the grants of the map. -/
def IsMap (k : IdKinds) (db : Database) (granted : Grants) : Prop :=
  ∀ t ∈ k.triples, ∀ g, granted t = some g ↔ ∃ r ∈ db.authorised, r.triple = t ∧ r.grant = g

end NextDBM
