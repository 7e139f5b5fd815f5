import NextDBM.Gate.Security
import NextDBM.Library.Transactions

/-!
# The access rules in memory

The entrances decide on `GlobalSecurityManager`, a copy of the table `access_securities` in memory.
The endpoints patch the copy by hand after each write, a backup import patches it while its
transaction is still open, and a start of the server builds it from the table. The database may fail
at any statement.
-/

namespace NextDBM

open Relational Transaction

/-- `model.AccessSecurity`. -/
structure AccessSecurity where
  id : String := ""
  rule : String := ""
  ip : String := ""
  source : String := ""
  priority : Int := 0
  deriving DecidableEq, Repr

/-- The rule that the code builds for the memory. -/
def AccessSecurity.security (r : AccessSecurity) : Security :=
  { id := r.id, ip := r.ip, rule := r.rule, priority := r.priority }

abbrev AccessRules : Type := Table AccessSecurity AccessSecurity.id

/-- `security.Manager`: a map from ids to rules, and the rules in the order of their priorities. -/
structure Manager where
  securities : Table Security Security.id := ∅
  values : List Security := []

namespace Manager

/-- `Clear`, which does not load `values` again. -/
def clear (m : Manager) : Manager := { m with securities := ∅ }

def add (m : Manager) (s : Security) : Manager :=
  ⟨m.securities.put s, loadData (m.securities.put s).rows⟩

def del (m : Manager) (id : String) : Manager :=
  let securities := m.securities.deleteWhere fun s => s.id == id
  ⟨securities, loadData securities.rows⟩

end Manager

/-! ## The table -/

namespace SecurityRepository

/-- `FindAll`, in the order of the priorities. -/
def findAll (rules : AccessRules) : List AccessSecurity :=
  rules.rows.insertionSort fun r r' => r.priority ≤ r'.priority

def create (o : AccessSecurity) (rules : AccessRules) : Except Error (Unit × AccessRules) :=
  match rules.insert o with
  | some rules => .ok ((), rules)
  | none => .error .duplicatedKey

/-- `Updates` of a rule: the columns whose value in `o` is not the zero value. -/
def assign (o : AccessSecurity) (r : AccessSecurity) : AccessSecurity :=
  { r with
    rule := nonZero o.rule r.rule
    ip := nonZero o.ip r.ip
    source := nonZero o.source r.source
    priority := if o.priority = 0 then r.priority else o.priority }

theorem assign_id (o r : AccessSecurity) : (assign o r).id = r.id := rfl

/-- `UpdateById`; a row that does not exist is no error. -/
def updateById (o : AccessSecurity) (id : String) (rules : AccessRules) :
    Except Error (Unit × AccessRules) :=
  if id = "" then .error .missingWhereClause
  else .ok ((), rules.updateById id (assign o) (assign_id o))

def deleteById (id : String) (rules : AccessRules) : Except Error (Unit × AccessRules) :=
  .ok ((), rules.deleteWhere fun r => r.id == id)

end SecurityRepository

/-! ## The writers -/

/-- Work on the table and the manager. -/
abbrev RuleWork (α : Type) : Type := Work AccessRules Manager Error α

namespace SecurityApi

/-- `SecurityCreateEndpoint`; `id` is the drawn `utils.UUID`. -/
def create (id : String) (item : AccessSecurity) : RuleWork Unit := do
  let item := { item with id, source := "管理员添加" }
  .statement databaseFault (SecurityRepository.create item)
  .touch fun m => m.add item.security

/-- `SecurityUpdateEndpoint`: the rule in memory is built from the request body. -/
def update (id : String) (item : AccessSecurity) : RuleWork Unit := do
  .statement databaseFault (SecurityRepository.updateById item id)
  .touch fun m => (m.del id).add { item with id }.security

/-- One round of `SecurityDeleteEndpoint`. -/
def deleteOne (id : String) : RuleWork Unit := do
  .statement databaseFault (SecurityRepository.deleteById id)
  .touch fun m => m.del id

/-- `SecurityDeleteEndpoint`; the ids come in one text, separated by commas. -/
def delete (ids : String) : RuleWork Unit := .each deleteOne (Text.split ids ',')

end SecurityApi

namespace SecurityService

/-- `ReloadAccessSecurity`. -/
def reloadAccessSecurity : RuleWork Unit := do
  let rules ← .statement databaseFault fun db => .ok (SecurityRepository.findAll db, db)
  if rules.isEmpty then pure ()
  else do
    .touch Manager.clear
    .each (fun r => .touch fun m => m.add r.security) rules

end SecurityService

namespace BackupService

/-- The round of `Import` for one access rule, under its newly drawn id. -/
def importSecurity (item : AccessSecurity) : RuleWork Unit := do
  .statement databaseFault (SecurityRepository.create item)
  .touch fun m => m.add item.security

/-- The outcome of a part of `Import` that writes other tables. -/
def outcome : Option Error → RuleWork Unit
  | none => pure ()
  | some e => .fail e

/-- The body of `Import`: the tables before the access rules, the access rules, the tables after
them. -/
def importBody (before : Option Error) (items : List AccessSecurity) (after : Option Error) :
    RuleWork Unit := do
  outcome before
  .each importSecurity items
  outcome after

def importRules (before : Option Error) (items : List AccessSecurity) (after : Option Error) :
    RuleWork Unit :=
  .transaction databaseFault (importBody before items after)

end BackupService

/-! ## The system -/

/-- What happens to the rules; each action but a start comes with the number of statements that the
database serves. -/
inductive RuleAction
  | create (id : String) (item : AccessSecurity) (served : Option Nat)
  | update (id : String) (item : AccessSecurity) (served : Option Nat)
  | delete (ids : String) (served : Option Nat)
  | importRules (before : Option Error) (items : List AccessSecurity) (after : Option Error)
      (served : Option Nat)
  | start

/-- The table and the manager. -/
structure RuleState where
  rules : AccessRules := ∅
  manager : Manager := {}

namespace RuleState

/-- Run a piece of work; what it returns goes to the caller. -/
def run (s : RuleState) (served : Option Nat) (x : RuleWork Unit) : RuleState :=
  let (_, w) := x ⟨s.rules, s.manager, served⟩
  ⟨w.db, w.memory⟩

def step (s : RuleState) : RuleAction → RuleState
  | .create id item served => s.run served (SecurityApi.create id item)
  | .update id item served => s.run served (SecurityApi.update id item)
  | .delete ids served => s.run served (SecurityApi.delete ids)
  | .importRules before items after served =>
    s.run served (BackupService.importRules before items after)
  | .start => { s with manager := {} }.run none SecurityService.reloadAccessSecurity

/-- The rules in memory are those of the table, field for field, in the order of their priorities. -/
def Coherent (s : RuleState) : Prop :=
  s.manager.values.Perm (s.rules.rows.map AccessSecurity.security) ∧
    s.manager.values.Pairwise fun r r' => r.priority ≤ r'.priority

instance (s : RuleState) : Decidable s.Coherent := inferInstanceAs (Decidable (_ ∧ _))

/-- The stored row takes over the body's values: there is one, and each empty field of the body is
empty in it. -/
def Overwrites (s : RuleState) (id : String) (item : AccessSecurity) : Prop :=
  ∃ r ∈ s.rules, r.id = id ∧ (item.rule = "" → r.rule = "") ∧ (item.ip = "" → r.ip = "") ∧
    (item.priority = 0 → r.priority = 0)

/-- The import fails before it adds its first rule. -/
def AddsNothing (s : RuleState) (before : Option Error) (items : List AccessSecurity)
    (served : Option Nat) : Prop :=
  before ≠ none ∨ ¬ Serves served 1 ∨ ∀ item ∈ items.head?, ∃ r ∈ s.rules, r.id = item.id

/-- The import goes through: the drawn ids are new, the database serves every rule and the commit,
and the tables after the rules raise no error. -/
def Commits (s : RuleState) (items : List AccessSecurity) (after : Option Error)
    (served : Option Nat) : Prop :=
  (items.map AccessSecurity.id).Nodup ∧ (∀ item ∈ items, ∀ r ∈ s.rules, r.id ≠ item.id) ∧
    Serves served (items.length + 1) ∧ after = none

/-- The condition under which an action keeps the memory coherent. -/
def Ok (s : RuleState) : RuleAction → Prop
  | .update id item served => ¬ Serves served 1 ∨ id = "" ∨ s.Overwrites id item
  | .importRules before items after served =>
    s.AddsNothing before items served ∨ s.Commits items after served
  | _ => True

end RuleState

end NextDBM
