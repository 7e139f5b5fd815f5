import NextDBM.Accounts.References

/-!
# Writing login policies

`UpdateById` rewrites the row of a policy, deletes its time periods and inserts those of the request;
`Bind` deletes the reference of each listed user and inserts all of them. Both work in a transaction
on a database that may refuse any of their statements: what an earlier statement has written is then
rolled back.
-/

namespace NextDBM

/-- The answer to a call of a repository; the database may refuse it. -/
def answered {α : Type} (fails : Bool) (x : Except Error α) : Except Error α :=
  if fails then .error databaseFault else x

/-- `Transaction`: what the body wrote is kept when the body returns no error and the commit goes
through. -/
def inTransaction (commitFails : Bool) (db : AccountDatabase)
    (body : AccountDatabase → Except Error AccountDatabase) : Except Error Unit × AccountDatabase :=
  match body db with
  | .error e => (.error e, db)
  | .ok db' => if commitFails then (.error databaseFault, db) else (.ok (), db')

namespace LoginPolicyRepository

def findById (db : AccountDatabase) (id : String) : Except Error LoginPolicy :=
  match db.loginPolicies.findById id with
  | some policy => .ok policy
  | none => .error .recordNotFound

end LoginPolicyRepository

namespace LoginPolicyService

/-! ## Updates -/

/-- The database calls of `UpdateById`. -/
inductive UpdateStatement
  | updateById
  | deleteByLoginPolicyId
  | createInBatches
  | commit
  deriving DecidableEq, Repr

/-- `UpdateById`; `fails` says which calls the database refuses. -/
def updateByIdTx (fails : UpdateStatement → Bool) (db : AccountDatabase) (m : LoginPolicy)
    (periods : List TimePeriod) (uuid : Nat → String) (id : String) :
    Except Error Unit × AccountDatabase :=
  inTransaction (fails .commit) db fun db => do
    let db ← answered (fails .updateById) (LoginPolicyRepository.updateById db m id)
    let db ← answered (fails .deleteByLoginPolicyId)
      (.ok (TimePeriodRepository.deleteByLoginPolicyId db id))
    if periods.isEmpty then pure db
    else
      answered (fails .createInBatches)
        (TimePeriodRepository.createInBatches db (drawTimePeriods uuid id periods))

/-- `FindById`: a policy and its time periods. -/
def findById (db : AccountDatabase) (id : String) : Except Error (LoginPolicy × List TimePeriod) := do
  let policy ← LoginPolicyRepository.findById db id
  pure (policy, TimePeriodRepository.findByLoginPolicyId db id)

/-- The times of periods, without the ids that a write draws for them. -/
def times (periods : List TimePeriod) : List (Int × String) := periods.map fun t => (t.key, t.value)

/-- The policy reads back as it was submitted, with the submitted time periods. -/
def ReadsBack (db : AccountDatabase) (m : LoginPolicy) (periods : List TimePeriod) (id : String) :
    Prop :=
  ∃ stored, findById db id = .ok ({ m with id }, stored) ∧ (times stored).Perm (times periods)

/-- What a write to one policy leaves alone: the other policies, their time periods and the other
tables. -/
structure OthersKept (db db' : AccountDatabase) (id : String) : Prop where
  policies : ∀ p, p.id ≠ id → (p ∈ db'.loginPolicies ↔ p ∈ db.loginPolicies)
  timePeriods : ∀ t, t.loginPolicyId ≠ id → (t ∈ db'.timePeriods ↔ t ∈ db.timePeriods)
  tables : db' = { db with loginPolicies := db'.loginPolicies, timePeriods := db'.timePeriods }

/-- Whatever the database refuses: an update that returns no error is read back and leaves the rest
alone, and one that returns an error changes nothing. -/
def UpdateReadBack (db : AccountDatabase) (m : LoginPolicy) (periods : List TimePeriod)
    (uuid : Nat → String) (id : String) : Prop :=
  ∀ fails,
    match updateByIdTx fails db m periods uuid id with
    | (.ok (), db') => ReadsBack db' m periods id ∧ OthersKept db db' id
    | (.error _, db') => db' = db

/-- Every field that is submitted with its zero value is stored with it already. -/
structure ZerosStored (m p : LoginPolicy) : Prop where
  name : m.name = "" → p.name = ""
  ipGroup : m.ipGroup = "" → p.ipGroup = ""
  priority : m.priority = 0 → p.priority = 0
  enabled : m.enabled = false → p.enabled = false
  rule : m.rule = "" → p.rule = ""

/-- The update is not refused for the id, nor for the ids that are drawn for the time periods. -/
structure Accepts (db : AccountDatabase) (m : LoginPolicy) (periods : List TimePeriod)
    (uuid : Nat → String) (id : String) : Prop where
  addressed : id = "" → LoginPolicyRepository.IsBlank m
  distinct : ((drawTimePeriods uuid id periods).map TimePeriod.id).Nodup
  free : ∀ t ∈ drawTimePeriods uuid id periods, ∀ t' ∈ db.timePeriods,
    t'.loginPolicyId ≠ id → t'.id ≠ t.id

/-! ## Bindings -/

/-- The database calls of `Bind`; the items are numbered. -/
inductive BindStatement
  | existById (item : Nat)
  | deleteId (item : Nat)
  | createInBatches
  | commit
  deriving DecidableEq, Repr

/-- The reference that binds a user to a policy. -/
def userRef (loginPolicyId userId : String) : LoginPolicyUserRef :=
  { id := sign [userId, loginPolicyId], userId, loginPolicyId }

/-- The loop of `Bind` from item `i` on. A user who is unknown, or whom the query gives no answer
for, is passed over. -/
def bindItems (fails : BindStatement → Bool) (loginPolicyId : String) (i : Nat) :
    List String → AccountDatabase → List LoginPolicyUserRef →
      Except Error (AccountDatabase × List LoginPolicyUserRef)
  | [], db, results => .ok (db, results)
  | userId :: items, db, results =>
    if userId = "" then bindItems fails loginPolicyId (i + 1) items db results
    else
      match answered (fails (.existById i)) (.ok (UserRepository.existById db.toDatabase userId)) with
      | .ok true => do
        let ref := userRef loginPolicyId userId
        let db ← answered (fails (.deleteId i)) (.ok (LoginPolicyUserRefRepository.deleteId db ref.id))
        bindItems fails loginPolicyId (i + 1) items db (results ++ [ref])
      | _ => bindItems fails loginPolicyId (i + 1) items db results

/-- `Bind`; `fails` says which calls the database refuses. -/
def bindTx (fails : BindStatement → Bool) (db : AccountDatabase) (loginPolicyId : String)
    (userIds : List String) : Except Error Unit × AccountDatabase :=
  inTransaction (fails .commit) db fun db => do
    let (db, results) ← bindItems fails loginPolicyId 0 userIds db []
    if results.isEmpty then pure db
    else
      answered (fails .createInBatches) (LoginPolicyUserRefRepository.createInBatches db results)

/-- The listed users who exist, as often as they are listed. -/
def listedUsers (db : AccountDatabase) (userIds : List String) : List String :=
  userIds.filter fun id => id != "" && UserRepository.existById db.toDatabase id

/-- The references are the old ones and one for each listed user, and the rest is as before. -/
structure Bound (db db' : AccountDatabase) (loginPolicyId : String) (userIds : List String) :
    Prop where
  refs : ∀ r, r ∈ db'.loginPolicyUserRefs ↔ r ∈ db.loginPolicyUserRefs ∨
    ∃ userId ∈ listedUsers db userIds, r = userRef loginPolicyId userId
  once : ∀ userId ∈ listedUsers db userIds, ∀ r ∈ db'.loginPolicyUserRefs,
    r.userId = userId → r.loginPolicyId = loginPolicyId → r = userRef loginPolicyId userId
  tables : db' = { db with loginPolicyUserRefs := db'.loginPolicyUserRefs }

/-- The same rows, whatever their order. -/
structure SameRefs (db db' : AccountDatabase) : Prop where
  refs : ∀ r, r ∈ db'.loginPolicyUserRefs ↔ r ∈ db.loginPolicyUserRefs
  tables : db' = { db with loginPolicyUserRefs := db'.loginPolicyUserRefs }

/-- On a database that refuses nothing the call returns no error and binds the listed users, and
the same call again returns none and changes nothing. A call that returns an error changes nothing. -/
structure BindsOnce (db : AccountDatabase) (loginPolicyId : String) (userIds : List String) :
    Prop where
  binds : ∃ db', bindTx (fun _ => false) db loginPolicyId userIds = (.ok (), db') ∧
    Bound db db' loginPolicyId userIds ∧
    ∃ db'', bindTx (fun _ => false) db' loginPolicyId userIds = (.ok (), db'') ∧ SameRefs db' db''
  failed : ∀ fails e db', bindTx fails db loginPolicyId userIds = (.error e, db') → db' = db

/-- No two listed users, counted with repetitions, have the same key, and a stored reference has the
key of a listed user exactly when it is the one that binds the user to the policy. -/
structure KeysAgree (db : AccountDatabase) (loginPolicyId : String) (userIds : List String) :
    Prop where
  distinct : ((listedUsers db userIds).map fun id => sign [id, loginPolicyId]).Nodup
  stored : ∀ r ∈ db.loginPolicyUserRefs, ∀ userId ∈ listedUsers db userIds,
    (r.id = sign [userId, loginPolicyId] ↔ r.userId = userId ∧ r.loginPolicyId = loginPolicyId)

end LoginPolicyService

end NextDBM
