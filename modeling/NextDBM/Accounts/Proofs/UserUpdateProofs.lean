import NextDBM.Accounts.UserUpdate

/-!
# Proofs: what the update of a user changes

First what it takes for each part to return, and with what effect: the lookups, the roles, the whole
transaction (`updateUser_eq_ok`). Then the tables after the transaction: they are as they were exactly
when the body says nothing new, and only the user of the path is touched exactly when the body says
nothing new or names that user. `updateFramed_iff` puts this together for every point of failure.
-/

namespace NextDBM

namespace UserUpdate

open Relational Transaction

section

variable {db db' : Database} {uuid : Nat → String} {id : String} {item : User} {served : Option Nat}
  {w w' : World Database Memory}

/-! ## What returns -/

theorem write_eq_ok {f : Database → Except Error Database} :
    write f w = (.ok (), w') ↔ Serves w.served 1 ∧
      ∃ db, f w.db = .ok db ∧ w' = { w with db, served := spend 1 w.served } := by
  unfold write
  rw [Work.statement_eq_ok]
  refine and_congr_right fun _ => exists_congr fun db => and_congr_left fun _ => ?_
  cases f w.db with
  | error err => exact ⟨fun h => (by cases h), fun h => (by cases h)⟩
  | ok db₁ => simp [Except.map]

theorem read_eq_ok {α : Type} {f : Database → Except Error α} {a : α} :
    read f w = (.ok a, w') ↔ Serves w.served 1 ∧ f w.db = .ok a ∧
      w' = { w with served := spend 1 w.served } := by
  unfold read
  rw [Work.statement_eq_ok]
  refine and_congr_right fun _ => ?_
  cases f w.db with
  | error err => exact ⟨fun ⟨_, h, _⟩ => (by cases h), fun h => (by cases h.1)⟩
  | ok a₁ =>
    constructor
    · rintro ⟨db, h, rfl⟩
      obtain ⟨rfl, rfl⟩ := Prod.mk.inj (Except.ok.inj h)
      exact ⟨rfl, rfl⟩
    · rintro ⟨h, rfl⟩
      obtain rfl := Except.ok.inj h
      exact ⟨w.db, rfl, rfl⟩

/-- How many lookups there are: the name is looked up when it changes. -/
def lookups (u user : User) : Nat := if u.username = user.username then 1 else 2

theorem checkUsername_eq_ok : checkUsername id item w = (.ok (), w') ↔
    ∃ u, UserRepository.findById w.db id = .ok u ∧
      (u.username = item.username ∨ UserRepository.existByUsername w.db item.username = false) ∧
      Serves w.served (lookups u item) ∧
      w' = { w with served := spend (lookups u item) w.served } := by
  unfold checkUsername
  rw [Work.bind_ok]
  constructor
  · rintro ⟨u, w₁, hread, hrest⟩
    obtain ⟨hserves, hfind, rfl⟩ := read_eq_ok.mp hread
    refine ⟨u, hfind, ?_⟩
    by_cases hname : u.username = item.username
    · rw [if_neg (not_not.mpr hname)] at hrest
      cases hrest
      rw [lookups, if_pos hname]
      exact ⟨.inl hname, hserves, rfl⟩
    · rw [if_pos hname] at hrest
      obtain ⟨exist, w₂, hread₂, hrest⟩ := Work.bind_ok.mp hrest
      obtain ⟨hserves₂, hexist, rfl⟩ := read_eq_ok.mp hread₂
      obtain rfl := Except.ok.inj hexist
      cases hfree : UserRepository.existByUsername w.db item.username with
      | true =>
        rw [hfree, if_pos rfl] at hrest
        cases hrest
      | false =>
        rw [hfree, if_neg Bool.false_ne_true] at hrest
        cases hrest
        rw [lookups, if_neg hname]
        exact ⟨.inr rfl, serves_add.mpr ⟨hserves, hserves₂⟩, by rw [spend_spend]⟩
  · rintro ⟨u, hfind, hname, hserves, rfl⟩
    by_cases hsame : u.username = item.username
    · rw [lookups, if_pos hsame] at hserves ⊢
      refine ⟨u, _, read_eq_ok.mpr ⟨hserves, hfind, rfl⟩, ?_⟩
      rw [if_neg (not_not.mpr hsame)]
      rfl
    · rw [lookups, if_neg hsame] at hserves ⊢
      obtain ⟨hfirst, hsecond⟩ := (serves_add (m := 1) (n := 1)).mp hserves
      refine ⟨u, _, read_eq_ok.mpr ⟨hfirst, hfind, rfl⟩, ?_⟩
      rw [if_pos hsame, Work.bind_ok]
      refine ⟨_, _, read_eq_ok.mpr ⟨hsecond, rfl, rfl⟩, ?_⟩
      rw [hname.resolve_left hsame, if_neg Bool.false_ne_true, spend_spend]
      rfl

/-- The loop of `saveUserRoles` inserts the rows one by one. -/
theorem each_createRoleRef {refs : List UserRoleRef} :
    Work.each (fun ref => write (createRoleRef ref)) refs w = (.ok (), w') ↔
      Serves w.served refs.length ∧ ∃ t, w.db.userRoleRefs.insertAll refs = some t ∧
        w' = { w with db := { w.db with userRoleRefs := t }
                      served := spend refs.length w.served } := by
  induction refs generalizing w with
  | nil =>
    constructor
    · intro h
      obtain rfl : w = w' := (Prod.mk.inj h).2
      refine ⟨serves_zero _, w.db.userRoleRefs, rfl, ?_⟩
      obtain ⟨db, memory, served⟩ := w
      cases served <;> rfl
    · rintro ⟨-, t, ht, rfl⟩
      obtain rfl := Option.some.inj ht
      obtain ⟨db, memory, served⟩ := w
      cases served <;> rfl
  | cons ref refs ih =>
    have hunfold : Work.each (fun ref => write (createRoleRef ref)) (ref :: refs) =
        (write (createRoleRef ref) >>= fun _ =>
          Work.each (fun ref => write (createRoleRef ref)) refs) := rfl
    have hlen : (ref :: refs).length = 1 + refs.length := by rw [List.length_cons, Nat.add_comm]
    rw [hunfold, Work.bind_ok, hlen, serves_add]
    constructor
    · rintro ⟨⟨⟩, w₁, hwrite, hrest⟩
      obtain ⟨hserves, db, hcreate, rfl⟩ := write_eq_ok.mp hwrite
      obtain ⟨hrests, t, ht, rfl⟩ := ih.mp hrest
      unfold createRoleRef at hcreate
      split at hcreate
      · next t₁ hinsert =>
        obtain rfl := Except.ok.inj hcreate
        refine ⟨⟨hserves, hrests⟩, t, ?_, ?_⟩
        · rw [Table.insertAll, hinsert]
          exact ht
        · rw [spend_spend]
      · cases hcreate
    · rintro ⟨⟨hserves, hrests⟩, t, ht, rfl⟩
      rw [Table.insertAll] at ht
      obtain ⟨t₁, hinsert, ht⟩ := Option.bind_eq_some_iff.mp ht
      have hcreate : createRoleRef ref w.db = .ok { w.db with userRoleRefs := t₁ } := by
        rw [createRoleRef, hinsert]
      refine ⟨(), _, write_eq_ok.mpr ⟨hserves, _, hcreate, rfl⟩, ih.mpr ⟨hrests, t, ht, ?_⟩⟩
      rw [spend_spend]

theorem length_roleRefs : (roleRefs uuid item).length = item.roles.length := by
  rw [roleRefs, List.length_map, List.length_zipIdx]

theorem mem_roleRefs_userId {r : UserRoleRef} (h : r ∈ roleRefs uuid item) :
    r.userId = item.id ∧ ∃ i, r.id = uuid i := by
  obtain ⟨x, -, rfl⟩ := List.mem_map.mp h
  exact ⟨rfl, x.2, rfl⟩

/-- The tables after the transaction, with the new role references. -/
def written (db : Database) (item : User) (t : Table UserRoleRef UserRoleRef.id) : Database :=
  { db with
    userRoleRefs := t
    users := db.users.updateById item.id (UserRepository.assign item) (UserRepository.assign_id item) }

/-- The role references that the transaction writes. -/
def Saved (db : Database) (uuid : Nat → String) (item : User)
    (t : Table UserRoleRef UserRoleRef.id) : Prop :=
  (db.userRoleRefs.deleteWhere fun r => r.userId == item.id).insertAll (roleRefs uuid item) = some t

theorem statements_eq {u : User} (h : UserRepository.findById db id = .ok u) :
    statements db id item = lookups u item + (1 + (item.roles.length + (1 + 1))) := by
  have hfind : db.users.findById id = some u := firstOrNotFound_eq_ok.mp h
  rw [statements, hfind, Option.any_some, lookups]
  by_cases hname : u.username = item.username
  · rw [if_pos (beq_iff_eq.mpr hname), if_pos hname]
    omega
  · rw [if_neg (fun heq => hname (beq_iff_eq.mp heq)), if_neg hname]
    omega

/-- What the transaction takes, and what it leaves. -/
theorem updateUser_eq_ok (w : World Database Memory) :
    updateUser uuid id item w = (.ok (), w') ↔ Commits w.db id item w.served ∧
      ∃ t, Saved w.db uuid item t ∧ w' = {
        db := written w.db item t
        memory := { w.memory with manager := Function.update w.memory.manager id none }
        served := spend (statements w.db id item) w.served } := by
  unfold updateUser
  rw [Work.transaction_eq_ok]
  constructor
  · rintro ⟨w₅, hbody, hserves₅, rfl⟩
    obtain ⟨⟨⟩, w₁, hcheck, hbody⟩ := Work.bind_ok.mp hbody
    obtain ⟨u, hfind, hname, hserves₁, rfl⟩ := checkUsername_eq_ok.mp hcheck
    obtain ⟨⟨⟩, w₂, hdelete, hbody⟩ := Work.bind_ok.mp hbody
    obtain ⟨hserves₂, db₂, hdb₂, rfl⟩ := write_eq_ok.mp hdelete
    obtain rfl := Except.ok.inj hdb₂
    obtain ⟨⟨⟩, w₃, heach, hbody⟩ := Work.bind_ok.mp hbody
    obtain ⟨hserves₃, t, ht, rfl⟩ := each_createRoleRef.mp heach
    obtain ⟨⟨⟩, w₄, htouch, hupdate⟩ := Work.bind_ok.mp hbody
    rw [Work.touch_run] at htouch
    obtain rfl := (Prod.mk.inj htouch).2
    obtain ⟨hserves₄, db₄, hdb₄, rfl⟩ := write_eq_ok.mp hupdate
    unfold UserRepository.update at hdb₄
    split at hdb₄
    · cases hdb₄
    · next hkeyed =>
      obtain rfl := Except.ok.inj hdb₄
      obtain ⟨hu, hid⟩ := Table.findById_eq_some.mp (firstOrNotFound_eq_ok.mp hfind)
      rw [length_roleRefs] at hserves₃ hserves₄ hserves₅
      refine ⟨⟨⟨u, hu, hid, hname⟩, hkeyed, ?_⟩, t, ht, ?_⟩
      · rw [statements_eq hfind]
        exact serves_add.mpr ⟨hserves₁, serves_add.mpr ⟨hserves₂, serves_add.mpr
          ⟨hserves₃, serves_add.mpr ⟨hserves₄, hserves₅⟩⟩⟩⟩
      · rw [statements_eq hfind, length_roleRefs]
        simp only [spend_spend, written, Nat.add_assoc]
        rfl
  · rintro ⟨hcommits, t, ht, rfl⟩
    obtain ⟨u, hu, hid, hname⟩ := hcommits.found
    have hfind : UserRepository.findById w.db id = .ok u :=
      firstOrNotFound_eq_ok.mpr (Table.findById_eq_some.mpr ⟨hu, hid⟩)
    have hserves := hcommits.served
    rw [statements_eq hfind] at hserves ⊢
    obtain ⟨hserves₁, hserves⟩ := serves_add.mp hserves
    obtain ⟨hserves₂, hserves⟩ := serves_add.mp hserves
    obtain ⟨hserves₃, hserves⟩ := serves_add.mp hserves
    obtain ⟨hserves₄, hserves₅⟩ := serves_add.mp hserves
    have hupdate (db : Database) : UserRepository.update db item = .ok { db with
        users := db.users.updateById item.id (UserRepository.assign item)
          (UserRepository.assign_id item) } := if_neg hcommits.keyed
    refine ⟨{
      db := written w.db item t
      memory := { w.memory with manager := Function.update w.memory.manager id none }
      served := spend 1 (spend item.roles.length (spend 1 (spend (lookups u item) w.served))) },
      ?_, hserves₅, ?_⟩
    · refine Work.bind_ok.mpr ⟨(), _, checkUsername_eq_ok.mpr ⟨u, hfind, hname, hserves₁, rfl⟩, ?_⟩
      refine Work.bind_ok.mpr ⟨(), _, write_eq_ok.mpr ⟨hserves₂, _, rfl, rfl⟩, ?_⟩
      refine Work.bind_ok.mpr ⟨(), _, each_createRoleRef.mpr ⟨?_, t, ht, rfl⟩, ?_⟩
      · rw [length_roleRefs]
        exact hserves₃
      · refine Work.bind_ok.mpr ⟨(), _, Work.touch_run _ _, write_eq_ok.mpr ⟨?_, _, hupdate _, ?_⟩⟩
        · rw [length_roleRefs]
          exact hserves₄
        · rw [length_roleRefs]
          rfl
    · simp only [spend_spend, Nat.add_assoc]

/-- Without faults the transaction is the one that `UserService.updateUser` computes. -/
theorem updateUser_run_iff (memory : Memory) :
    (∃ w', updateUser uuid id item ⟨db, memory, none⟩ = (.ok (), w') ∧ w'.db = db') ↔
      UserService.updateUser db uuid id item = .ok db' := by
  have hpure : UserService.updateUser db uuid id item = .ok db' ↔
      Commits db id item none ∧ ∃ t, Saved db uuid item t ∧ db' = written db item t := by
    unfold UserService.updateUser UserService.updateUserRoles
    rw [bind_eq_ok]
    constructor
    · rintro ⟨db₁, hroles, hupdate⟩
      obtain ⟨u, hfind, hroles⟩ := bind_eq_ok.mp hroles
      obtain ⟨hu, hid⟩ := Table.findById_eq_some.mp (firstOrNotFound_eq_ok.mp hfind)
      split at hroles
      · cases hroles
      · next hname =>
        unfold UserService.saveUserRoles at hroles
        dsimp only at hroles
        split at hroles
        · next t ht =>
          obtain rfl := Except.ok.inj hroles
          unfold UserRepository.update at hupdate
          split at hupdate
          · cases hupdate
          · next hkeyed =>
            obtain rfl := Except.ok.inj hupdate
            refine ⟨⟨⟨u, hu, hid, ?_⟩, hkeyed, serves_none _⟩, t, ht, rfl⟩
            rwa [not_and_or, not_not, Bool.not_eq_true] at hname
        · cases hroles
    · rintro ⟨hcommits, t, ht, rfl⟩
      obtain ⟨u, hu, hid, hname⟩ := hcommits.found
      have hfind : UserRepository.findById db id = .ok u :=
        firstOrNotFound_eq_ok.mpr (Table.findById_eq_some.mpr ⟨hu, hid⟩)
      refine ⟨{ db with userRoleRefs := t }, bind_eq_ok.mpr ⟨u, hfind, ?_⟩, if_neg hcommits.keyed⟩
      rw [if_neg (by rwa [not_and_or, not_not, Bool.not_eq_true])]
      unfold Saved roleRefs at ht
      unfold UserService.saveUserRoles UserRoleRefRepository.deleteByUserId
      dsimp only
      rw [ht]
  rw [hpure]
  constructor
  · rintro ⟨w', hrun, rfl⟩
    obtain ⟨hcommits, t, ht, rfl⟩ := (updateUser_eq_ok _).mp hrun
    exact ⟨hcommits, t, ht, rfl⟩
  · rintro ⟨hcommits, t, ht, rfl⟩
    exact ⟨_, (updateUser_eq_ok _).mpr ⟨hcommits, t, ht, rfl⟩, rfl⟩

/-! ## The memberships -/

/-- The table without the memberships of the user. -/
def withoutMemberships (db : Database) (id : String) : Table UserGroupMember UserGroupMember.id :=
  db.userGroupMembers.deleteWhere fun m => m.userId == id

/-- The two statements after the transaction. -/
def replaceMemberships (uuid : Nat → String) (id : String) (item : User) : UpdateWork Unit := do
  drop (write fun db => .ok (UserGroupMemberRepository.deleteByUserId db id))
  drop (write fun db => UserGroupMemberRepository.create db (membership uuid id item))

theorem drop_write {f : Database → Except Error Database} (hserves : Serves w.served 1)
    (h : f w.db = .ok db) :
    drop (write f) w = (.ok (), { w with db, served := spend 1 w.served }) := by
  unfold drop
  rw [write_eq_ok.mpr ⟨hserves, db, h, rfl⟩]

/-- A statement that is not served leaves an error behind. -/
theorem drop_write_unserved {f : Database → Except Error Database} (hserves : ¬ Serves w.served 1) :
    drop (write f) w = (.ok (), { w with
      memory := { w.memory with dropped := databaseFault :: w.memory.dropped } }) := by
  have hzero : w.served = some 0 := not_not.mp fun hne => hserves (serves_one.mpr hne)
  have hwrite : write f w = (.error databaseFault, w) := by
    unfold write Work.statement
    rw [hzero]
    rfl
  unfold drop
  rw [hwrite]

/-- Both statements are served, or the removal only, or none. -/
theorem replaceMemberships_cases (w : World Database Memory)
    (hinsert : ∃ t, (withoutMemberships w.db id).insert (membership uuid id item) = some t)
    (hdropped : w.memory.dropped = []) :
    (Serves w.served 2 ∧ ∃ t w', (withoutMemberships w.db id).insert (membership uuid id item) = some t ∧
      replaceMemberships uuid id item w = (.ok (), w') ∧ w'.memory.dropped = [] ∧
      w'.db = { w.db with userGroupMembers := t }) ∨
    (Serves w.served 1 ∧ ¬ Serves w.served 2 ∧ ∃ w',
      replaceMemberships uuid id item w = (.ok (), w') ∧ w'.memory.dropped ≠ [] ∧
      w'.db = { w.db with userGroupMembers := withoutMemberships w.db id }) ∨
    (¬ Serves w.served 1 ∧ ∃ w', replaceMemberships uuid id item w = (.ok (), w') ∧
      w'.memory.dropped ≠ [] ∧ w'.db = w.db) := by
  obtain ⟨t, ht⟩ := hinsert
  have htwo : Serves w.served 2 ↔ Serves w.served 1 ∧ Serves (spend 1 w.served) 1 :=
    serves_add (m := 1) (n := 1)
  by_cases hone : Serves w.served 1
  · have hdelete := drop_write (f := fun db => .ok (UserGroupMemberRepository.deleteByUserId db id))
      hone rfl
    by_cases hserves : Serves (spend 1 w.served) 1
    · have hcreate : UserGroupMemberRepository.create
          (UserGroupMemberRepository.deleteByUserId w.db id) (membership uuid id item) =
          .ok { w.db with userGroupMembers := t } := by
        unfold withoutMemberships at ht
        unfold UserGroupMemberRepository.create UserGroupMemberRepository.deleteByUserId
        rw [ht]
      exact .inl ⟨htwo.mpr ⟨hone, hserves⟩, t, _, ht,
        (Work.bind_run_ok hdelete).trans (drop_write hserves hcreate), hdropped, rfl⟩
    · exact .inr (.inl ⟨hone, fun h => hserves (htwo.mp h).2, _,
        (Work.bind_run_ok hdelete).trans (drop_write_unserved hserves), List.cons_ne_nil _ _, rfl⟩)
  · have hdelete := drop_write_unserved
      (f := fun db => .ok (UserGroupMemberRepository.deleteByUserId db id)) hone
    exact .inr (.inr ⟨hone, _, (Work.bind_run_ok hdelete).trans (drop_write_unserved hone),
      List.cons_ne_nil _ _, rfl⟩)

/-! ## The tables after the transaction -/

section Written

variable {t : Table UserRoleRef UserRoleRef.id}

theorem mem_saved (ht : Saved db uuid item t) {r : UserRoleRef} :
    r ∈ t ↔ r ∈ roleRefs uuid item ∨ r ∈ db.userRoleRefs ∧ r.userId ≠ item.id := by
  rw [Table.mem_of_insertAll ht, Table.mem_deleteWhere, beq_eq_false_iff_ne]

/-- Drawn ids that are new can be inserted. -/
theorem exists_saved (hnew : NewIds db uuid) : ∃ t, Saved db uuid item t := by
  refine Table.exists_insertAll ?_ ?_
  · have hkeys : (roleRefs uuid item).map UserRoleRef.id = (List.range item.roles.length).map uuid := by
      rw [roleRefs, List.map_map, List.range_eq_range', ← List.zipIdx_map_snd 0 item.roles,
        List.map_map]
      rfl
    rw [hkeys]
    exact List.nodup_range.map hnew.injective
  · intro a ha b hb heq
    obtain ⟨-, i, hi⟩ := mem_roleRefs_userId ha
    exact hnew.roles b (Table.mem_deleteWhere.mp hb).1 i (heq.trans hi)

theorem exists_insert_membership (hnew : NewIds db uuid) :
    ∃ t, (withoutMemberships db id).insert (membership uuid id item) = some t := by
  cases hinsert : (withoutMemberships db id).insert (membership uuid id item) with
  | some t => exact ⟨t, rfl⟩
  | none =>
    obtain ⟨m, hm, heq⟩ := Table.insert_eq_none.mp hinsert
    exact absurd heq (hnew.memberships m (Table.mem_deleteWhere.mp hm).1 _)

/-- A body that says nothing new leaves the tables as they are. -/
theorem Idle.written_eq (h : Idle db item) (ht : Saved db uuid item t) : written db item t = db := by
  have hrefs : roleRefs uuid item = [] := by
    rw [roleRefs, h.roles.1]
    rfl
  have hdelete : (db.userRoleRefs.deleteWhere fun r => r.userId == item.id) = db.userRoleRefs :=
    Table.deleteWhere_eq_self fun r hr => beq_eq_false_iff_ne.mpr (h.roles.2 r hr)
  have hsame : t = db.userRoleRefs := by
    unfold Saved at ht
    rw [hrefs, hdelete] at ht
    exact (Option.some.inj ht).symm
  unfold written
  rw [hsame, Table.updateById_eq_self (UserRepository.assign_id item) h.row]

/-- The body says nothing new when no new row is written and the row that it names stays. -/
theorem idle_of_kept (hnew : NewIds db uuid) (ht : Saved db uuid item t)
    (hroles : ∀ r : UserRoleRef, r.userId = item.id → (r ∈ t ↔ r ∈ db.userRoleRefs))
    (hrow : ∀ u ∈ db.users, u.id = item.id → u ∈ (written db item t).users) : Idle db item := by
  have hnone : roleRefs uuid item = [] := by
    rw [List.eq_nil_iff_forall_not_mem]
    intro r hr
    obtain ⟨huser, i, hi⟩ := mem_roleRefs_userId hr
    exact hnew.roles r ((hroles r huser).mp ((mem_saved ht).mpr (.inl hr))) i hi
  constructor
  case roles =>
    refine ⟨List.length_eq_zero_iff.mp ?_, fun r hr huser => ?_⟩
    · rw [← @length_roleRefs uuid item, hnone, List.length_nil]
    · rcases (mem_saved ht).mp ((hroles r huser).mpr hr) with hold | ⟨-, hne⟩
      · rw [hnone] at hold
        exact List.not_mem_nil hold
      · exact hne huser
  case row =>
    intro u hu hid
    obtain ⟨v, hv, hvid, heq⟩ := Table.exists_of_mem_updateById (UserRepository.assign_id item)
      (hrow u hu hid) hid
    obtain rfl : u = v := Table.eq_of_key hu hv (hid.trans hvid.symm)
    exact heq.symm

/-- The transaction touches the user of the body only. -/
theorem onlyOf_written (ht : Saved db uuid item t) : OnlyOf item.id db (written db item t) where
  users u hne := by
    constructor
    · intro hu
      rcases Table.mem_updateById (UserRepository.assign_id item) hu with hu | ⟨v, -, hid, rfl⟩
      · exact hu
      · exact absurd hid hne
    · exact fun hu => Table.mem_updateById_of_ne hu hne _ (UserRepository.assign_id item)
  roles r hne := by
    show r ∈ t ↔ r ∈ db.userRoleRefs
    rw [mem_saved ht]
    constructor
    · rintro (hr | ⟨hr, -⟩)
      · exact absurd (mem_roleRefs_userId hr).1 hne
      · exact hr
    · exact fun hr => .inr ⟨hr, hne⟩
  memberships m _ := Iff.rfl
  rest := rfl

/-- Whatever becomes of the memberships of the user of the path. -/
theorem onlyOf_with_memberships (h : OnlyOf id db db') {ms : Table UserGroupMember UserGroupMember.id}
    (hms : ∀ m : UserGroupMember, m.userId ≠ id → (m ∈ ms ↔ m ∈ db'.userGroupMembers)) :
    OnlyOf id db { db' with userGroupMembers := ms } where
  users := h.users
  roles := h.roles
  memberships m hne := (hms m hne).trans (h.memberships m hne)
  rest := h.rest

theorem onlyOf_refl (id : String) (db : Database) : OnlyOf id db db :=
  ⟨fun _ _ => Iff.rfl, fun _ _ => Iff.rfl, fun _ _ => Iff.rfl, rfl⟩

/-- Only the user of the path is touched exactly when the body names that user or says nothing new. -/
theorem onlyOf_written_iff (hnew : NewIds db uuid) (ht : Saved db uuid item t)
    {ms : Table UserGroupMember UserGroupMember.id}
    (hms : ∀ m : UserGroupMember, m.userId ≠ id → (m ∈ ms ↔ m ∈ db.userGroupMembers)) :
    OnlyOf id db { written db item t with userGroupMembers := ms } ↔ item.id = id ∨ Idle db item := by
  constructor
  · intro h
    by_cases hid : item.id = id
    · exact .inl hid
    · refine .inr (idle_of_kept hnew ht (fun r hr => h.roles r fun heq => hid (hr.symm.trans heq)) ?_)
      intro u hu huid
      exact (h.users u fun heq => hid (huid.symm.trans heq)).mpr hu
  · rintro (rfl | hidle)
    · exact onlyOf_with_memberships (onlyOf_written ht) hms
    · rw [hidle.written_eq ht]
      exact onlyOf_with_memberships (onlyOf_refl id db) hms

/-- The tables are as they were exactly when the body says nothing new. -/
theorem written_eq_iff (hnew : NewIds db uuid) (ht : Saved db uuid item t) :
    written db item t = db ↔ Idle db item := by
  constructor
  · intro h
    have hroles : t = db.userRoleRefs := congrArg Database.userRoleRefs h
    refine idle_of_kept hnew ht (fun r _ => by rw [hroles]) fun u hu _ => ?_
    rw [h]
    exact hu
  · exact fun h => h.written_eq ht

end Written

/-! ## The request -/

/-- A body that cannot be read is answered with the error. -/
theorem answer_error (err : Error) :
    answer db uuid id (.error err) served = (.error err, ⟨db, {}, served⟩) := rfl

/-- A transaction that does not go through answers the request. -/
theorem answer_of_not_commits (uuid : Nat → String) (h : ¬ Commits db id item served) :
    ∃ err, (answer db uuid id (.ok item) served).1 = .error err ∧
      (answer db uuid id (.ok item) served).2.db = db := by
  have hanswer : answer db uuid id (.ok item) served =
      (updateUser uuid id item >>= fun _ => replaceMemberships uuid id item) ⟨db, {}, served⟩ := rfl
  rcases hrun : updateUser uuid id item ⟨db, {}, served⟩ with ⟨r, w'⟩
  cases r with
  | ok _ => exact absurd ((updateUser_eq_ok _).mp hrun).1 h
  | error err =>
    rw [hanswer, Work.bind_run_error hrun]
    exact ⟨err, rfl, Work.transaction_error hrun⟩

/-- After the transaction the memberships are replaced, or removed, or left. -/
theorem answer_of_commits (hnew : NewIds db uuid) (h : Commits db id item served) :
    ∃ t, Saved db uuid item t ∧ ∃ w', answer db uuid id (.ok item) served = (.ok (), w') ∧
      ((Serves served (statements db id item + 2) ∧ w'.memory.dropped = [] ∧
          ∃ ms, (withoutMemberships db id).insert (membership uuid id item) = some ms ∧
            w'.db = { written db item t with userGroupMembers := ms }) ∨
        (Serves served (statements db id item + 1) ∧ ¬ Serves served (statements db id item + 2) ∧
          w'.memory.dropped ≠ [] ∧
          w'.db = { written db item t with userGroupMembers := withoutMemberships db id }) ∨
        (¬ Serves served (statements db id item + 1) ∧ w'.memory.dropped ≠ [] ∧
          w'.db = written db item t)) := by
  obtain ⟨t, ht⟩ := exists_saved hnew
  have hanswer : answer db uuid id (.ok item) served =
      (updateUser uuid id item >>= fun _ => replaceMemberships uuid id item) ⟨db, {}, served⟩ := rfl
  have hrun : updateUser uuid id item ⟨db, {}, served⟩ = (.ok (), {
      db := written db item t
      memory := { manager := Function.update (fun _ => none) id none }
      served := spend (statements db id item) served }) :=
    (updateUser_eq_ok _).mpr ⟨h, t, ht, rfl⟩
  have hone : Serves served (statements db id item + 1) ↔
      Serves (spend (statements db id item) served) 1 :=
    serves_add.trans (and_iff_right h.served)
  have htwo : Serves served (statements db id item + 2) ↔
      Serves (spend (statements db id item) served) 2 :=
    serves_add.trans (and_iff_right h.served)
  refine ⟨t, ht, ?_⟩
  rw [hanswer, Work.bind_run_ok hrun, hone, htwo]
  have hinsert : ∃ ms, (withoutMemberships db id).insert
      (membership uuid id item) = some ms := exists_insert_membership hnew
  rcases replaceMemberships_cases {
      db := written db item t
      memory := { manager := Function.update (fun _ => none) id none }
      served := spend (statements db id item) served } hinsert rfl with
    ⟨hserves, ms, w', hms, hdone, hdropped, hdb⟩ | ⟨hserves, hstop, w', hdone, hdropped, hdb⟩ |
    ⟨hstop, w', hdone, hdropped, hdb⟩
  · exact ⟨w', hdone, .inl ⟨hserves, hdropped, ms, hms, hdb⟩⟩
  · exact ⟨w', hdone, .inr (.inl ⟨hserves, hstop, hdropped, hdb⟩)⟩
  · exact ⟨w', hdone, .inr (.inr ⟨hstop, hdropped, hdb⟩)⟩

/-- Memberships of other users stay when those of a user are replaced. -/
theorem mem_replaced {ms : Table UserGroupMember UserGroupMember.id}
    (h : (withoutMemberships db id).insert (membership uuid id item) = some ms)
    {m : UserGroupMember} (hne : m.userId ≠ id) : m ∈ ms ↔ m ∈ db.userGroupMembers := by
  rw [Table.mem_of_insert h, withoutMemberships, Table.mem_deleteWhere, beq_eq_false_iff_ne]
  constructor
  · rintro (rfl | ⟨hm, -⟩)
    · exact absurd rfl hne
    · exact hm
  · exact fun hm => .inr ⟨hm, hne⟩

theorem mem_withoutMemberships {m : UserGroupMember} (hne : m.userId ≠ id) :
    m ∈ withoutMemberships db id ↔ m ∈ db.userGroupMembers := by
  rw [withoutMemberships, Table.mem_deleteWhere, beq_eq_false_iff_ne]
  exact and_iff_left hne

/-- When the tables after the removal are the ones before, the body says nothing new and the user has no
membership. -/
theorem removed_eq_iff (hnew : NewIds db uuid) {t : Table UserRoleRef UserRoleRef.id}
    (ht : Saved db uuid item t) :
    { written db item t with userGroupMembers := withoutMemberships db id } = db ↔
      Idle db item ∧ ∀ m ∈ db.userGroupMembers, m.userId ≠ id := by
  constructor
  · intro h
    have hmembers : withoutMemberships db id = db.userGroupMembers :=
      congrArg Database.userGroupMembers h
    refine ⟨(written_eq_iff hnew ht).mp ?_, fun m hm => ?_⟩
    · have hsame : { written db item t with userGroupMembers := withoutMemberships db id } =
          written db item t := by
        rw [hmembers]
        rfl
      exact hsame.symm.trans h
    · rw [← hmembers] at hm
      exact beq_eq_false_iff_ne.mp (Table.mem_deleteWhere.mp hm).2
  · rintro ⟨hidle, hnone⟩
    have hmembers : withoutMemberships db id = db.userGroupMembers :=
      Table.deleteWhere_eq_self fun m hm => beq_eq_false_iff_ne.mpr (hnone m hm)
    rw [hmembers, hidle.written_eq ht]

end

/-! ## A body with another id -/

theorem nodup_annAndBob :
    ([{ id := "u1", username := "ann" }, { id := "u2", username := "bob" }].map User.id).Nodup := by decide

def annAndBob : Database :=
  { users := ⟨[{ id := "u1", username := "ann" }, { id := "u2", username := "bob" }], nodup_annAndBob⟩ }

/-- Ids of ever more letters. -/
def letters (i : Nat) : String := String.ofList (List.replicate i 'x')

theorem letters_injective : Function.Injective letters := by
  intro i j h
  have hlist := String.ofList_injective h
  simpa using congrArg List.length hlist

end UserUpdate

end NextDBM
