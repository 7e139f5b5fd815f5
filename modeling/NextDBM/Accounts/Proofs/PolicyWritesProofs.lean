import NextDBM.Accounts.PolicyWrites
import NextDBM.Library.NaturalKeys

/-!
# Proofs: writing login policies

An update reads back exactly when the partial update of the row leaves no old value in a field that
was submitted empty; the time periods always do. Binding goes through exactly when the listed users
have distinct keys, and is faithful when these keys are those of their own references.
-/

namespace NextDBM

open Relational

/-! ## Transactions -/

section Transactions

variable {α : Type} {fails : Bool} {db db' : AccountDatabase} {e : Error}
  {body : AccountDatabase → Except Error AccountDatabase}

theorem answered_eq_ok {x : Except Error α} {a : α} :
    answered fails x = .ok a ↔ fails = false ∧ x = .ok a := by
  unfold answered
  cases fails with
  | false => exact ⟨fun h => ⟨rfl, h⟩, And.right⟩
  | true => exact ⟨fun h => (by cases h), fun h => (by cases h.1)⟩

theorem inTransaction_eq_ok :
    inTransaction fails db body = (.ok (), db') ↔ fails = false ∧ body db = .ok db' := by
  unfold inTransaction
  cases body db with
  | error e => exact ⟨fun h => (by cases h), fun h => (by cases h.2)⟩
  | ok db₁ =>
    cases fails with
    | true => exact ⟨fun h => (by cases h), fun h => (by cases h.1)⟩
    | false =>
      constructor
      · intro h
        cases h
        exact ⟨rfl, rfl⟩
      · rintro ⟨-, h⟩
        cases h
        rfl

/-- A transaction that fails is rolled back. -/
theorem inTransaction_error (h : inTransaction fails db body = (.error e, db')) : db' = db := by
  unfold inTransaction at h
  split at h
  · cases h
    rfl
  · split at h
    · cases h
      rfl
    · cases h

/-- A batched insert returns the table with all rows, or an error. -/
theorem inserted_eq_ok {r : α × Bool} {f : α → AccountDatabase} {x : Except Error AccountDatabase}
    (hok : r.2 = true → x = .ok (f r.1)) (herror : r.2 = false → x = .error .duplicatedKey) :
    x = .ok db' ↔ ∃ t, r = (t, true) ∧ db' = f t := by
  rcases r with ⟨t, inserted⟩
  cases inserted with
  | true =>
    rw [hok rfl]
    constructor
    · intro h
      exact ⟨t, rfl, (Except.ok.inj h).symm⟩
    · rintro ⟨t', heq, rfl⟩
      cases heq
      rfl
  | false =>
    rw [herror rfl]
    constructor
    · intro h
      cases h
    · rintro ⟨t', heq, -⟩
      cases heq

end Transactions

namespace LoginPolicyService

/-! ## Updates -/

section Update

variable {db db' : AccountDatabase} {m p : LoginPolicy} {periods : List TimePeriod}
  {uuid : Nat → String} {id : String} {fails : UpdateStatement → Bool}

theorem createTimePeriods_eq_ok : TimePeriodRepository.createInBatches db periods = .ok db' ↔
    ∃ timePeriods, db.timePeriods.insertInBatches 7 periods = (timePeriods, true) ∧
      db' = { db with timePeriods } := by
  unfold TimePeriodRepository.createInBatches
  rcases db.timePeriods.insertInBatches 7 periods with ⟨t, inserted⟩
  refine inserted_eq_ok ?_ ?_
  · rintro rfl
    rfl
  · rintro rfl
    rfl

/-- An update that returns no error did what it does on a database that refuses nothing. -/
theorem updateByIdTx_eq_ok : updateByIdTx fails db m periods uuid id = (.ok (), db') →
    updateById db m periods uuid id = .ok db' := by
  intro h
  obtain ⟨-, hbody⟩ := inTransaction_eq_ok.mp h
  obtain ⟨db₁, hupdate, hbody⟩ := bind_eq_ok.mp hbody
  obtain ⟨db₂, hdelete, hbody⟩ := bind_eq_ok.mp hbody
  obtain ⟨-, hupdate⟩ := answered_eq_ok.mp hupdate
  obtain ⟨-, hdelete⟩ := answered_eq_ok.mp hdelete
  obtain rfl := Except.ok.inj hdelete
  refine bind_eq_ok.mpr ⟨db₁, hupdate, ?_⟩
  cases periods with
  | nil => exact hbody
  | cons t periods => exact (answered_eq_ok.mp hbody).2

theorem updateByIdTx_served (h : updateById db m periods uuid id = .ok db') :
    updateByIdTx (fun _ => false) db m periods uuid id = (.ok (), db') := by
  refine inTransaction_eq_ok.mpr ⟨rfl, ?_⟩
  obtain ⟨db₁, hupdate, hcreate⟩ := bind_eq_ok.mp h
  refine bind_eq_ok.mpr ⟨db₁, answered_eq_ok.mpr ⟨rfl, hupdate⟩, ?_⟩
  refine bind_eq_ok.mpr ⟨_, answered_eq_ok.mpr ⟨rfl, rfl⟩, ?_⟩
  cases periods with
  | nil => exact hcreate
  | cons t periods => exact answered_eq_ok.mpr ⟨rfl, hcreate⟩

/-- What an update writes: the row of the policy, and its time periods in place of the old ones. -/
theorem updateById_eq_ok : updateById db m periods uuid id = .ok db' ↔
    (id = "" → LoginPolicyRepository.IsBlank m) ∧
      ∃ timePeriods,
        (db.timePeriods.deleteWhere fun t => t.loginPolicyId == id).insertInBatches 7
          (drawTimePeriods uuid id periods) = (timePeriods, true) ∧
        db' = { db with
          loginPolicies := db.loginPolicies.updateById id (LoginPolicyRepository.assign m)
            (LoginPolicyRepository.assign_id m)
          timePeriods } := by
  unfold updateById
  rw [bind_eq_ok]
  constructor
  · rintro ⟨db₁, hupdate, hcreate⟩
    obtain ⟨timePeriods, hinsert, rfl⟩ := createTimePeriods_eq_ok.mp hcreate
    rw [LoginPolicyRepository.updateById] at hupdate
    split at hupdate
    · cases hupdate
    · next hid =>
      obtain rfl := Except.ok.inj hupdate
      exact ⟨fun hblank => not_not.mp fun hm => hid ⟨hblank, hm⟩, timePeriods, hinsert, rfl⟩
  · rintro ⟨hid, timePeriods, hinsert, rfl⟩
    refine ⟨{ db with
      loginPolicies := db.loginPolicies.updateById id (LoginPolicyRepository.assign m)
        (LoginPolicyRepository.assign_id m) }, ?_,
      createTimePeriods_eq_ok.mpr ⟨timePeriods, hinsert, rfl⟩⟩
    rw [LoginPolicyRepository.updateById, if_neg fun h => h.2 (hid h.1)]

/-- An update goes through when the id and the drawn ids allow it. -/
theorem exists_updateById :
    (∃ db', updateById db m periods uuid id = .ok db') ↔ Accepts db m periods uuid id := by
  have hinsert : (∃ timePeriods, (db.timePeriods.deleteWhere fun t =>
        t.loginPolicyId == id).insertInBatches 7 (drawTimePeriods uuid id periods) =
          (timePeriods, true)) ↔
      ((drawTimePeriods uuid id periods).map TimePeriod.id).Nodup ∧
        ∀ t ∈ drawTimePeriods uuid id periods, ∀ t' ∈ db.timePeriods.deleteWhere fun t =>
          t.loginPolicyId == id, t'.id ≠ t.id := by
    rw [← Table.insertStatements_eq_true]
    constructor
    · rintro ⟨timePeriods, h⟩
      exact congrArg Prod.snd h
    · intro h
      exact ⟨_, Prod.ext rfl h⟩
  constructor
  · rintro ⟨db', h⟩
    obtain ⟨hid, timePeriods, h, -⟩ := updateById_eq_ok.mp h
    obtain ⟨hdistinct, hfree⟩ := hinsert.mp ⟨timePeriods, h⟩
    refine ⟨hid, hdistinct, fun t ht t' ht' hne => hfree t ht t' ?_⟩
    exact Table.mem_deleteWhere.mpr ⟨ht', beq_false_of_ne hne⟩
  · rintro ⟨hid, hdistinct, hfree⟩
    obtain ⟨timePeriods, h⟩ := hinsert.mpr ⟨hdistinct, fun t ht t' ht' => by
      obtain ⟨ht', hne⟩ := Table.mem_deleteWhere.mp ht'
      exact hfree t ht t' ht' (ne_of_beq_false hne)⟩
    exact ⟨_, updateById_eq_ok.mpr ⟨hid, timePeriods, h, rfl⟩⟩

/-- A partial update writes the whole policy when it leaves nothing of the old one. -/
theorem assign_eq_iff : LoginPolicyRepository.assign m p = { m with id := p.id } ↔
    ZerosStored m p := by
  have htext (a b : String) : nonZero a b = a ↔ (a = "" → b = "") := by
    unfold nonZero
    by_cases ha : a = ""
    · rw [if_pos ha, ha]
      exact ⟨fun hb _ => hb, fun hb => hb rfl⟩
    · rw [if_neg ha]
      exact ⟨fun _ hblank => absurd hblank ha, fun _ => rfl⟩
  have hpriority : (if m.priority = 0 then p.priority else m.priority) = m.priority ↔
      (m.priority = 0 → p.priority = 0) := by
    by_cases hzero : m.priority = 0
    · rw [if_pos hzero, hzero]
      exact ⟨fun hp _ => hp, fun hp => hp rfl⟩
    · rw [if_neg hzero]
      exact ⟨fun _ h => absurd h hzero, fun _ => rfl⟩
  have henabled : (m.enabled || p.enabled) = m.enabled ↔ (m.enabled = false → p.enabled = false) := by
    cases m.enabled <;> simp
  unfold LoginPolicyRepository.assign
  rw [LoginPolicy.mk.injEq]
  constructor
  · rintro ⟨-, hname, hip, hprio, hen, hrule⟩
    exact ⟨(htext _ _).mp hname, (htext _ _).mp hip, hpriority.mp hprio, henabled.mp hen,
      (htext _ _).mp hrule⟩
  · rintro ⟨hname, hip, hprio, hen, hrule⟩
    exact ⟨rfl, (htext _ _).mpr hname, (htext _ _).mpr hip, hpriority.mpr hprio, henabled.mpr hen,
      (htext _ _).mpr hrule⟩

theorem times_drawTimePeriods (uuid : Nat → String) (id : String) (periods : List TimePeriod) :
    times (drawTimePeriods uuid id periods) = times periods := by
  unfold times drawTimePeriods
  rw [List.map_map]
  conv_rhs => rw [← List.zipIdx_map_fst 0 periods, List.map_map]
  rfl

theorem loginPolicyId_of_mem_draw {t : TimePeriod} (ht : t ∈ drawTimePeriods uuid id periods) :
    t.loginPolicyId = id := by
  obtain ⟨x, -, rfl⟩ := List.mem_map.mp ht
  rfl

/-- The time periods of a policy after an update are the submitted ones. -/
theorem perm_times {t : Table TimePeriod TimePeriod.id}
    (h : (db.timePeriods.deleteWhere fun t => t.loginPolicyId == id).insertInBatches 7
      (drawTimePeriods uuid id periods) = (t, true)) :
    (times (t.rows.filter fun period => period.loginPolicyId == id)).Perm (times periods) := by
  have hdistinct : ((drawTimePeriods uuid id periods).map TimePeriod.id).Nodup :=
    (Table.insertStatements_eq_true.mp (congrArg Prod.snd h)).1
  rw [← times_drawTimePeriods uuid id periods]
  refine List.Perm.map _ ((List.perm_ext_iff_of_nodup ?_ hdistinct.of_map).mpr fun b => ?_)
  · exact t.nodup.of_map.filter _
  · rw [List.mem_filter, ← Table.mem_def, Table.mem_of_insertStatements_true h,
      Table.mem_deleteWhere]
    constructor
    · rintro ⟨hb | ⟨-, hother⟩, hid⟩
      · exact hb
      · rw [hother] at hid
        cases hid
    · intro hb
      exact ⟨.inl hb, beq_iff_eq.mpr (loginPolicyId_of_mem_draw hb)⟩

/-- An update that goes through leaves the rest alone. -/
theorem othersKept (h : updateById db m periods uuid id = .ok db') : OthersKept db db' id := by
  obtain ⟨-, timePeriods, hinsert, rfl⟩ := updateById_eq_ok.mp h
  refine ⟨fun p hp => ?_, fun t ht => ?_, rfl⟩
  · constructor
    · intro hmem
      rcases Table.mem_updateById (LoginPolicyRepository.assign_id m) hmem with hmem | ⟨q, -, hq, rfl⟩
      · exact hmem
      · exact absurd hq hp
    · exact fun hmem => Table.mem_updateById_of_ne hmem hp _ (LoginPolicyRepository.assign_id m)
  · show t ∈ timePeriods ↔ t ∈ db.timePeriods
    rw [Table.mem_of_insertStatements_true hinsert, Table.mem_deleteWhere]
    constructor
    · rintro (hmem | ⟨hmem, -⟩)
      · exact absurd (loginPolicyId_of_mem_draw hmem) ht
      · exact hmem
    · exact fun hmem => .inr ⟨hmem, beq_false_of_ne ht⟩

/-- What is read back after an update of a stored policy. -/
theorem policyReadsBack_iff (hp : p ∈ db.loginPolicies)
    (h : updateById db m periods uuid p.id = .ok db') :
    ReadsBack db' m periods p.id ↔ ZerosStored m p := by
  obtain ⟨-, timePeriods, hinsert, rfl⟩ := updateById_eq_ok.mp h
  have hfound : (db.loginPolicies.updateById p.id (LoginPolicyRepository.assign m)
      (LoginPolicyRepository.assign_id m)).findById p.id =
        some (LoginPolicyRepository.assign m p) :=
    Table.findById_eq_some.mpr ⟨List.mem_map.mpr ⟨p, hp, if_pos rfl⟩, rfl⟩
  have hread : ∀ policy stored, findById { db with
      loginPolicies := db.loginPolicies.updateById p.id (LoginPolicyRepository.assign m)
        (LoginPolicyRepository.assign_id m)
      timePeriods } p.id = .ok (policy, stored) ↔
      LoginPolicyRepository.assign m p = policy ∧
        (timePeriods.rows.filter fun period => period.loginPolicyId == p.id) = stored := by
    intro policy stored
    unfold findById LoginPolicyRepository.findById
    rw [hfound]
    constructor
    · intro hok
      exact Prod.mk.inj (Except.ok.inj hok)
    · rintro ⟨rfl, rfl⟩
      rfl
  rw [← assign_eq_iff]
  constructor
  · rintro ⟨stored, hstored, -⟩
    exact ((hread _ _).mp hstored).1
  · intro hassign
    exact ⟨_, (hread _ _).mpr ⟨hassign, rfl⟩, perm_times hinsert⟩

/-- The update of a stored policy is read back exactly when every field that is submitted empty is
stored empty already, unless the update is refused. -/
theorem updateReadBack_iff (hp : p ∈ db.loginPolicies) (m : LoginPolicy)
    (periods : List TimePeriod) (uuid : Nat → String) :
    UpdateReadBack db m periods uuid p.id ↔
      (Accepts db m periods uuid p.id → ZerosStored m p) := by
  constructor
  · intro h haccepts
    obtain ⟨db', hok⟩ := exists_updateById.mpr haccepts
    have hrun := h fun _ => false
    rw [updateByIdTx_served hok] at hrun
    exact (policyReadsBack_iff hp hok).mp hrun.1
  · intro h fails
    rcases hrun : updateByIdTx fails db m periods uuid p.id with ⟨result, db'⟩
    cases result with
    | ok _ =>
      have hok := updateByIdTx_eq_ok hrun
      exact ⟨(policyReadsBack_iff hp hok).mpr (h (exists_updateById.mp ⟨db', hok⟩)), othersKept hok⟩
    | error e => exact inTransaction_error hrun

end Update

/-- A policy that is switched on. -/
def officePolicy : LoginPolicy :=
  { id := "p1", name := "office", ipGroup := "10.1.2.3", priority := 1, enabled := true,
    rule := "allow" }

/-- The policy with the times of a day. -/
def officeHours : AccountDatabase :=
  { loginPolicies := ⟨[officePolicy], by decide⟩
    timePeriods :=
      ⟨[{ id := "t1", loginPolicyId := "p1", key := 1, value := "09:00~18:00" }], by decide⟩ }

theorem officePolicy_mem : officePolicy ∈ officeHours.loginPolicies := List.mem_singleton_self _

/-- Switching the policy off leaves it switched on. -/
theorem not_updateReadBack_switchedOff :
    ¬ ∀ (db : AccountDatabase) (p : LoginPolicy), p ∈ db.loginPolicies →
      ∀ (m : LoginPolicy) (periods : List TimePeriod) (uuid : Nat → String),
        UpdateReadBack db m periods uuid p.id := by
  intro h
  have haccepts : Accepts officeHours { officePolicy with enabled := false } [] (fun _ => "t2")
      officePolicy.id :=
    ⟨fun hid => absurd hid (by decide), List.nodup_nil, fun _ ht => absurd ht List.not_mem_nil⟩
  obtain ⟨db', hok⟩ := exists_updateById.mpr haccepts
  have hrun := h officeHours officePolicy officePolicy_mem { officePolicy with enabled := false } []
    (fun _ => "t2") fun _ => false
  rw [updateByIdTx_served hok] at hrun
  have hkept := (policyReadsBack_iff officePolicy_mem hok).mp hrun.1
  exact absurd (hkept.enabled rfl) (by decide)

/-- A new priority and new times are read back. -/
theorem updateReadBack_officePolicy :
    UpdateReadBack officeHours { officePolicy with priority := 2 }
      [{ key := 2, value := "10:00~17:00" }, { key := 3, value := "10:00~17:00" }]
      (fun i => if i = 0 then "t2" else "t3") officePolicy.id := by
  refine (updateReadBack_iff officePolicy_mem _ _ _).mpr fun _ => ?_
  exact ⟨by decide, by decide, by decide, by decide, by decide⟩

/-! ## Bindings -/

section Bind

variable {db db' : AccountDatabase} {loginPolicyId userId : String} {userIds : List String}

theorem createUserRefs_eq_ok {m : List LoginPolicyUserRef} :
    LoginPolicyUserRefRepository.createInBatches db m = .ok db' ↔
      ∃ loginPolicyUserRefs,
        db.loginPolicyUserRefs.insertInBatches 100 m = (loginPolicyUserRefs, true) ∧
        db' = { db with loginPolicyUserRefs } := by
  unfold LoginPolicyUserRefRepository.createInBatches
  rcases db.loginPolicyUserRefs.insertInBatches 100 m with ⟨t, inserted⟩
  refine inserted_eq_ok ?_ ?_
  · rintro rfl
    rfl
  · rintro rfl
    rfl

theorem foldl_deleteId (db : AccountDatabase) (results : List LoginPolicyUserRef) :
    results.foldl (fun db r => LoginPolicyUserRefRepository.deleteId db r.id) db =
      { db with
        loginPolicyUserRefs := results.foldl
          (fun t a => t.deleteWhere fun r => decide (r.id = a.id)) db.loginPolicyUserRefs } := by
  induction results generalizing db with
  | nil => rfl
  | cons r results ih =>
    rw [List.foldl_cons, ih]
    rfl

/-- Binding replaces the references of the listed users. -/
theorem bind_eq_ok_iff : LoginPolicyService.bind db loginPolicyId userIds = .ok db' ↔
    ∃ loginPolicyUserRefs,
      db.loginPolicyUserRefs.replaceInBatches 100
        ((listedUsers db userIds).map (userRef loginPolicyId)) = (loginPolicyUserRefs, true) ∧
      db' = { db with loginPolicyUserRefs } := by
  show LoginPolicyUserRefRepository.createInBatches (((listedUsers db userIds).map
    (userRef loginPolicyId)).foldl (fun db r => LoginPolicyUserRefRepository.deleteId db r.id) db)
      ((listedUsers db userIds).map (userRef loginPolicyId)) = .ok db' ↔ _
  rw [foldl_deleteId, createUserRefs_eq_ok]
  rfl

/-- The loop on a database that refuses nothing. -/
theorem bindItems_served (i : Nat) (results : List LoginPolicyUserRef) :
    bindItems (fun _ => false) loginPolicyId i userIds db results =
      .ok (((listedUsers db userIds).map (userRef loginPolicyId)).foldl
          (fun db r => LoginPolicyUserRefRepository.deleteId db r.id) db,
        results ++ (listedUsers db userIds).map (userRef loginPolicyId)) := by
  induction userIds generalizing i db results with
  | nil => rw [bindItems, listedUsers, List.filter_nil, List.map_nil, List.append_nil]; rfl
  | cons userId items ih =>
    rw [bindItems]
    by_cases hblank : userId = ""
    · have hlisted : listedUsers db (userId :: items) = listedUsers db items :=
        List.filter_cons_of_neg (by simp [hblank])
      rw [if_pos hblank, ih, hlisted]
    rw [if_neg hblank]
    cases hexists : UserRepository.existById db.toDatabase userId with
    | false =>
      have hlisted : listedUsers db (userId :: items) = listedUsers db items :=
        List.filter_cons_of_neg (by simp [hexists])
      rw [hlisted]
      exact ih (i + 1) results
    | true =>
      have hlisted : listedUsers db (userId :: items) = userId :: listedUsers db items :=
        List.filter_cons_of_pos (by simp [hexists, hblank])
      rw [hlisted, List.map_cons, List.foldl_cons]
      show bindItems (fun _ => false) loginPolicyId (i + 1) items
        (LoginPolicyUserRefRepository.deleteId db (userRef loginPolicyId userId).id)
        (results ++ [userRef loginPolicyId userId]) = _
      rw [ih, List.append_assoc]
      rfl

/-- `Bind` on a database that refuses nothing. -/
theorem bindTx_served : bindTx (fun _ => false) db loginPolicyId userIds = (.ok (), db') ↔
    LoginPolicyService.bind db loginPolicyId userIds = .ok db' := by
  unfold bindTx
  rw [inTransaction_eq_ok, and_iff_right rfl, bindItems_served, List.nil_append]
  show (if _ then _ else _) = _ ↔ LoginPolicyUserRefRepository.createInBatches (((listedUsers db
    userIds).map (userRef loginPolicyId)).foldl
      (fun db r => LoginPolicyUserRefRepository.deleteId db r.id) db) ((listedUsers db userIds).map
        (userRef loginPolicyId)) = .ok db'
  cases (listedUsers db userIds).map (userRef loginPolicyId) with
  | nil => exact Iff.rfl
  | cons r results => exact Iff.rfl

theorem eq_userRef_iff {r : LoginPolicyUserRef} : r = userRef loginPolicyId userId ↔
    r.id = sign [userId, loginPolicyId] ∧ r.userId = userId ∧ r.loginPolicyId = loginPolicyId := by
  rcases r with ⟨id, user, policy⟩
  unfold userRef
  exact LoginPolicyUserRef.mk.injEq _ _ _ _ _ _ ▸ Iff.rfl

theorem map_id_userRef (loginPolicyId : String) (users : List String) :
    (users.map (userRef loginPolicyId)).map LoginPolicyUserRef.id =
      users.map fun id => sign [id, loginPolicyId] := by
  rw [List.map_map]
  rfl

/-- What a binding that goes through leaves in the table. -/
theorem mem_bind (h : LoginPolicyService.bind db loginPolicyId userIds = .ok db')
    (r : LoginPolicyUserRef) : r ∈ db'.loginPolicyUserRefs ↔
      (∃ userId ∈ listedUsers db userIds, r = userRef loginPolicyId userId) ∨
        r ∈ db.loginPolicyUserRefs ∧
          ∀ userId ∈ listedUsers db userIds, r.id ≠ sign [userId, loginPolicyId] := by
  obtain ⟨refs, hreplace, rfl⟩ := bind_eq_ok_iff.mp h
  show r ∈ refs ↔ _
  rw [Table.mem_of_replaceInBatches hreplace, List.mem_map]
  refine or_congr ?_ (and_congr_right fun _ => List.forall_mem_map)
  exact exists_congr fun userId => and_congr_right fun _ => eq_comm

/-- Binding goes through when the keys of the listed users are distinct. -/
theorem exists_bind : (∃ db', LoginPolicyService.bind db loginPolicyId userIds = .ok db') ↔
    ((listedUsers db userIds).map fun id => sign [id, loginPolicyId]).Nodup := by
  rw [← map_id_userRef, ← Table.replaceInBatches_eq_true (n := 100) (t := db.loginPolicyUserRefs)]
  constructor
  · rintro ⟨db', h⟩
    obtain ⟨refs, hreplace, -⟩ := bind_eq_ok_iff.mp h
    exact congrArg Prod.snd hreplace
  · intro h
    exact ⟨_, bind_eq_ok_iff.mpr ⟨_, Prod.ext rfl h, rfl⟩⟩

/-- A binding keeps every table but the references, so it lists the same users again. -/
theorem listedUsers_bind (h : LoginPolicyService.bind db loginPolicyId userIds = .ok db') :
    listedUsers db' userIds = listedUsers db userIds := by
  obtain ⟨refs, -, rfl⟩ := bind_eq_ok_iff.mp h
  rfl

/-- With keys that agree, a binding adds the listed users and nothing else. -/
theorem KeysAgree.bound (hkeys : KeysAgree db loginPolicyId userIds)
    (h : LoginPolicyService.bind db loginPolicyId userIds = .ok db') :
    Bound db db' loginPolicyId userIds := by
  have hown : ∀ r ∈ db.loginPolicyUserRefs, ∀ userId ∈ listedUsers db userIds,
      r.id = sign [userId, loginPolicyId] → r = userRef loginPolicyId userId :=
    fun r hr userId huser hid => eq_userRef_iff.mpr ⟨hid, (hkeys.stored r hr userId huser).mp hid⟩
  refine ⟨fun r => ?_, fun userId huser r hr huserId hpolicy => ?_, ?_⟩
  · rw [mem_bind h]
    constructor
    · rintro (hnew | ⟨hold, -⟩)
      · exact .inr hnew
      · exact .inl hold
    · rintro (hold | hnew)
      · by_cases hlisted : ∃ userId ∈ listedUsers db userIds, r.id = sign [userId, loginPolicyId]
        · obtain ⟨userId, huser, hid⟩ := hlisted
          exact .inl ⟨userId, huser, hown r hold userId huser hid⟩
        · exact .inr ⟨hold, fun userId huser hid => hlisted ⟨userId, huser, hid⟩⟩
      · exact .inl hnew
  · rcases (mem_bind h r).mp hr with ⟨other, -, rfl⟩ | ⟨hold, hfree⟩
    · obtain rfl : other = userId := huserId
      rfl
    · have hid := (hkeys.stored r hold userId huser).mpr ⟨huserId, hpolicy⟩
      exact absurd hid (hfree userId huser)
  · obtain ⟨refs, -, rfl⟩ := bind_eq_ok_iff.mp h
    rfl

/-- The keys still agree after the binding. -/
theorem KeysAgree.bind (hkeys : KeysAgree db loginPolicyId userIds)
    (h : LoginPolicyService.bind db loginPolicyId userIds = .ok db') :
    KeysAgree db' loginPolicyId userIds := by
  have hsame := listedUsers_bind h
  refine ⟨hsame ▸ hkeys.distinct, fun r hr userId huser => ?_⟩
  rw [hsame] at huser
  rcases ((hkeys.bound h).refs r).mp hr with hold | ⟨other, hother, rfl⟩
  · exact hkeys.stored r hold userId huser
  · constructor
    · intro hid
      exact ⟨List.inj_on_of_nodup_map hkeys.distinct hother huser hid, rfl⟩
    · rintro ⟨huserId, -⟩
      obtain rfl : other = userId := huserId
      rfl

/-- Binding adds each listed user once, and again changes nothing, exactly when the keys of the
references agree with the users: no user is listed twice and the table holds no key that belongs to
somebody else. -/
theorem bindsOnce_iff (db : AccountDatabase) (loginPolicyId : String) (userIds : List String) :
    BindsOnce db loginPolicyId userIds ↔ KeysAgree db loginPolicyId userIds := by
  constructor
  · intro h
    obtain ⟨db', hrun, hbound, -⟩ := h.binds
    have hok := bindTx_served.mp hrun
    refine ⟨exists_bind.mp ⟨db', hok⟩, fun r hr userId huser => ?_⟩
    have hmem : r ∈ db'.loginPolicyUserRefs := (hbound.refs r).mpr (.inl hr)
    have hnew : userRef loginPolicyId userId ∈ db'.loginPolicyUserRefs :=
      (hbound.refs _).mpr (.inr ⟨userId, huser, rfl⟩)
    constructor
    · intro hid
      exact (eq_userRef_iff.mp (Table.eq_of_key hmem hnew hid)).2
    · rintro ⟨huserId, hpolicy⟩
      exact (eq_userRef_iff.mp (hbound.once userId huser r hmem huserId hpolicy)).1
  · intro hkeys
    refine ⟨?_, fun fails e db' hrun => inTransaction_error hrun⟩
    obtain ⟨db', hok⟩ := exists_bind.mpr hkeys.distinct
    have hkeys' := hkeys.bind hok
    obtain ⟨db'', hagain⟩ := exists_bind.mpr hkeys'.distinct
    have hbound := hkeys.bound hok
    have hbound' := hkeys'.bound hagain
    refine ⟨db', bindTx_served.mpr hok, hbound, db'', bindTx_served.mpr hagain,
      ⟨fun r => ?_, hbound'.tables⟩⟩
    rw [hbound'.refs, or_iff_left_iff_imp, listedUsers_bind hok]
    rintro ⟨userId, huser, rfl⟩
    exact (hbound.refs _).mpr (.inr ⟨userId, huser, rfl⟩)

/-- Binding one user who is listed twice fails. -/
theorem not_bindsOnce_repeated :
    ¬ ∀ (db : AccountDatabase) (loginPolicyId : String) (userIds : List String),
      BindsOnce db loginPolicyId userIds := by
  intro h
  obtain ⟨db', hrun, -⟩ := (h { users := ⟨[{ id := "u1" }], by decide⟩ } "p1" ["u1", "u1"]).binds
  have hdistinct := exists_bind.mp ⟨db', bindTx_served.mp hrun⟩
  exact (List.nodup_cons.mp hdistinct).1 List.mem_cons_self

end Bind

end LoginPolicyService

end NextDBM
