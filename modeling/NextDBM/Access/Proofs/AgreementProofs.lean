import NextDBM.Access.Proofs.VisibilityProofs

/-!
# Proofs: when the three authorisation lookups agree

The rows that the services and the migration write carry the digest of their asset, user and group
as id. `GetAuthorised` computes the ids of the plain rows only: one for the user without a group, and
one for each group without a user. So it misses a row that carries both, and a row of another user
that the empty group id of a membership brings in; the other two lookups see these rows.
-/

namespace NextDBM

open Transition

variable {db : Database} {userId assetId : String}

/-- The id of a row is the digest of its asset, user and group. -/
def Authorised.Signed (r : Authorised) : Prop := r.id = sign [r.assetId, r.userId, r.userGroupId]

def RowsSigned (db : Database) : Prop := ∀ r ∈ db.authorised, r.Signed

section Writers

variable {db' : Database}

theorem RowsSigned.of_eq (h : RowsSigned db) (heq : db'.authorised = db.authorised) :
    RowsSigned db' := by
  intro r hr
  rw [heq] at hr
  exact h r hr

theorem RowsSigned.deleteWhere (h : RowsSigned db) (p : Authorised → Bool) :
    RowsSigned (AuthorisedRepository.deleteWhere db p) := by
  intro r hr
  exact h r (Relational.Table.mem_deleteWhere.mp hr).1

theorem RowsSigned.foldl_deleteById (h : RowsSigned db) (items : List Authorised) :
    RowsSigned (items.foldl (fun db r => AuthorisedRepository.deleteById db r.id) db) := by
  induction items generalizing db with
  | nil => exact h
  | cons r items ih => exact ih (h.deleteWhere _)

theorem RowsSigned.insertInBatches {items : List Authorised} (h : RowsSigned db)
    (hitems : ∀ r ∈ items, r.Signed)
    (heq : db'.authorised = (db.authorised.insertInBatches 100 items).1) : RowsSigned db' := by
  intro r hr
  rw [heq] at hr
  rcases Relational.Table.mem_of_insertInBatches hr with hnew | hold
  · exact hitems r hnew
  · exact h r hold

theorem commit_signed {x : Except Error Database} (hdb : RowsSigned db)
    (h : ∀ db', x = .ok db' → RowsSigned db') : RowsSigned (commit db x) := by
  cases x with
  | ok db' => exact h db' rfl
  | error err => exact hdb

/-- The grant services write signed rows. -/
theorem replaceInBatches_signed {items : List Authorised} (hdb : RowsSigned db)
    (hitems : ∀ r ∈ items, r.Signed) :
    RowsSigned (commit db (AuthorisedService.replaceInBatches db items)) := by
  refine commit_signed hdb fun db' h => ?_
  rw [AuthorisedService.replaceInBatches, AuthorisedRepository.createInBatches] at h
  split at h
  · next t heq =>
    obtain rfl := Except.ok.inj h
    exact (hdb.foldl_deleteById items).insertInBatches hitems (congrArg Prod.fst heq).symm
  · cases h

theorem authorisedOf_signed {r : Authorised} {rows : List ResourceSharer}
    (hr : r ∈ rows.map MigrateService.authorisedOf) : r.Signed := by
  obtain ⟨row, -, rfl⟩ := List.mem_map.mp hr
  rfl

theorem migrate_signed {localVersion : String} {sharers : Option (List ResourceSharer)}
    {skip : Bool} (hdb : RowsSigned db) :
    RowsSigned (MigrateService.migrateFormV127to130 db localVersion sharers skip) := by
  unfold MigrateService.migrateFormV127to130
  split
  · exact hdb
  · split
    · exact hdb
    · next rows =>
      have hdel := hdb.foldl_deleteById
        ((rows.filter fun r => r.resourceType == "asset").map MigrateService.authorisedOf)
      dsimp only
      split
      · next heq =>
        exact hdel.insertInBatches (fun r hr => authorisedOf_signed hr) (congrArg Prod.fst heq).symm
      · next heq =>
        split
        · exact hdel.insertInBatches (fun r hr => authorisedOf_signed hr)
            (congrArg Prod.fst heq).symm
        · exact hdel

theorem userGroupCreate_authorised {groupId name : String} {members : List String}
    (h : UserGroupService.create db groupId name members = .ok db') :
    db'.authorised = db.authorised := by
  rw [UserGroupService.create] at h
  split at h
  · cases h
  · obtain ⟨db₁, hcreate, hall⟩ := bind_eq_ok.mp h
    obtain ⟨-, hauth, -⟩ := createAll_ok hall
    rw [UserGroupRepository.create] at hcreate
    split at hcreate
    · obtain rfl := Except.ok.inj hcreate
      exact hauth
    · cases hcreate

theorem userGroupUpdate_authorised {groupId name : String} {members : List String}
    (h : UserGroupService.update db groupId name members = .ok db') :
    db'.authorised = db.authorised := by
  obtain ⟨dbUserGroup, -, h⟩ := bind_eq_ok.mp h
  split at h
  · cases h
  · obtain ⟨db₁, hupdate, hall⟩ := bind_eq_ok.mp h
    obtain ⟨-, hauth₁, -⟩ := userGroupUpdate_repo_ok hupdate
    obtain ⟨-, hauth, -⟩ := createAll_ok hall
    exact hauth.trans hauth₁

theorem importUserGroups_authorised {uuid : Nat → String} {userIdMapping : String → String}
    {groups : List UserGroup}
    (h : BackupService.importUserGroups uuid userIdMapping db groups = .ok db') :
    db'.authorised = db.authorised := by
  induction groups generalizing db with
  | nil =>
    obtain rfl := Except.ok.inj h
    rfl
  | cons item items ih =>
    rw [BackupService.importUserGroups] at h
    split at h
    · next db₁ hcreate => exact (ih h).trans (userGroupCreate_authorised hcreate)
    · split at h
      · exact ih h
      · cases h

theorem updateMembership_authorised {uuid id groupId : String} :
    (UserApi.updateMembership db uuid id groupId).authorised = db.authorised := by
  rw [UserApi.updateMembership]
  split
  · next db₁ hcreate =>
    rw [UserGroupMemberRepository.create] at hcreate
    split at hcreate
    · obtain rfl := Except.ok.inj hcreate
      rfl
    · cases hcreate
  · rfl

theorem updateEndpoint_authorised {uuid : Nat → String} {id : String} {item : User} :
    (UserApi.updateEndpoint db uuid id item).authorised = db.authorised := by
  rw [UserApi.updateEndpoint]
  split
  · next db₁ hupdate =>
    obtain ⟨-, -, hauth⟩ := updateUser_ok hupdate
    exact updateMembership_authorised.trans hauth
  · rfl

/-- Step lemma: every request writes signed rows only. -/
theorem handle_signed (q : Request) (hdb : RowsSigned db) : RowsSigned (handle db q) := by
  cases q with
  | userGroupCreate userGroupId name members =>
    exact commit_signed hdb fun db' h => hdb.of_eq (userGroupCreate_authorised h)
  | userGroupUpdate userGroupId name members =>
    exact commit_signed hdb fun db' h => hdb.of_eq (userGroupUpdate_authorised h)
  | userGroupDelete userGroupId => exact hdb.deleteWhere _
  | userGroupUpdateStatus id status =>
    exact commit_signed hdb fun db' h => hdb.of_eq (userGroupUpdate_repo_ok h).2.1
  | userUpdate uuid id item => exact hdb.of_eq updateEndpoint_authorised
  | userDelete userId storageDeleted =>
    refine commit_signed hdb fun db' h => ?_
    obtain ⟨user, -, h⟩ := bind_eq_ok.mp h
    obtain ⟨-, -, h⟩ := bind_eq_ok.mp h
    obtain rfl := Except.ok.inj h
    exact hdb.deleteWhere _
  | authorisedAssets item =>
    refine replaceInBatches_signed hdb fun r hr => ?_
    obtain ⟨assetId, -, rfl⟩ := List.mem_map.mp hr
    rfl
  | authorisedUsers item =>
    refine replaceInBatches_signed hdb fun r hr => ?_
    obtain ⟨userId, -, rfl⟩ := List.mem_map.mp hr
    rfl
  | authorisedUserGroups item =>
    refine replaceInBatches_signed hdb fun r hr => ?_
    obtain ⟨userGroupId, -, rfl⟩ := List.mem_map.mp hr
    rfl
  | authorisedDelete id => exact hdb.deleteWhere _
  | authorisedWebhookPushStatus id status =>
    refine commit_signed hdb fun db' h => ?_
    rw [AuthorisedService.updateWebhookPushStatusById, AuthorisedRepository.update] at h
    split at h
    · cases h
    · obtain rfl := Except.ok.inj h
      intro r hr
      rcases Relational.Table.mem_updateById (AuthorisedRepository.assign_id _) hr with hold | ⟨r₀, hold, -, rfl⟩
      · exact hdb r hold
      · exact hdb r₀ hold
  | assetDelete id => exact hdb.deleteWhere _
  | backupImport uuid userIdMapping groups =>
    exact commit_signed hdb fun db' h => hdb.of_eq (importUserGroups_authorised h)
  | migrate localVersion sharers skip => exact migrate_signed hdb
  | other db' => exact hdb.of_eq rfl

end Writers

/-- Run lemma: every reachable row is signed. -/
theorem rowsSigned_of_reaches (h : Reaches requestStep Any {} db) : RowsSigned db := by
  refine h.invariant ?_ ?_
  · intro s q t hs _ hst
    obtain rfl := Option.some.inj hst
    exact handle_signed q hs
  · intro r hr
    exact absurd hr List.not_mem_nil

/-! ## Agreement -/

/-- The three lookups give the same answer for every user and asset. -/
def OneNotion (db : Database) : Prop :=
  ∀ userId assetId,
    ((∃ r, AuthorisedService.getAuthorised db userId assetId = .ok (some r)) ↔
      WorkerService.checkPermission db assetId userId = true) ∧
    (WorkerService.checkPermission db assetId userId = true ↔
      AuthorisedRepository.findAllByAssetsIdUsersId db assetId userId ≠ [])

/-- A row reaches a user in one of the two ways that `GetAuthorised` looks for: as a row of the user
without a group, or as a row of a group of the user without a user. -/
def Authorised.Plain (db : Database) (r : Authorised) (userId : String) : Prop :=
  (r.userId = userId ∧ r.userGroupId = "") ∨ (r.userId = "" ∧ MemberOf db userId r.userGroupId)

/-- A row that reaches a user in another way has a companion for the same asset under one of the ids
that `GetAuthorised` computes. -/
def MixedRowsCovered (db : Database) : Prop :=
  ∀ r ∈ db.authorised, ∀ userId, r.Reaches db userId → ¬ r.Plain db userId →
    ∃ c ∈ db.authorised, LookedUp db userId r.assetId c

/-- A computed id that is, by a coincidence of digests, the id of a row for another asset or another
subject belongs to a user who sees the asset through some row. -/
def CollisionsCovered (db : Database) : Prop :=
  ∀ c ∈ db.authorised, ∀ userId assetId, LookedUp db userId assetId c →
    ¬ (c.assetId = assetId ∧ c.Reaches db userId) → Visible db userId assetId

/-- A signed plain row is found under its own id. -/
theorem Authorised.Plain.lookedUp {r : Authorised} (hsigned : r.Signed) (h : r.Plain db userId) :
    LookedUp db userId r.assetId r := by
  rw [Authorised.Signed] at hsigned
  rcases h with ⟨hu, hg⟩ | ⟨hu, hmember⟩
  · rw [hu, hg] at hsigned
    exact .inl hsigned
  · rw [hu] at hsigned
    exact .inr ⟨r.userGroupId, hmember, hsigned⟩

/-- **One notion of authorisation**: in every reachable state the three lookups agree exactly when
the rows that reach a user in a mixed way, and the coincidences of digests, are covered. -/
theorem oneNotion_iff (h : Reaches requestStep Any {} db) :
    OneNotion db ↔ MixedRowsCovered db ∧ CollisionsCovered db := by
  have hsigned := rowsSigned_of_reaches h
  constructor
  · intro hone
    refine ⟨?_, ?_⟩
    · intro r hr userId hreach _
      have hvisible : Visible db userId r.assetId := ⟨r, hr, rfl, hreach⟩
      exact getAuthorised_iff.mp ((hone userId r.assetId).1.mpr (checkPermission_iff.mpr hvisible))
    · intro c hc userId assetId hlook _
      have hfound := getAuthorised_iff.mpr ⟨c, hc, hlook⟩
      exact checkPermission_iff.mp ((hone userId assetId).1.mp hfound)
  · rintro ⟨hmixed, hcollisions⟩ userId assetId
    rw [checkPermission_iff, findAllByAssetsIdUsersId_ne_nil, getAuthorised_iff]
    refine ⟨⟨?_, ?_⟩, Iff.rfl⟩
    · rintro ⟨c, hc, hlook⟩
      by_cases hown : c.assetId = assetId ∧ c.Reaches db userId
      · exact ⟨c, hc, hown⟩
      · exact hcollisions c hc userId assetId hlook hown
    · rintro ⟨r, hr, rfl, hreach⟩
      by_cases hplain : r.Plain db userId
      · exact ⟨r, hr, hplain.lookedUp (hsigned r hr)⟩
      · exact hmixed r hr userId hreach hplain

/-- A grant that carries both a user and a group. -/
def mixedRun : List Request :=
  [.authorisedAssets { assetIds := ["a1"], userId := "u1", userGroupId := "g1" }]

/-- The equivalence at the state after `mixedRun`. -/
theorem oneNotion_iff_mixedRun :
    OneNotion (handleAll {} mixedRun) ↔
      MixedRowsCovered (handleAll {} mixedRun) ∧ CollisionsCovered (handleAll {} mixedRun) :=
  oneNotion_iff (reaches_handleAll {} mixedRun)

theorem getAuthorised_mixedRun :
    (AuthorisedService.getAuthorised (handleAll {} mixedRun) "u1" "a1").toOption = some none := by
  decide +kernel

theorem checkPermission_mixedRun :
    WorkerService.checkPermission (handleAll {} mixedRun) "a1" "u1" = true := by
  decide

/-- The listing shows the asset of `mixedRun` to the user, and `GetAuthorised` finds no row. -/
theorem not_oneNotion_mixedRun : ¬ ∀ db, Reaches requestStep Any {} db → OneNotion db := by
  intro h
  have hone := h _ (reaches_handleAll {} mixedRun) "u1" "a1"
  obtain ⟨r, hr⟩ := hone.1.mpr checkPermission_mixedRun
  have hnone := getAuthorised_mixedRun
  rw [hr] at hnone
  cases hnone

end NextDBM
