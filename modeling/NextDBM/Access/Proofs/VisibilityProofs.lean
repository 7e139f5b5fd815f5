import NextDBM.Access.Proofs.MembershipProofs

/-!
# Proofs: asset visibility is the grants

In every run whose user updates name an existing group, the asset list of a user is exactly what was
granted to the user or to the user's groups. An update with an empty group id breaks this: the
membership it stores has the group id of the rows that were granted directly to single users.
-/

namespace NextDBM

open Transition

variable {db : Database} {userId assetId : String}

/-- A request runs through `exec` as it does through `handle`. -/
theorem exec_requestStep (db : Database) (rs : List Request) :
    exec requestStep db rs = some (handleAll db rs) := by
  induction rs generalizing db with
  | nil => rfl
  | cons r rs ih => exact ih (handle db r)

theorem reaches_handleAll (db : Database) (rs : List Request) :
    Reaches requestStep Any db (handleAll db rs) :=
  reaches_of_exec (exec_requestStep db rs) (allOk_any db rs)

/-- A user update that is carried out names an existing group in its body. -/
def UpdatesNameGroups (db : Database) : Request → Prop
  | .userUpdate uuid id item =>
    ∀ db', UserService.updateUser db uuid id item = .ok db' →
      ∃ g ∈ db.userGroups, g.id = item.userGroupId
  | _ => True

/-- A transaction keeps what its committed result keeps. -/
theorem commit_members {x : Except Error Database} (hdb : MembersNameGroups db)
    (h : ∀ db', x = .ok db' → MembersNameGroups db') : MembersNameGroups (commit db x) := by
  cases x with
  | ok db' => exact h db' rfl
  | error err => exact hdb

theorem createInBatches_groups {db' : Database} {m : List Authorised}
    (h : AuthorisedRepository.createInBatches db m = .ok db') :
    db'.userGroups = db.userGroups ∧ db'.userGroupMembers = db.userGroupMembers := by
  rw [AuthorisedRepository.createInBatches] at h
  split at h
  · obtain rfl := Except.ok.inj h
    exact ⟨rfl, rfl⟩
  · cases h

/-- Deleting rows of `authorised` one by one leaves groups and memberships alone. -/
theorem foldl_deleteById_groups (items : List Authorised) (db : Database) :
    (items.foldl (fun db r => AuthorisedRepository.deleteById db r.id) db).userGroups =
        db.userGroups ∧
      (items.foldl (fun db r => AuthorisedRepository.deleteById db r.id) db).userGroupMembers =
        db.userGroupMembers := by
  induction items generalizing db with
  | nil => exact ⟨rfl, rfl⟩
  | cons r items ih => exact ih (AuthorisedRepository.deleteById db r.id)

theorem replaceInBatches_members {items : List Authorised} (hdb : MembersNameGroups db) :
    MembersNameGroups (commit db (AuthorisedService.replaceInBatches db items)) := by
  refine commit_members hdb fun db' h => ?_
  obtain ⟨hg, hm⟩ := createInBatches_groups h
  obtain ⟨hg', hm'⟩ := foldl_deleteById_groups items db
  exact hdb.of_eq (hg.trans hg') (hm.trans hm')

theorem migrate_members {localVersion : String} {sharers : Option (List ResourceSharer)}
    {skip : Bool} (hdb : MembersNameGroups db) :
    MembersNameGroups (MigrateService.migrateFormV127to130 db localVersion sharers skip) := by
  unfold MigrateService.migrateFormV127to130
  split
  · exact hdb
  · split
    · exact hdb
    · next rows =>
      obtain ⟨hg, hm⟩ := foldl_deleteById_groups
        ((rows.filter fun r => r.resourceType == "asset").map MigrateService.authorisedOf) db
      dsimp only
      split
      · exact hdb.of_eq hg hm
      · split
        · exact hdb.of_eq hg hm
        · exact hdb.of_eq hg hm

/-- Step lemma: every request keeps the invariant when a user update names an existing group. -/
theorem handle_members (q : Request) (hq : UpdatesNameGroups db q) (hdb : MembersNameGroups db) :
    MembersNameGroups (handle db q) := by
  cases q with
  | userGroupCreate userGroupId name members =>
    exact commit_members hdb fun db' h => userGroupCreate_ok h hdb
  | userGroupUpdate userGroupId name members =>
    exact commit_members hdb fun db' h => userGroupUpdate_ok h hdb
  | userGroupDelete userGroupId => exact userGroupDelete_members hdb
  | userGroupUpdateStatus id status =>
    refine commit_members hdb fun db' h => ?_
    obtain ⟨hmembers, -, hgroups⟩ := userGroupUpdate_repo_ok h
    intro m hm
    obtain ⟨g, hg, hid⟩ := hdb m (hmembers ▸ hm)
    obtain ⟨g', hg', hid'⟩ := hgroups g hg
    exact ⟨g', hg', hid'.trans hid⟩
  | userUpdate uuid id item =>
    cases hupdate : UserService.updateUser db uuid id item with
    | ok db' => exact updateEndpoint_members (hq db' hupdate) hdb
    | error err =>
      show MembersNameGroups (UserApi.updateEndpoint db uuid id item)
      rw [UserApi.updateEndpoint, hupdate]
      exact hdb
  | userDelete userId storageDeleted =>
    exact commit_members hdb fun db' h => deleteUserById_members h hdb
  | authorisedAssets item => exact replaceInBatches_members hdb
  | authorisedUsers item => exact replaceInBatches_members hdb
  | authorisedUserGroups item => exact replaceInBatches_members hdb
  | authorisedDelete id => exact hdb.of_eq rfl rfl
  | authorisedWebhookPushStatus id status =>
    refine commit_members hdb fun db' h => ?_
    rw [AuthorisedService.updateWebhookPushStatusById, AuthorisedRepository.update] at h
    split at h
    · cases h
    · obtain rfl := Except.ok.inj h
      exact hdb.of_eq rfl rfl
  | assetDelete id => exact hdb.of_eq rfl rfl
  | backupImport uuid userIdMapping groups =>
    exact commit_members hdb fun db' h => importUserGroups_ok h hdb
  | migrate localVersion sharers skip => exact migrate_members hdb
  | other db' => exact hdb.of_eq rfl rfl

/-- Run lemma: memberships name existing groups in every state of a guarded run. -/
theorem membersNameGroups_of_reaches (h : Reaches requestStep UpdatesNameGroups {} db) :
    MembersNameGroups db := by
  refine h.invariant ?_ ?_
  · intro s q t hs hq hst
    obtain rfl := Option.some.inj hst
    exact handle_members q hq hs
  · intro m hm
    exact absurd hm List.not_mem_nil

theorem visible_iff_granted (hdb : MembersNameGroups db) :
    Visible db userId assetId ↔ Granted db userId assetId := by
  constructor
  · rintro ⟨r, hr, ha, hu | ⟨m, hm, hu, hg⟩⟩
    · exact ⟨r, hr, ha, .inl hu⟩
    · obtain ⟨g, hgmem, hgid⟩ := hdb m hm
      exact ⟨r, hr, ha, .inr ⟨g, hgmem, (hgid.trans hg).symm, m, hm, hu, hgid.symm⟩⟩
  · rintro ⟨r, hr, ha, hu | ⟨g, -, hgr, hmember⟩⟩
    · exact ⟨r, hr, ha, .inl hu⟩
    · exact ⟨r, hr, ha, .inr (hgr ▸ hmember)⟩

/-- A group with a grant, and an update that puts a user into the group. -/
def groupRun : List Request :=
  [.other { users := ⟨[{ id := "u1", username := "ann" }], by decide⟩ },
    .userGroupCreate "g1" "dba" [],
    .authorisedUserGroups { userGroupIds := ["g1"], assetId := "a1" },
    .userUpdate (fun _ => "m1") "u1" { id := "u1", username := "ann", userGroupId := "g1" }]

theorem reaches_groupRun : Reaches requestStep UpdatesNameGroups {} (handleAll {} groupRun) := by
  refine reaches_of_exec (exec_requestStep {} groupRun) ?_
  refine ⟨trivial, fun t₁ h₁ => ⟨trivial, fun t₂ h₂ => ⟨trivial, fun t₃ h₃ => ⟨?_, fun _ _ => trivial⟩⟩⟩⟩
  cases h₁
  cases h₂
  cases h₃
  intro db' _
  decide

/-- A user who is granted an asset, a second user, and an update of the second user without a
group. -/
def emptyGroupRun : List Request :=
  [.other { users := ⟨[{ id := "u1", username := "ann" }, { id := "u2", username := "bob" }],
      by decide⟩ },
    .authorisedUsers { userIds := ["u1"], assetId := "a1" },
    .userUpdate (fun _ => "m1") "u2" { id := "u2", username := "bob" }]

end NextDBM
