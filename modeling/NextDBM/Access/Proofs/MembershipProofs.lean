import NextDBM.Access.Proofs.LookupProofs
import NextDBM.Access.Requests
import NextDBM.Library.Runs

/-!
# Proofs: memberships name existing groups

`getAssetIdListByUserId` compares group ids, so it shows exactly the grants as long as every row of
`user_group_members` names an existing group. Every writer keeps that, except the user update, which
stores whatever group id its body carries.
-/

namespace NextDBM

/-- Every membership names an existing user group. -/
def MembersNameGroups (db : Database) : Prop :=
  ∀ m ∈ db.userGroupMembers, ∃ g ∈ db.userGroups, g.id = m.userGroupId

section Writers

variable {db db' : Database}

theorem MembersNameGroups.of_eq (h : MembersNameGroups db) (hg : db'.userGroups = db.userGroups)
    (hm : db'.userGroupMembers = db.userGroupMembers) : MembersNameGroups db' := by
  intro m hmem
  rw [hm] at hmem
  rw [hg]
  exact h m hmem

/-- The groups stay, and new memberships are for an existing group. -/
theorem MembersNameGroups.of_members (h : MembersNameGroups db) (groupId : String)
    (hg : ∀ g ∈ db.userGroups, ∃ g' ∈ db'.userGroups, g'.id = g.id)
    (hid : ∃ g ∈ db'.userGroups, g.id = groupId)
    (hm : ∀ m ∈ db'.userGroupMembers, m.userGroupId = groupId ∨ m ∈ db.userGroupMembers) :
    MembersNameGroups db' := by
  intro m hmem
  rcases hm m hmem with hgroup | hold
  · obtain ⟨g, hg', hgid⟩ := hid
    exact ⟨g, hg', hgid.trans hgroup.symm⟩
  · obtain ⟨g, hg', hgid⟩ := h m hold
    obtain ⟨g', hg'', hgid'⟩ := hg g hg'
    exact ⟨g', hg'', hgid'.trans hgid⟩

theorem createAll_ok {os : List UserGroupMember}
    (h : UserGroupMemberRepository.createAll db os = .ok db') :
    db'.userGroups = db.userGroups ∧ db'.authorised = db.authorised ∧
      ∀ m, m ∈ db'.userGroupMembers ↔ m ∈ os ∨ m ∈ db.userGroupMembers := by
  rw [UserGroupMemberRepository.createAll] at h
  split at h
  · next t hinsert =>
    obtain rfl := Except.ok.inj h
    exact ⟨rfl, rfl, fun m => Relational.Table.mem_of_insertAll hinsert⟩
  · cases h

theorem memberRows_userGroupId {groupId : String} {members : List String} {m : UserGroupMember}
    (h : m ∈ memberRows groupId members) : m.userGroupId = groupId := by
  obtain ⟨member, -, rfl⟩ := List.mem_map.mp h
  rfl

theorem userGroupCreate_ok {groupId name : String} {members : List String}
    (h : UserGroupService.create db groupId name members = .ok db')
    (hdb : MembersNameGroups db) : MembersNameGroups db' := by
  rw [UserGroupService.create] at h
  split at h
  · cases h
  · obtain ⟨db₁, hcreate, hall⟩ := bind_eq_ok.mp h
    obtain ⟨hgroups, -, hmembers⟩ := createAll_ok hall
    rw [UserGroupRepository.create] at hcreate
    split at hcreate
    · next t hinsert =>
      obtain rfl := Except.ok.inj hcreate
      have hins := fun g => Relational.Table.mem_of_insert (b := g) hinsert
      refine hdb.of_members groupId ?_ ?_ ?_
      · intro g hg
        exact ⟨g, hgroups ▸ (hins g).mpr (.inr hg), rfl⟩
      · rw [hgroups]
        exact ⟨_, (hins _).mpr (.inl rfl), rfl⟩
      · intro m hm
        rcases (hmembers m).mp hm with hnew | hold
        · exact .inl (memberRows_userGroupId hnew)
        · exact .inr hold
    · cases hcreate

theorem userGroupUpdate_repo_ok {o : UserGroup} (h : UserGroupRepository.update db o = .ok db') :
    db'.userGroupMembers = db.userGroupMembers ∧ db'.authorised = db.authorised ∧
      ∀ g ∈ db.userGroups, ∃ g' ∈ db'.userGroups, g'.id = g.id := by
  rw [UserGroupRepository.update] at h
  split at h
  · cases h
  · obtain rfl := Except.ok.inj h
    refine ⟨rfl, rfl, fun g hg => ?_⟩
    exact Relational.Table.exists_mem_updateById hg o.id _ (UserGroupRepository.assign_id o)

theorem userGroupUpdate_ok {groupId name : String} {members : List String}
    (h : UserGroupService.update db groupId name members = .ok db')
    (hdb : MembersNameGroups db) : MembersNameGroups db' := by
  obtain ⟨dbUserGroup, hfind, h⟩ := bind_eq_ok.mp h
  split at h
  · cases h
  · obtain ⟨db₁, hupdate, hall⟩ := bind_eq_ok.mp h
    obtain ⟨hmembers₁, -, hgroups₁⟩ := userGroupUpdate_repo_ok hupdate
    obtain ⟨hgroups, -, hmembers⟩ := createAll_ok hall
    have hexists : ∃ g ∈ db.userGroups, g.id = groupId := by
      rw [UserGroupRepository.findById, firstOrNotFound_eq_ok] at hfind
      exact ⟨dbUserGroup, Relational.Table.findById_eq_some.mp hfind⟩
    have hkeep : ∀ g ∈ db.userGroups, ∃ g' ∈ db'.userGroups, g'.id = g.id := by
      rw [hgroups]
      exact hgroups₁
    refine hdb.of_members groupId hkeep ?_ ?_
    · obtain ⟨g, hg, hid⟩ := hexists
      obtain ⟨g', hg', hid'⟩ := hkeep g hg
      exact ⟨g', hg', hid'.trans hid⟩
    · intro m hm
      rcases (hmembers m).mp hm with hnew | hold
      · exact .inl (memberRows_userGroupId hnew)
      · obtain ⟨hold, -⟩ := Relational.Table.mem_deleteWhere.mp hold
        exact .inr (hmembers₁ ▸ hold)

/-- Deleting a group deletes its memberships with it. -/
theorem userGroupDelete_members {groupId : String} (hdb : MembersNameGroups db) :
    MembersNameGroups (UserGroupService.deleteById db groupId) := by
  intro m hm
  obtain ⟨hmem, hne⟩ := Relational.Table.mem_deleteWhere.mp hm
  obtain ⟨g, hg, hid⟩ := hdb m hmem
  refine ⟨g, Relational.Table.mem_deleteWhere.mpr ⟨hg, ?_⟩, hid⟩
  rw [hid]
  exact hne

theorem importUserGroups_ok {uuid : Nat → String} {userIdMapping : String → String}
    {groups : List UserGroup}
    (h : BackupService.importUserGroups uuid userIdMapping db groups = .ok db')
    (hdb : MembersNameGroups db) : MembersNameGroups db' := by
  induction groups generalizing db with
  | nil =>
    obtain rfl := Except.ok.inj h
    exact hdb
  | cons item items ih =>
    rw [BackupService.importUserGroups] at h
    split at h
    · next db₁ hcreate => exact ih h (userGroupCreate_ok hcreate hdb)
    · split at h
      · exact ih h hdb
      · cases h

theorem updateUser_ok {uuid : Nat → String} {id : String} {user : User}
    (h : UserService.updateUser db uuid id user = .ok db') :
    db'.userGroups = db.userGroups ∧ db'.userGroupMembers = db.userGroupMembers ∧
      db'.authorised = db.authorised := by
  obtain ⟨db₁, h, hupdate⟩ := bind_eq_ok.mp h
  obtain ⟨dbUser, -, hroles⟩ := bind_eq_ok.mp h
  split at hroles
  · cases hroles
  · simp only [UserService.saveUserRoles] at hroles
    rw [UserRepository.update] at hupdate
    split at hroles
    · obtain rfl := Except.ok.inj hroles
      split at hupdate
      · cases hupdate
      · obtain rfl := Except.ok.inj hupdate
        exact ⟨rfl, rfl, rfl⟩
    · cases hroles

theorem updateMembership_members {uuid id groupId : String} {m : UserGroupMember}
    (h : m ∈ (UserApi.updateMembership db uuid id groupId).userGroupMembers) :
    m.userGroupId = groupId ∨ m ∈ db.userGroupMembers := by
  rw [UserApi.updateMembership] at h
  split at h
  · next db₁ hcreate =>
    rw [UserGroupMemberRepository.create] at hcreate
    split at hcreate
    · next t hinsert =>
      obtain rfl := Except.ok.inj hcreate
      rcases (Relational.Table.mem_of_insert hinsert).mp h with rfl | hold
      · exact .inl rfl
      · exact .inr (Relational.Table.mem_deleteWhere.mp hold).1
    · cases hcreate
  · exact .inr (Relational.Table.mem_deleteWhere.mp h).1

theorem updateMembership_userGroups {uuid id groupId : String} :
    (UserApi.updateMembership db uuid id groupId).userGroups = db.userGroups := by
  rw [UserApi.updateMembership]
  split
  · next db₁ hcreate =>
    rw [UserGroupMemberRepository.create] at hcreate
    split at hcreate
    · obtain rfl := Except.ok.inj hcreate
      rfl
    · cases hcreate
  · rfl

/-- The user update keeps the invariant when its body names an existing group. -/
theorem updateEndpoint_members {uuid : Nat → String} {id : String} {item : User}
    (hgroup : ∃ g ∈ db.userGroups, g.id = item.userGroupId) (hdb : MembersNameGroups db) :
    MembersNameGroups (UserApi.updateEndpoint db uuid id item) := by
  rw [UserApi.updateEndpoint]
  split
  · next db₁ hupdate =>
    obtain ⟨hgroups, hmembers, -⟩ := updateUser_ok hupdate
    refine hdb.of_members item.userGroupId ?_ ?_ ?_
    · intro g hg
      exact ⟨g, by rw [updateMembership_userGroups, hgroups]; exact hg, rfl⟩
    · rw [updateMembership_userGroups, hgroups]
      exact hgroup
    · intro m hm
      rcases updateMembership_members hm with hnew | hold
      · exact .inl hnew
      · exact .inr (hmembers ▸ hold)
  · exact hdb

theorem deleteUserById_members {userId : String} {storageDeleted : Except Error Unit}
    (h : UserService.deleteUserById db userId storageDeleted = .ok db')
    (hdb : MembersNameGroups db) : MembersNameGroups db' := by
  obtain ⟨user, -, h⟩ := bind_eq_ok.mp h
  obtain ⟨-, -, h⟩ := bind_eq_ok.mp h
  obtain rfl := Except.ok.inj h
  intro m hm
  exact hdb m (Relational.Table.mem_deleteWhere.mp hm).1

end Writers

end NextDBM
