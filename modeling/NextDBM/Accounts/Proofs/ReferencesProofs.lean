import NextDBM.Access.Proofs.GrantsProofs
import NextDBM.Accounts.Proofs.TokenProofs
import NextDBM.Accounts.References

/-!
# Proofs: references to users

Most calls add references and keep the users: each is proved to add references to users that it has
looked up or created, or that the guard asks for. Two calls remove users, and these have to leave no
reference behind in the tables that they do not clean.
-/

namespace NextDBM

open Relational

/-! ## Writes that keep the users -/

section Adds

variable {db db' db'' : Database} {p q : String → Prop}

/-- `db'` has the users of `db`, and refers besides only to ids with the property `p`. -/
structure Adds (p : String → Prop) (db db' : Database) : Prop where
  users : ∀ id, db.HasUser id → db'.HasUser id
  refers : ∀ id, db'.Refers id → db.Refers id ∨ p id

namespace Adds

theorem refl (p : String → Prop) (db : Database) : Adds p db db :=
  ⟨fun _ h => h, fun _ h => .inl h⟩

theorem trans (h : Adds p db db') (h' : Adds p db' db'') : Adds p db db'' := by
  refine ⟨fun id hid => h'.users id (h.users id hid), fun id hid => ?_⟩
  rcases h'.refers id hid with hid | hid
  · exact h.refers id hid
  · exact .inr hid

theorem imp (h : Adds p db db') (hpq : ∀ id, p id → q id) : Adds q db db' :=
  ⟨h.users, fun id hid => (h.refers id hid).imp_right (hpq id)⟩

/-- The three tables may lose rows. -/
theorem of_subset (husers : ∀ id, db.HasUser id → db'.HasUser id)
    (hmembers : ∀ m ∈ db'.userGroupMembers, m ∈ db.userGroupMembers)
    (hauthorised : ∀ r ∈ db'.authorised, r ∈ db.authorised)
    (hroles : ∀ r ∈ db'.userRoleRefs, r ∈ db.userRoleRefs) : Adds p db db' := by
  refine ⟨husers, fun id hid => .inl ?_⟩
  rcases hid with ⟨m, hm, hid⟩ | ⟨hne, r, hr, hid⟩ | ⟨r, hr, hid⟩
  · exact .inl ⟨m, hmembers m hm, hid⟩
  · exact .inr (.inl ⟨hne, r, hauthorised r hr, hid⟩)
  · exact .inr (.inr ⟨r, hroles r hr, hid⟩)

/-- A loop adds what its rounds add. -/
theorem foldlM {α : Type} {f : Database → α → Except Error Database} {as : List α}
    (hround : ∀ a ∈ as, ∀ db db', f db a = .ok db' → Adds p db db')
    (h : as.foldlM f db = .ok db') : Adds p db db' := by
  induction as generalizing db with
  | nil => exact Except.ok.inj h ▸ refl p db
  | cons a as ih =>
    rw [List.foldlM_cons] at h
    obtain ⟨db₁, hfirst, hrest⟩ := bind_eq_ok.mp h
    exact (hround a List.mem_cons_self db db₁ hfirst).trans
      (ih (fun b hb => hround b (List.mem_cons_of_mem a hb)) hrest)

end Adds

/-- A write that adds references to users keeps the store intact. -/
theorem AccountDatabase.Intact.write {db : AccountDatabase} (h : db.Intact)
    (hadds : Adds p db.toDatabase db') (hp : ∀ id, p id → db'.HasUser id) :
    AccountDatabase.Intact { db with toDatabase := db' } := by
  rintro id (hid | hid | hid)
  · exact hadds.users id (h id (.inl hid))
  · exact hadds.users id (h id (.inr (.inl hid)))
  · rcases hadds.refers id hid with hid | hid
    · exact hadds.users id (h id (.inr (.inr hid)))
    · exact hp id hid

end Adds

/-! ## Users -/

section Users

variable {db db' : Database} {uuid : Nat → String} {user : User}

/-- A write of one row keeps the ids of the users. -/
theorem adds_updateUserRow {o : User} (h : UserRepository.update db o = .ok db') :
    Adds (fun _ => False) db db' := by
  rw [UserRepository.update] at h
  split at h
  · cases h
  obtain rfl := Except.ok.inj h
  refine Adds.of_subset ?_ (fun _ hm => hm) (fun _ hr => hr) fun _ hr => hr
  rintro id ⟨u, hu, hid⟩
  obtain ⟨v, hv, hvid⟩ := Table.exists_mem_updateById hu o.id (UserRepository.assign o)
    (UserRepository.assign_id o)
  exact ⟨v, hv, hvid.trans hid⟩

theorem adds_saveUserRoles (h : UserService.saveUserRoles db uuid user = .ok db') :
    Adds (fun id => id = user.id ∧ user.roles ≠ []) db db' := by
  rw [UserService.saveUserRoles] at h
  split at h
  · next userRoleRefs hinsert =>
    obtain rfl := Except.ok.inj h
    refine ⟨fun _ hid => hid, fun id hid => ?_⟩
    rcases hid with hid | hid | ⟨r, hr, hid⟩
    · exact .inl (.inl hid)
    · exact .inl (.inr (.inl hid))
    · rcases (Table.mem_of_insertAll hinsert).mp hr with hr | hr
      · obtain ⟨⟨role, i⟩, hmem, rfl⟩ := List.mem_map.mp hr
        refine .inr ⟨hid.symm, fun hnil => ?_⟩
        rw [hnil] at hmem
        exact absurd hmem List.not_mem_nil
      · exact .inl (.inr (.inr ⟨r, hr, hid⟩))
  · cases h

/-- A new user has the roles that are saved for it. -/
theorem adds_createUser {encoded : Except Error String} {storageCreated : Except Error Unit}
    (h : UserService.createUser db uuid user encoded storageCreated = .ok db') :
    Adds db'.HasUser db db' := by
  obtain ⟨-, password, users, -, hinsert, hroles⟩ := createUser_ok h
  have hsave := adds_saveUserRoles hroles
  refine ⟨fun id hid => hsave.users id ?_, fun id hid => ?_⟩
  · obtain ⟨u, hu, hid⟩ := hid
    exact ⟨u, (Table.mem_of_insert hinsert).mpr (.inr hu), hid⟩
  · refine (hsave.refers id hid).imp_right fun hnew => ?_
    obtain ⟨rfl, -⟩ := hnew
    exact hsave.users _ ⟨_, (Table.mem_of_insert hinsert).mpr (.inl rfl), rfl⟩

/-- An update gives roles to the user of the body. -/
theorem adds_updateUser {id : String} (h : UserService.updateUser db uuid id user = .ok db') :
    db.HasUser id ∧ Adds (fun i => i = user.id ∧ user.roles ≠ []) db db' := by
  obtain ⟨db₁, h, hupdate⟩ := bind_eq_ok.mp h
  obtain ⟨dbUser, hfind, hroles⟩ := bind_eq_ok.mp h
  split at hroles
  · cases hroles
  have hdelete : Adds (fun i => i = user.id ∧ user.roles ≠ []) db
      (UserRoleRefRepository.deleteByUserId db user.id) :=
    Adds.of_subset (fun _ hid => hid) (fun _ hm => hm) (fun _ hr => hr)
      fun _ hr => (Table.mem_deleteWhere.mp hr).1
  obtain ⟨hu, hid⟩ := userById_eq_ok.mp hfind
  exact ⟨⟨dbUser, hu, hid⟩, (hdelete.trans (adds_saveUserRoles hroles)).trans
    ((adds_updateUserRow hupdate).imp fun _ hfalse => hfalse.elim)⟩

theorem adds_updateMembership (db : Database) (uuid id userGroupId : String) :
    Adds (fun i => i = id) db (UserApi.updateMembership db uuid id userGroupId) := by
  have hdelete : Adds (fun i => i = id) db (UserGroupMemberRepository.deleteByUserId db id) :=
    Adds.of_subset (fun _ hid => hid) (fun _ hm => (Table.mem_deleteWhere.mp hm).1)
      (fun _ hr => hr) fun _ hr => hr
  refine hdelete.trans ?_
  unfold UserApi.updateMembership
  dsimp only
  cases hcreate : UserGroupMemberRepository.create (UserGroupMemberRepository.deleteByUserId db id)
      { id := uuid, userId := id, userGroupId } with
  | error e => exact Adds.refl _ _
  | ok db' =>
    rw [UserGroupMemberRepository.create] at hcreate
    split at hcreate
    · next userGroupMembers hinsert =>
      obtain rfl := Except.ok.inj hcreate
      refine ⟨fun _ hid => hid, fun i hi => ?_⟩
      rcases hi with ⟨m, hm, rfl⟩ | hi
      · rcases (Table.mem_of_insert hinsert).mp hm with rfl | hm
        · exact .inr rfl
        · exact .inl (.inl ⟨m, hm, rfl⟩)
      · exact .inl (.inr hi)
    · cases hcreate

/-- The endpoint makes the user of the path a member besides. -/
theorem adds_updateEndpoint {id : String} {item : User}
    (hroles : ∀ db', UserService.updateUser db uuid id item = .ok db' →
      item.roles = [] ∨ db.HasUser item.id) :
    Adds db.HasUser db (UserApi.updateEndpoint db uuid id item) := by
  rw [UserApi.updateEndpoint]
  cases hupdate : UserService.updateUser db uuid id item with
  | error e => exact Adds.refl _ db
  | ok db₁ =>
    obtain ⟨huser, hadds⟩ := adds_updateUser hupdate
    have hfirst : Adds db.HasUser db db₁ := by
      refine hadds.imp ?_
      rintro i ⟨rfl, hne⟩
      exact (hroles db₁ hupdate).resolve_left hne
    refine hfirst.trans ((adds_updateMembership db₁ _ id _).imp ?_)
    rintro i rfl
    exact huser

theorem adds_changePassword {ids : List String} {passwd : String}
    (h : UserService.changePassword db ids passwd = .ok db') : Adds (fun _ => False) db db' := by
  refine Adds.foldlM (fun id _ db db' h => ?_) h
  obtain ⟨db₁, hupdate, h⟩ := bind_eq_ok.mp h
  obtain ⟨-, -, h⟩ := bind_eq_ok.mp h
  exact Except.ok.inj h ▸ adds_updateUserRow hupdate

theorem adds_changeProxyAuth {ids : List String} {proxyAuthEncrypt : String}
    (h : UserService.changeProxyAuth db ids proxyAuthEncrypt = .ok db') :
    Adds (fun _ => False) db db' :=
  Adds.foldlM (fun _ _ _ _ h => adds_updateUserRow h) h

theorem adds_resetTotp {ids : List String} (h : UserService.resetTotp db ids = .ok db') :
    Adds (fun _ => False) db db' :=
  Adds.foldlM (fun _ _ _ _ h => adds_updateUserRow h) h

end Users

/-! ## User groups and grants -/

section Groups

variable {db db' : Database} {userGroupId name : String} {members : List String}

theorem adds_createAll {os : List UserGroupMember}
    (h : UserGroupMemberRepository.createAll db os = .ok db') :
    Adds (fun id => ∃ m ∈ os, m.userId = id) db db' := by
  rw [UserGroupMemberRepository.createAll] at h
  split at h
  · next userGroupMembers hinsert =>
    obtain rfl := Except.ok.inj h
    refine ⟨fun _ hid => hid, fun id hid => ?_⟩
    rcases hid with ⟨m, hm, hid⟩ | hid
    · rcases (Table.mem_of_insertAll hinsert).mp hm with hm | hm
      · exact .inr ⟨m, hm, hid⟩
      · exact .inl (.inl ⟨m, hm, hid⟩)
    · exact .inl (.inr hid)
  · cases h

theorem adds_memberRows
    (h : UserGroupMemberRepository.createAll db (memberRows userGroupId members) = .ok db') :
    Adds (fun id => id ∈ members) db db' := by
  refine (adds_createAll h).imp ?_
  rintro id ⟨m, hm, rfl⟩
  obtain ⟨member, hmember, rfl⟩ := List.mem_map.mp hm
  exact hmember

theorem adds_createUserGroup
    (h : UserGroupService.create db userGroupId name members = .ok db') :
    Adds (fun id => id ∈ members) db db' := by
  rw [UserGroupService.create] at h
  split at h
  · cases h
  obtain ⟨db₁, hcreate, h⟩ := bind_eq_ok.mp h
  refine Adds.trans ?_ (adds_memberRows h)
  rw [UserGroupRepository.create] at hcreate
  split at hcreate
  · obtain rfl := Except.ok.inj hcreate
    exact Adds.of_subset (fun _ hid => hid) (fun _ hm => hm) (fun _ hr => hr) fun _ hr => hr
  · cases hcreate

theorem adds_updateUserGroup
    (h : UserGroupService.update db userGroupId name members = .ok db') :
    Adds (fun id => id ∈ members) db db' := by
  obtain ⟨dbUserGroup, -, h⟩ := bind_eq_ok.mp h
  split at h
  · cases h
  obtain ⟨db₁, hupdate, h⟩ := bind_eq_ok.mp h
  refine Adds.trans ?_ (adds_memberRows h)
  rw [UserGroupRepository.update] at hupdate
  split at hupdate
  · cases hupdate
  · obtain rfl := Except.ok.inj hupdate
    exact Adds.of_subset (fun _ hid => hid) (fun _ hm => (Table.mem_deleteWhere.mp hm).1)
      (fun _ hr => hr) fun _ hr => hr

theorem adds_deleteUserGroup (p : String → Prop) (db : Database) (userGroupId : String) :
    Adds p db (UserGroupService.deleteById db userGroupId) :=
  Adds.of_subset (fun _ hid => hid) (fun _ hm => (Table.mem_deleteWhere.mp hm).1)
    (fun _ hr => (Table.mem_deleteWhere.mp hr).1) fun _ hr => hr

theorem adds_deleteAuthorised (p : String → Prop) (db : Database) (id : String) :
    Adds p db (AuthorisedRepository.deleteById db id) :=
  Adds.of_subset (fun _ hid => hid) (fun _ hm => hm) (fun _ hr => (Table.mem_deleteWhere.mp hr).1)
    fun _ hr => hr

/-- A grant service adds references to the users of its rows. -/
theorem adds_replaceInBatches {items : List Authorised}
    (h : AuthorisedService.replaceInBatches db items = .ok db') :
    Adds (fun id => id ≠ "" ∧ ∃ r ∈ items, r.userId = id) db db' := by
  obtain ⟨t, hreplace, rfl⟩ := GrantCall.replaceInBatches_ok.mp h
  refine ⟨fun _ hid => hid, fun id hid => ?_⟩
  rcases hid with hid | ⟨hne, r, hr, hid⟩ | hid
  · exact .inl (.inl hid)
  · rcases (Table.mem_of_replaceInBatches hreplace).mp hr with hr | ⟨hr, -⟩
    · exact .inr ⟨hne, r, hr, hid⟩
    · exact .inl (.inr (.inl ⟨hne, r, hr, hid⟩))
  · exact .inl (.inr (.inr hid))

theorem adds_authorisedAssets {item : AuthorisedAssetItem}
    (h : AuthorisedService.authorisedAssets db item = .ok db')
    (huser : item.assetIds = [] ∨ item.userId = "" ∨ db.HasUser item.userId) :
    Adds db.HasUser db db' := by
  refine (adds_replaceInBatches h).imp ?_
  rintro id ⟨hne, r, hr, rfl⟩
  obtain ⟨assetId, hassetId, rfl⟩ := List.mem_map.mp hr
  rcases huser with hnil | hempty | huser
  · rw [hnil] at hassetId
    exact absurd hassetId List.not_mem_nil
  · exact absurd hempty hne
  · exact huser

theorem adds_authorisedUsers {item : AuthorisedUserItem}
    (h : AuthorisedService.authorisedUsers db item = .ok db')
    (huser : ∀ id ∈ item.userIds, id = "" ∨ db.HasUser id) : Adds db.HasUser db db' := by
  refine (adds_replaceInBatches h).imp ?_
  rintro id ⟨hne, r, hr, rfl⟩
  obtain ⟨userId, huserId, rfl⟩ := List.mem_map.mp hr
  exact (huser userId huserId).resolve_left hne

theorem adds_authorisedUserGroups {item : AuthorisedUserGroupItem}
    (h : AuthorisedService.authorisedUserGroups db item = .ok db') : Adds db.HasUser db db' := by
  refine (adds_replaceInBatches h).imp ?_
  rintro id ⟨hne, r, hr, rfl⟩
  obtain ⟨userGroupId, -, rfl⟩ := List.mem_map.mp hr
  exact absurd rfl hne

end Groups

/-! ## Properties -/

section Properties

variable {db db' : Database} {items : List (String × String)}

/-- A property leaves the references alone, and removes users only to switch LDAP off. -/
structure Configured (items : List (String × String)) (db db' : Database) : Prop where
  refers : ∀ id, db'.Refers id ↔ db.Refers id
  users : ∀ u ∈ db.users, u ∈ db'.users ∨ u.source = nd.sourceLdap ∧ ("enable-ldap", "false") ∈ items

theorem configured_updateOne {item : String × String}
    (h : PropertyService.updateOne db item = .ok db') : Configured [item] db db' := by
  obtain ⟨key, text⟩ := item
  have hdelete : Configured [(key, text)] db
      (if key = "enable-ldap" ∧ (if text = "" then "-" else text) = "false" then
        UserService.deleteAllLdapUser db else db) := by
    by_cases hldap : key = "enable-ldap" ∧ (if text = "" then "-" else text) = "false"
    · rw [if_pos hldap]
      refine ⟨fun id => Iff.rfl, fun u hu => ?_⟩
      have htext : text = "false" := by
        obtain ⟨-, htext⟩ := hldap
        split at htext
        · exact absurd htext (by decide)
        · exact htext
      by_cases hsource : u.source = nd.sourceLdap
      · exact .inr ⟨hsource, by rw [hldap.1, htext]; exact List.mem_cons_self⟩
      · exact .inl (Table.mem_deleteWhere.mpr ⟨hu, beq_false_of_ne hsource⟩)
    · rw [if_neg hldap]
      exact ⟨fun id => Iff.rfl, fun u hu => .inl hu⟩
  rw [PropertyService.updateOne] at h
  split at h
  · rw [PropertyRepository.create] at h
    split at h
    · obtain rfl := Except.ok.inj h
      exact ⟨hdelete.refers, hdelete.users⟩
    · cases h
  · rw [PropertyRepository.updateByName] at h
    split at h
    · cases h
    · obtain rfl := Except.ok.inj h
      exact ⟨hdelete.refers, hdelete.users⟩

theorem configured_update (h : PropertyService.update db items = .ok db') :
    Configured items db db' := by
  induction items generalizing db with
  | nil =>
    obtain rfl := Except.ok.inj h
    exact ⟨fun _ => Iff.rfl, fun u hu => .inl hu⟩
  | cons item items ih =>
    rw [PropertyService.update, List.foldlM_cons] at h
    obtain ⟨db₁, hfirst, hrest⟩ := bind_eq_ok.mp h
    have hone := configured_updateOne hfirst
    have hmore := ih hrest
    refine ⟨fun id => (hmore.refers id).trans (hone.refers id), fun u hu => ?_⟩
    rcases hone.users u hu with hu | ⟨hsource, hmem⟩
    · rcases hmore.users u hu with hu | ⟨hsource, hmem⟩
      · exact .inl hu
      · exact .inr ⟨hsource, List.mem_cons_of_mem item hmem⟩
    · exact .inr ⟨hsource, List.mem_singleton.mp hmem ▸ List.mem_cons_self⟩

/-- Switching LDAP off keeps the store intact when no table names an LDAP user. -/
theorem AccountDatabase.Intact.updateProperties {db : AccountDatabase} (h : db.Intact)
    (hok : PropertyService.update db.toDatabase items = .ok db')
    (hldap : ("enable-ldap", "false") ∈ items →
      ∀ u ∈ db.users, u.source = nd.sourceLdap → ¬ db.Stores u.id) :
    AccountDatabase.Intact { db with toDatabase := db' } := by
  have hconfigured := configured_update hok
  intro id hid
  have hstored : db.Stores id := by
    rcases hid with hid | hid | hid
    · exact .inl hid
    · exact .inr (.inl hid)
    · exact .inr (.inr ((hconfigured.refers id).mp hid))
  obtain ⟨u, hu, rfl⟩ := h id hstored
  rcases hconfigured.users u hu with hu' | ⟨hsource, hmem⟩
  · exact ⟨u, hu', rfl⟩
  · exact absurd hstored (hldap hmem u hu hsource)

end Properties

/-! ## Roles -/

section Roles

open Transaction RoleService

variable {refs : List UserRoleRef}

/-- The user roles are among the given ones. -/
def RolesAmong (refs : List UserRoleRef) (db : RoleDatabase) : Prop :=
  ∀ r ∈ db.userRoleRefs, r ∈ refs

/-- A statement on the other two tables. -/
theorem keeps_statement {α : Type} {f : RoleDatabase → Except Error (α × RoleDatabase)}
    (hf : ∀ db a db', f db = .ok (a, db') → ∀ r ∈ db'.userRoleRefs, r ∈ db.userRoleRefs) :
    Work.Keeps (RolesAmong refs) (.statement databaseFault f : RoleWork α) :=
  Work.Keeps.statement fun db a db' hdb h r hr => hdb r (hf db a db' h r hr)

/-- A statement that does not fail by itself. -/
theorem keeps_write {α : Type} {f : RoleDatabase → α × RoleDatabase}
    (hf : ∀ db, ∀ r ∈ (f db).2.userRoleRefs, r ∈ db.userRoleRefs) :
    Work.Keeps (RolesAmong refs) (.statement databaseFault fun db => .ok (f db) : RoleWork α) := by
  refine keeps_statement fun db a db' h r hr => hf db r ?_
  rw [Except.ok.inj h]
  exact hr

theorem keeps_createRolePermissionRefs (role : Role) :
    Work.Keeps (RolesAmong refs) (createRolePermissionRefs role) := by
  refine .bind (keeps_write fun _ _ hr => hr) fun _ => .bind (keeps_statement ?_) fun _ => .touch _
  rintro db a db' h r hr
  rw [RoleMenuRefRepository.createInBatches] at h
  split at h
  · obtain ⟨-, rfl⟩ := Prod.mk.inj (Except.ok.inj h)
    exact hr
  · cases h

theorem keeps_create (role : Role) : Work.Keeps (RolesAmong refs) (create role) := by
  refine .transaction (.bind (keeps_statement ?_) fun _ => keeps_createRolePermissionRefs role)
  rintro db a db' h r hr
  rw [RoleRepository.create] at h
  split at h
  · obtain ⟨-, rfl⟩ := Prod.mk.inj (Except.ok.inj h)
    exact hr
  · cases h

theorem keeps_findById (id : String) : Work.Keeps (RolesAmong refs)
    (.statement databaseFault (RoleRepository.findById id) : RoleWork Role) := by
  refine keeps_statement ?_
  rintro db a db' h r hr
  rw [RoleRepository.findById] at h
  split at h
  · obtain ⟨-, rfl⟩ := Prod.mk.inj (Except.ok.inj h)
    exact hr
  · cases h

theorem keeps_updateById (role : Role) (id : String) (force : Bool) :
    Work.Keeps (RolesAmong refs) (updateById role id force) := by
  refine .transaction (.bind (keeps_findById id) fun dbRole => ?_)
  split
  · exact .fail _
  · refine .bind (keeps_statement ?_) fun _ => .bind (keeps_write fun _ _ hr => hr) fun _ =>
      keeps_createRolePermissionRefs { role with id }
    rintro db a db' h r hr
    rw [RoleRepository.updateById] at h
    split at h
    · cases h
    · obtain ⟨-, rfl⟩ := Prod.mk.inj (Except.ok.inj h)
      exact hr

theorem keeps_deleteOne (force : Bool) (id : String) :
    Work.Keeps (RolesAmong refs) (deleteOne force id) := by
  have hcheck : Work.Keeps (RolesAmong refs) (checkDeletable id force) := by
    rw [checkDeletable]
    split
    · exact .pure _
    · refine .bind (keeps_findById id) fun role => ?_
      split
      · exact .fail _
      · exact .pure _
  exact .bind hcheck fun _ => .bind (keeps_write fun _ _ hr => hr) fun _ =>
    .bind (keeps_write fun _ _ hr => hr) fun _ =>
    .bind (keeps_write fun _ _ hr => (Table.mem_deleteWhere.mp hr).1) fun _ => .touch _

theorem keeps_init : Work.Keeps (RolesAmong refs) RoleService.init := by
  refine .bind (.each fun role _ => ?_) fun _ => .bind (keeps_write fun _ _ hr => hr) fun roles =>
    .each fun role _ => .bind (keeps_write fun _ _ hr => hr) fun _ => .touch _
  refine .bind (keeps_write fun _ _ hr => hr) fun exist => ?_
  split
  · exact keeps_updateById role role.id true
  · exact keeps_create role

/-- No call of the role service gives a user a role. -/
theorem mem_userRoleRefs_step {s : RoleState} {c : RoleCall} {r : UserRoleRef}
    (hr : r ∈ (s.step c).db.userRoleRefs) : r ∈ s.db.userRoleRefs := by
  have hstart : RolesAmong s.db.userRoleRefs.rows s.db := fun _ hr => hr
  cases c with
  | create role served => exact keeps_create role ⟨s.db, s.roleMenus, served⟩ hstart r hr
  | updateById role id force served =>
    exact keeps_updateById role id force ⟨s.db, s.roleMenus, served⟩ hstart r hr
  | deleteByIds ids force served =>
    have hkeeps : Work.Keeps (RolesAmong s.db.userRoleRefs.rows) (deleteByIds ids force) :=
      .transaction (.each fun id _ => keeps_deleteOne force id)
    exact hkeeps ⟨s.db, s.roleMenus, served⟩ hstart r hr
  | start => exact keeps_init ⟨s.db, fun _ => none, none⟩ hstart r hr

end Roles

/-! ## Login policies -/

section LoginPolicies

variable {db db' db'' : AccountDatabase} {p q : String → Prop} {loginPolicyId : String}
  {userIds : List String}

/-- `db'` is `db` with other login policies, where only users with the property `p` are new. -/
structure Binds (p : String → Prop) (db db' : AccountDatabase) : Prop where
  database : db'.toDatabase = db.toDatabase
  accessTokens : db'.accessTokens = db.accessTokens
  refs : ∀ r ∈ db'.loginPolicyUserRefs, r ∈ db.loginPolicyUserRefs ∨ p r.userId

namespace Binds

theorem refl (p : String → Prop) (db : AccountDatabase) : Binds p db db :=
  ⟨rfl, rfl, fun _ hr => .inl hr⟩

theorem trans (h : Binds p db db') (h' : Binds p db' db'') : Binds p db db'' := by
  refine ⟨h'.database.trans h.database, h'.accessTokens.trans h.accessTokens, fun r hr => ?_⟩
  rcases h'.refs r hr with hr | hr
  · exact h.refs r hr
  · exact .inr hr

theorem imp (h : Binds p db db') (hpq : ∀ id, p id → q id) : Binds q db db' :=
  ⟨h.database, h.accessTokens, fun r hr => (h.refs r hr).imp_right (hpq r.userId)⟩

theorem foldl {α : Type} {f : AccountDatabase → α → AccountDatabase}
    (hround : ∀ db a, Binds p db (f db a)) (as : List α) (db : AccountDatabase) :
    Binds p db (as.foldl f db) := by
  induction as generalizing db with
  | nil => exact refl p db
  | cons a as ih => exact (hround db a).trans (ih _)

theorem deleteWhere (p : String → Prop) (db : AccountDatabase) (b : LoginPolicyUserRef → Bool) :
    Binds p db (LoginPolicyUserRefRepository.deleteWhere db b) :=
  ⟨rfl, rfl, fun _ hr => .inl (Table.mem_deleteWhere.mp hr).1⟩

end Binds

theorem binds_createTimePeriods {periods : List TimePeriod}
    (h : TimePeriodRepository.createInBatches db periods = .ok db') : Binds p db db' := by
  rw [TimePeriodRepository.createInBatches] at h
  split at h
  · obtain rfl := Except.ok.inj h
    exact ⟨rfl, rfl, fun _ hr => .inl hr⟩
  · cases h

theorem binds_createLoginPolicy {m : LoginPolicy} {periods : List TimePeriod} {uuid : Nat → String}
    (h : LoginPolicyService.create db m periods uuid = .ok db') : Binds p db db' := by
  obtain ⟨db₁, hcreate, h⟩ := bind_eq_ok.mp h
  refine Binds.trans ?_ (binds_createTimePeriods h)
  rw [LoginPolicyRepository.create] at hcreate
  split at hcreate
  · obtain rfl := Except.ok.inj hcreate
    exact ⟨rfl, rfl, fun _ hr => .inl hr⟩
  · cases hcreate

theorem binds_updateLoginPolicy {m : LoginPolicy} {periods : List TimePeriod} {uuid : Nat → String}
    {id : String} (h : LoginPolicyService.updateById db m periods uuid id = .ok db') :
    Binds p db db' := by
  obtain ⟨db₁, hupdate, h⟩ := bind_eq_ok.mp h
  refine Binds.trans ?_ (binds_createTimePeriods h)
  rw [LoginPolicyRepository.updateById] at hupdate
  split at hupdate
  · cases hupdate
  · obtain rfl := Except.ok.inj hupdate
    exact ⟨rfl, rfl, fun _ hr => .inl hr⟩

theorem binds_deleteLoginPolicies (p : String → Prop) (db : AccountDatabase) (ids : List String) :
    Binds p db (LoginPolicyService.deleteByIds db ids) := by
  refine Binds.foldl (fun db id => ?_) ids db
  exact ⟨rfl, rfl, fun _ hr => .inl (Table.mem_deleteWhere.mp hr).1⟩

theorem binds_createInBatches {m : List LoginPolicyUserRef}
    (h : LoginPolicyUserRefRepository.createInBatches db m = .ok db') :
    Binds (fun id => ∃ r ∈ m, r.userId = id) db db' := by
  rw [LoginPolicyUserRefRepository.createInBatches] at h
  split at h
  · next t hinsert =>
    obtain rfl := Except.ok.inj h
    refine ⟨rfl, rfl, fun r hr => ?_⟩
    have hmem : r ∈ (db.loginPolicyUserRefs.insertInBatches 100 m).1 := by
      rw [hinsert]
      exact hr
    rcases Table.mem_of_insertInBatches hmem with hr | hr
    · exact .inr ⟨r, hr, rfl⟩
    · exact .inl hr
  · cases h

/-- Binding adds the users that exist. -/
theorem binds_bind (h : LoginPolicyService.bind db loginPolicyId userIds = .ok db') :
    Binds db.HasUser db db' := by
  unfold LoginPolicyService.bind at h
  refine Binds.trans (Binds.foldl (fun db r => Binds.deleteWhere _ db _) _ db)
    ((binds_createInBatches h).imp ?_)
  rintro id ⟨r, hr, rfl⟩
  obtain ⟨userId, huserId, rfl⟩ := List.mem_map.mp hr
  obtain ⟨-, hexists⟩ := Bool.and_eq_true_iff.mp (List.mem_filter.mp huserId).2
  obtain ⟨u, hu, hid⟩ := List.any_eq_true.mp hexists
  exact ⟨u, hu, beq_iff_eq.mp hid⟩

theorem binds_unbind (p : String → Prop) (db : AccountDatabase) (loginPolicyId : String)
    (userIds : List String) : Binds p db (LoginPolicyService.unbind db loginPolicyId userIds) :=
  Binds.foldl (fun db _ => Binds.deleteWhere p db _) _ db

theorem AccountDatabase.Intact.binds (h : db.Intact) (hbinds : Binds db.HasUser db db') :
    db'.Intact := by
  intro id hid
  have huser : db.HasUser id := by
    rcases hid with ⟨r, hr, hid⟩ | ⟨r, hr, rfl⟩ | hid
    · exact h id (.inl ⟨r, hbinds.accessTokens ▸ hr, hid⟩)
    · rcases hbinds.refs r hr with hr | huser
      · exact h r.userId (.inr (.inl ⟨r, hr, rfl⟩))
      · exact huser
    · exact h id (.inr (.inr (hbinds.database ▸ hid)))
  exact hbinds.database ▸ huser

end LoginPolicies

/-! ## Tokens -/

section Tokens

variable {s s' : AccountServer}

/-- Logging a token out writes the login logs only. -/
theorem logout_db (s : AccountServer) (t : String) :
    ∃ loginLogs, (UserService.logout s t).db = { s.db with loginLogs } := by
  rcases UserService.logout_db_cases s t with hdb | hdb
  · rw [hdb]
    exact UserService.onEvicted_loginLogs s.db t
  · exact ⟨s.db.loginLogs, hdb⟩

theorem foldl_logout_db (s : AccountServer) (ls : List LoginLog) :
    ∃ loginLogs, (ls.foldl (fun s l => UserService.logout s l.id) s).db = { s.db with loginLogs } := by
  induction ls generalizing s with
  | nil => exact ⟨s.db.loginLogs, rfl⟩
  | cons l ls ih =>
    obtain ⟨loginLogs, hdb⟩ := logout_db s l.id
    obtain ⟨loginLogs', hdb'⟩ := ih (UserService.logout s l.id)
    refine ⟨loginLogs', hdb'.trans ?_⟩
    rw [hdb]

/-- The login logs play no part. -/
theorem AccountDatabase.Intact.of_loginLogs {db db' : AccountDatabase} (h : db.Intact)
    (hdb : ∃ loginLogs, db' = { db with loginLogs }) : db'.Intact := by
  obtain ⟨loginLogs, rfl⟩ := hdb
  exact h

theorem intact_updateStatusById (h : s.db.Intact) (id status : String) :
    (s.updateStatusById id status).2.db.Intact := by
  rcases updateStatusById_cases s id status with hout | ⟨s₁, hfirst, hwrite⟩
  · rw [hout]
    exact h
  have h₁ : s₁.db.Intact := by
    rcases hfirst with ⟨-, rfl⟩ | hlogout
    · exact h
    · obtain ⟨u, -, hok⟩ := bind_eq_ok.mp hlogout
      obtain rfl := Except.ok.inj hok
      exact h.of_loginLogs (foldl_logout_db s _)
  rcases hwrite with hout | ⟨db', hok, hout⟩
  · rw [hout]
    exact h₁
  · rw [hout]
    exact h₁.write (adds_updateUserRow hok) fun _ hfalse => hfalse.elim

/-- Fewer access tokens. -/
theorem AccountDatabase.Intact.setAccessTokens {db : AccountDatabase} (h : db.Intact)
    {accessTokens : Table AccessToken AccessToken.id}
    (hrows : ∀ r ∈ accessTokens, r ∈ db.accessTokens ∨ db.HasUser r.userId) :
    AccountDatabase.Intact { db with accessTokens } := by
  rintro id (⟨r, hr, rfl⟩ | hid)
  · rcases hrows r hr with hr | huser
    · exact h r.userId (.inl ⟨r, hr, rfl⟩)
    · exact huser
  · exact h id (.inr hid)

/-- What is left of the tables after the access token of a user is deleted. -/
theorem delAccessToken_db (s : AccountServer) (userId : String) :
    ∃ loginLogs, (AccessTokenService.delAccessToken s userId).db =
      AccessTokenRepository.deleteByUserId { s.db with loginLogs } userId := by
  rw [AccessTokenService.delAccessToken]
  cases AccessTokenRepository.findByUserId s.db userId with
  | none => exact ⟨s.db.loginLogs, rfl⟩
  | some oldAccessToken =>
    dsimp only
    split
    · obtain ⟨loginLogs, hdb⟩ := logout_db s oldAccessToken.token
      refine ⟨loginLogs, ?_⟩
      rw [hdb]
    · exact ⟨s.db.loginLogs, rfl⟩

theorem intact_delAccessToken (h : s.db.Intact) (userId : String) :
    (AccessTokenService.delAccessToken s userId).db.Intact := by
  obtain ⟨loginLogs, hdb⟩ := delAccessToken_db s userId
  rw [hdb]
  exact (h.of_loginLogs ⟨loginLogs, rfl⟩).setAccessTokens
    fun _ hr => .inl (Table.mem_deleteWhere.mp hr).1

/-- An access token is generated for a user who is found, or the rows are rolled back. -/
theorem intact_genAccessToken (h : s.db.Intact) (userId id uuid : String) :
    (AccessTokenService.genAccessToken s userId id uuid).2.db.Intact := by
  obtain ⟨loginLogs, hdb⟩ := delAccessToken_db s userId
  have hrolledBack : AccountDatabase.Intact
      { (AccessTokenService.delAccessToken s userId).db with accessTokens := s.db.accessTokens } := by
    rw [hdb]
    exact h.of_loginLogs ⟨loginLogs, rfl⟩
  rw [AccessTokenService.genAccessToken]
  dsimp only
  cases hfind : UserRepository.findById
      (AccessTokenService.delAccessToken s userId).db.toDatabase userId with
  | error e => exact hrolledBack
  | ok user =>
    obtain ⟨hu, hid⟩ := userById_eq_ok.mp hfind
    dsimp only
    cases hinsert : (AccessTokenService.delAccessToken s userId).db.accessTokens.insert
        { id, userId, token := "forever-" ++ uuid } with
    | none => exact hrolledBack
    | some accessTokens =>
      refine (intact_delAccessToken h userId).setAccessTokens fun r hr => ?_
      rcases (Table.mem_of_insert hinsert).mp hr with rfl | hr
      · exact .inr ⟨user, hu, hid⟩
      · exact .inl hr

/-- The tables after the transaction of `DeleteUserById`. -/
theorem deleteUserById_ok {db db' : Database} {userId : String} {storageDeleted : Except Error Unit}
    (h : UserService.deleteUserById db userId storageDeleted = .ok db') :
    storageDeleted = .ok () ∧ (∀ id, id ≠ userId → db.HasUser id → db'.HasUser id) ∧
      ∀ id, db'.Refers id → db.Refers id ∧ id ≠ userId := by
  obtain ⟨user, hfind, h⟩ := bind_eq_ok.mp h
  obtain ⟨o, hstorage, h⟩ := bind_eq_ok.mp h
  obtain rfl := Except.ok.inj h
  obtain ⟨-, huser⟩ := userById_eq_ok.mp hfind
  refine ⟨hstorage, ?_, ?_⟩
  · rintro id hne ⟨u, hu, rfl⟩
    exact ⟨u, Table.mem_deleteWhere.mpr ⟨hu, beq_false_of_ne hne⟩, rfl⟩
  · rintro id (⟨m, hm, rfl⟩ | ⟨hne, r, hr, rfl⟩ | ⟨r, hr, rfl⟩)
    · obtain ⟨hm, hid⟩ := Table.mem_deleteWhere.mp hm
      exact ⟨.inl ⟨m, hm, rfl⟩, beq_eq_false_iff_ne.mp hid⟩
    · obtain ⟨hr, hid⟩ := Table.mem_deleteWhere.mp hr
      exact ⟨.inr (.inl ⟨hne, r, hr, rfl⟩), beq_eq_false_iff_ne.mp hid⟩
    · obtain ⟨hr, hid⟩ := Table.mem_deleteWhere.mp hr
      exact ⟨.inr (.inr ⟨r, hr, rfl⟩), huser ▸ beq_eq_false_iff_ne.mp hid⟩

theorem intact_deleteUserById (h : s.db.Intact) {userId : String} {storageDeleted : Except Error Unit}
    (hclean : storageDeleted = .ok () → (∀ r ∈ s.db.accessTokens, r.userId ≠ userId) ∧
      ∀ r ∈ s.db.loginPolicyUserRefs, r.userId ≠ userId) :
    (s.deleteUserById userId storageDeleted).2.db.Intact := by
  rw [AccountServer.deleteUserById]
  cases UserRepository.findById s.db.toDatabase userId with
  | error e => exact h
  | ok user =>
    dsimp only
    cases hdelete : UserService.deleteUserById s.db.toDatabase userId storageDeleted with
    | error e => exact h
    | ok db' =>
      obtain ⟨hstorage, husers, hrefers⟩ := deleteUserById_ok hdelete
      obtain ⟨htokens, hpolicies⟩ := hclean hstorage
      refine AccountDatabase.Intact.of_loginLogs ?_ (foldl_logout_db _ _)
      rintro id (⟨r, hr, rfl⟩ | ⟨r, hr, rfl⟩ | hid)
      · exact husers r.userId (htokens r hr) (h r.userId (.inl ⟨r, hr, rfl⟩))
      · exact husers r.userId (hpolicies r hr) (h r.userId (.inr (.inl ⟨r, hr, rfl⟩)))
      · obtain ⟨hid, hne⟩ := hrefers id hid
        exact husers id hne (h id (.inr (.inr hid)))

end Tokens

/-! ## Starts -/

/-- The loop of `Reload` goes through when every access token has a user. -/
theorem exists_foldlM_reloadOne {rs : List AccessToken} {s : AccountServer}
    (h : ∀ r ∈ rs, s.db.HasUser r.userId) :
    ∃ s', rs.foldlM AccessTokenService.reloadOne s = .ok s' := by
  induction rs generalizing s with
  | nil => exact ⟨s, rfl⟩
  | cons r rs ih =>
    obtain ⟨⟨u, hu, hid⟩, hrs⟩ := List.forall_mem_cons.mp h
    have hone := reloadOne_eq (s := s) hu hid
    rw [List.foldlM_cons, hone]
    exact ih hrs

/-- A start looks up the user of every access token, and these exist in an intact store. -/
theorem AccountDatabase.Intact.start {s : AccountServer} (h : s.db.Intact) :
    ∃ s', reloadData s = .ok s' := by
  have hr : Reloaded _ _ (UserService.reloadToken { s with tokens := ∅ }) :=
    reloaded_foldl (LoginLogRepository.findAliveLoginLogs s.db) { s with tokens := ∅ }
  refine exists_foldlM_reloadOne fun r hr' => ?_
  rw [hr.database]
  exact h r.userId (.inl ⟨r, hr.accessTokens ▸ hr', rfl⟩)

/-! ## The calls -/

namespace Installation

variable {s s' : Installation} {c : InstallationCall}

/-- A write that fails changes nothing. -/
theorem intact_write (h : s.server.db.Intact) {f : Database → Except Error Database}
    (hok : ∀ db', f s.server.db.toDatabase = .ok db' →
      AccountDatabase.Intact { s.server.db with toDatabase := db' }) :
    (s.write f).server.db.Intact := by
  rw [write, AccountServer.write]
  cases hf : f s.server.db.toDatabase with
  | ok db' => exact hok db' hf
  | error e => exact h

theorem intact_writeAccounts (h : s.server.db.Intact)
    {f : AccountDatabase → Except Error AccountDatabase}
    (hok : ∀ db', f s.server.db = .ok db' → Binds s.server.db.HasUser s.server.db db') :
    (s.writeAccounts f).server.db.Intact := by
  rw [writeAccounts]
  cases hf : f s.server.db with
  | ok db' => exact h.binds (hok db' hf)
  | error e => exact h

/-- A write that adds references to users of the store. -/
theorem intact_write_of_adds (h : s.server.db.Intact) {f : Database → Except Error Database}
    (hok : ∀ db', f s.server.db.toDatabase = .ok db' →
      Adds s.server.db.HasUser s.server.db.toDatabase db') : (s.write f).server.db.Intact :=
  intact_write h fun db' hf => h.write (hok db' hf) (hok db' hf).users

/-- **One step**: a call of the guard keeps the references intact. -/
theorem intact_call (h : s.server.db.Intact) (hkeeps : s.Keeps c) : (s.call c).server.db.Intact := by
  have hnone : ∀ {db' : Database}, Adds (fun _ => False) s.server.db.toDatabase db' →
      Adds s.server.db.HasUser s.server.db.toDatabase db' :=
    fun hadds => hadds.imp fun _ hfalse => hfalse.elim
  cases c with
  | createUser uuid user encoded storageCreated =>
    exact intact_write h fun db' hok => h.write (adds_createUser hok) fun _ huser => huser
  | updateUser uuid id item =>
    refine intact_write_of_adds h fun db' hok => ?_
    exact Except.ok.inj hok ▸ adds_updateEndpoint hkeeps
  | updateStatus id status => exact intact_updateStatusById h id status
  | changePassword ids passwd =>
    exact intact_write_of_adds h fun db' hok => hnone (adds_changePassword hok)
  | changeProxyAuth ids proxyAuthEncrypt =>
    exact intact_write_of_adds h fun db' hok => hnone (adds_changeProxyAuth hok)
  | resetTotp ids => exact intact_write_of_adds h fun db' hok => hnone (adds_resetTotp hok)
  | deleteUser userId storageDeleted => exact intact_deleteUserById h hkeeps
  | createUserGroup userGroupId name members =>
    exact intact_write_of_adds h fun db' hok => (adds_createUserGroup hok).imp (hkeeps db' hok)
  | updateUserGroup userGroupId name members =>
    exact intact_write_of_adds h fun db' hok => (adds_updateUserGroup hok).imp (hkeeps db' hok)
  | deleteUserGroup userGroupId =>
    refine intact_write_of_adds h fun db' hok => ?_
    exact Except.ok.inj hok ▸ adds_deleteUserGroup _ _ userGroupId
  | genAccessToken userId id uuid => exact intact_genAccessToken h userId id uuid
  | delAccessToken userId => exact intact_delAccessToken h userId
  | createLoginPolicy m periods uuid =>
    exact intact_writeAccounts h fun db' hok => binds_createLoginPolicy hok
  | updateLoginPolicy m periods uuid id =>
    exact intact_writeAccounts h fun db' hok => binds_updateLoginPolicy hok
  | deleteLoginPolicies ids =>
    refine intact_writeAccounts h fun db' hok => ?_
    exact Except.ok.inj hok ▸ binds_deleteLoginPolicies _ _ ids
  | bindLoginPolicy loginPolicyId userIds =>
    exact intact_writeAccounts h fun db' hok => binds_bind hok
  | unbindLoginPolicy loginPolicyId userIds =>
    refine intact_writeAccounts h fun db' hok => ?_
    exact Except.ok.inj hok ▸ binds_unbind _ _ loginPolicyId userIds
  | authorisedAssets item =>
    exact intact_write_of_adds h fun db' hok => adds_authorisedAssets hok (hkeeps db' hok)
  | authorisedUsers item =>
    exact intact_write_of_adds h fun db' hok => adds_authorisedUsers hok (hkeeps db' hok)
  | authorisedUserGroups item =>
    exact intact_write_of_adds h fun db' hok => adds_authorisedUserGroups hok
  | deleteAuthorised id =>
    refine intact_write_of_adds h fun db' hok => ?_
    exact Except.ok.inj hok ▸ adds_deleteAuthorised _ _ id
  | role call =>
    have hadds : Adds (fun _ => False) s.server.db.toDatabase
        (s.callRoles call).server.db.toDatabase :=
      Adds.of_subset (fun _ hid => hid) (fun _ hm => hm) (fun _ hr => hr)
        fun _ hr => mem_userRoleRefs_step hr
    exact h.write hadds fun _ hfalse => hfalse.elim
  | updateProperties items =>
    exact intact_write h fun db' hok => h.updateProperties hok (hkeeps db' hok)

/-- A user, without references. -/
def oneUser : Installation := { server := AccountServer.init AccountServer.oneUser }

theorem intact_oneUser : oneUser.server.db.Intact := by
  rintro id (⟨r, hr, -⟩ | ⟨r, hr, -⟩ | ⟨m, hm, -⟩ | ⟨-, r, hr, -⟩ | ⟨r, hr, -⟩)
  · cases hr
  · cases hr
  · cases hm
  · cases hr
  · cases hr

/-- A user is deleted who has an access token. -/
def deletedUser : Installation :=
  (oneUser.call (.genAccessToken "u1" "t1" "a1")).call (.deleteUser "u1" (.ok ()))

end Installation

end NextDBM
