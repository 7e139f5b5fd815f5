import NextDBM.Access.Proofs.MembershipProofs
import NextDBM.Backups.Backup

/-!
# The loops of an import

What each loop of `Import` leaves: the copies it adds, the map it fills, and the tables it does not
touch.
-/

namespace NextDBM

open Relational BackupService

/-! ## Maps -/

namespace BackupService

namespace IdMapping

variable {m : IdMapping} {id id' new : String}

theorem translate_insert : translate (m.insert id new) id = new := by
  unfold translate
  rw [AList.lookup_insert]
  rfl

theorem translate_insert_of_ne (h : id' ≠ id) : translate (m.insert id new) id' = m.translate id' := by
  unfold translate
  rw [AList.lookup_insert_ne h]

theorem translate_erase : translate (m.erase id) id = "" := by
  unfold translate
  rw [AList.lookup_erase]
  rfl

theorem translate_erase_of_ne (h : id' ≠ id) : translate (m.erase id) id' = m.translate id' := by
  unfold translate
  rw [AList.lookup_erase_ne h]

theorem translate_empty : translate ∅ id = "" := rfl

end IdMapping

open IdMapping

theorem translate_foldl {uuid : String → String} {ids : List String} {m : IdMapping} {id : String}
    (h : id ∈ ids ∨ m.translate id = uuid id) :
    IdMapping.translate (ids.foldl (fun m id => m.insert id (uuid id)) m) id = uuid id := by
  induction ids generalizing m with
  | nil => exact h.resolve_left List.not_mem_nil
  | cons k ids ih =>
    rw [List.foldl_cons]
    apply ih
    by_cases hk : id = k
    · subst hk
      exact .inr translate_insert
    · rw [translate_insert_of_ne hk]
      rcases h with h | h
      · exact .inl (List.mem_of_ne_of_mem hk h)
      · exact .inr h

/-- The map that a loop fills has the drawn id of each row. -/
theorem translate_idMapping {uuid : String → String} {ids : List String} {id : String}
    (h : id ∈ ids) : (idMapping uuid ids).translate id = uuid id :=
  translate_foldl (.inl h)

theorem translate_idMapping_cases (uuid : String → String) (ids : List String) (id : String) :
    (idMapping uuid ids).translate id = uuid id ∨ (idMapping uuid ids).translate id = "" := by
  unfold idMapping
  have hstart : IdMapping.translate ∅ id = uuid id ∨ IdMapping.translate ∅ id = "" := .inr rfl
  revert hstart
  generalize (∅ : IdMapping) = m
  induction ids generalizing m with
  | nil => exact fun h => h
  | cons k ids ih =>
    intro h
    apply ih
    by_cases hk : id = k
    · subst hk
      exact .inl translate_insert
    · rw [translate_insert_of_ne hk]
      exact h

/-! ## Users -/

section Users

variable {uuid : Draws} {db db' : Database} {m m' : IdMapping}

/-- The row that an import adds for a user. -/
def copyUser (uuid : Draws) (u : User) : User :=
  { u with id := uuid.user u.id, password := uuid.password u.id }

theorem existByUsername_iff {username : String} :
    UserRepository.existByUsername db username = true ↔ NameTaken db username := by
  simp [UserRepository.existByUsername, NameTaken, Table.mem_def]

theorem userCreate_ok {o : User} (h : UserRepository.create db o = .ok db') :
    ∃ users, db.users.insert o = some users ∧ db' = { db with users } := by
  rw [UserRepository.create] at h
  split at h
  · next users hinsert => exact ⟨users, hinsert, (Except.ok.inj h).symm⟩
  · cases h

/-- What the loop over the users leaves. -/
structure UsersImported (uuid : Draws) (db db' : Database) (m m' : IdMapping) (items : List User) :
    Prop where
  frame : ∃ users, db' = { db with users }
  keeps : ∀ t ∈ db.users, t ∈ db'.users
  only : ∀ t ∈ db'.users, t ∈ db.users ∨ ∃ u ∈ items, t = copyUser uuid u
  added : ∀ u ∈ items, FirstOfName User.username (NameTaken db) items u →
    copyUser uuid u ∈ db'.users ∧ m'.translate u.id = uuid.user u.id
  skipped : ∀ u ∈ items, ¬ FirstOfName User.username (NameTaken db) items u →
    m'.translate u.id = ""
  other : ∀ id, (∀ u ∈ items, u.id ≠ id) → m'.translate id = m.translate id

/-- A user whose name is taken leaves no trace but in the map. -/
theorem UsersImported.skip {item : User} {items : List User} (hnew : ∀ u ∈ items, u.id ≠ item.id)
    (htaken : NameTaken db item.username)
    (h : UsersImported uuid db db' (m.erase item.id) m' items) :
    UsersImported uuid db db' m m' (item :: items) where
  frame := h.frame
  keeps := h.keeps
  only t ht := by
    rcases h.only t ht with ht | ⟨u, hu, heq⟩
    · exact .inl ht
    · exact .inr ⟨u, List.mem_cons_of_mem item hu, heq⟩
  added u hu hfirst := by
    rcases List.mem_cons.mp hu with rfl | hu
    · exact absurd htaken hfirst.free
    · have hne : u ≠ item := fun heq => hnew u hu (heq ▸ rfl)
      exact h.added u hu ((FirstOfName.cons_of_taken htaken hne).mp hfirst)
  skipped u hu hfirst := by
    rcases List.mem_cons.mp hu with rfl | hu
    · rw [h.other u.id hnew, translate_erase]
    · have hne : u ≠ item := fun heq => hnew u hu (heq ▸ rfl)
      exact h.skipped u hu fun hu => hfirst ((FirstOfName.cons_of_taken htaken hne).mpr hu)
  other id hid := by
    have hne : id ≠ item.id := (hid item List.mem_cons_self).symm
    rw [h.other id fun u hu => hid u (List.mem_cons_of_mem item hu), translate_erase_of_ne hne]

/-- A user whose name is free is copied and enters the map. -/
theorem UsersImported.add {db₁ : Database} {item : User} {items : List User}
    (hnew : ∀ u ∈ items, u.id ≠ item.id) (hfree : ¬ NameTaken db item.username)
    (hcreate : UserRepository.create db (copyUser uuid item) = .ok db₁)
    (h : UsersImported uuid db₁ db' (m.insert item.id (uuid.user item.id)) m' items) :
    UsersImported uuid db db' m m' (item :: items) := by
  obtain ⟨users, hinsert, rfl⟩ := userCreate_ok hcreate
  have htaken : ∀ n, NameTaken { db with users } n ↔ n = item.username ∨ NameTaken db n := by
    intro n
    constructor
    · rintro ⟨t, ht, rfl⟩
      rcases (Table.mem_of_insert hinsert).mp ht with rfl | ht
      · exact .inl rfl
      · exact .inr ⟨t, ht, rfl⟩
    · rintro (rfl | ⟨t, ht, rfl⟩)
      · exact ⟨copyUser uuid item, (Table.mem_of_insert hinsert).mpr (.inl rfl), rfl⟩
      · exact ⟨t, (Table.mem_of_insert hinsert).mpr (.inr ht), rfl⟩
  have hcopy : copyUser uuid item ∈ db'.users :=
    h.keeps _ ((Table.mem_of_insert hinsert).mpr (.inl rfl))
  refine
    { frame := ?_
      keeps := fun t ht => h.keeps t ((Table.mem_of_insert hinsert).mpr (.inr ht))
      only := ?_
      added := ?_
      skipped := ?_
      other := ?_ }
  · obtain ⟨users', rfl⟩ := h.frame
    exact ⟨users', rfl⟩
  · intro t ht
    rcases h.only t ht with ht | ⟨u, hu, heq⟩
    · rcases (Table.mem_of_insert hinsert).mp ht with heq | ht
      · exact .inr ⟨item, List.mem_cons_self, heq⟩
      · exact .inl ht
    · exact .inr ⟨u, List.mem_cons_of_mem item hu, heq⟩
  · intro u hu hfirst
    rcases List.mem_cons.mp hu with rfl | hu
    · refine ⟨hcopy, ?_⟩
      rw [h.other u.id hnew, translate_insert]
    · have hne : u ≠ item := fun heq => hnew u hu (heq ▸ rfl)
      exact h.added u hu ((FirstOfName.cons_of_free htaken hne).mp hfirst)
  · intro u hu hfirst
    rcases List.mem_cons.mp hu with rfl | hu
    · exact absurd (FirstOfName.head hfree items) hfirst
    · have hne : u ≠ item := fun heq => hnew u hu (heq ▸ rfl)
      exact h.skipped u hu fun hu => hfirst ((FirstOfName.cons_of_free htaken hne).mpr hu)
  · intro id hid
    have hne : id ≠ item.id := (hid item List.mem_cons_self).symm
    rw [h.other id fun u hu => hid u (List.mem_cons_of_mem item hu), translate_insert_of_ne hne]

theorem importUsers_ok {items : List User} (hids : (items.map User.id).Nodup)
    (h : importUsers uuid db m items = .ok (db', m')) :
    UsersImported uuid db db' m m' items := by
  induction items generalizing db m with
  | nil =>
    obtain ⟨rfl, rfl⟩ := Prod.mk.inj (Except.ok.inj h)
    exact
      { frame := ⟨db.users, rfl⟩
        keeps := fun t ht => ht
        only := fun t ht => .inl ht
        added := fun u hu => absurd hu List.not_mem_nil
        skipped := fun u hu => absurd hu List.not_mem_nil
        other := fun id _ => rfl }
  | cons item items ih =>
    obtain ⟨hitem, hids⟩ := List.nodup_cons.mp hids
    have hnew : ∀ u ∈ items, u.id ≠ item.id := by
      intro u hu heq
      exact hitem (heq ▸ List.mem_map_of_mem hu)
    rw [importUsers] at h
    split at h
    · next htaken => exact (ih hids h).skip hnew (existByUsername_iff.mp htaken)
    · next hfree =>
      obtain ⟨db₁, hcreate, h⟩ := bind_eq_ok.mp h
      exact (ih hids h).add hnew (fun ht => hfree (existByUsername_iff.mpr ht)) hcreate

end Users

/-! ## User groups -/

section UserGroups

variable {uuid : Nat → String} {f : String → String} {db db' : Database}

theorem existByName_iff {name : String} :
    UserGroupRepository.existByName db name = true ↔ GroupNameTaken db name := by
  simp [UserGroupRepository.existByName, GroupNameTaken, Table.mem_def]

/-- What the creation of a user group leaves. -/
structure GroupCreated (db db' : Database) (groupId name : String) (members : List String) :
    Prop where
  free : ¬ GroupNameTaken db name
  frame : ∃ userGroups userGroupMembers, db' = { db with userGroups, userGroupMembers }
  taken : ∀ n, GroupNameTaken db' n ↔ n = name ∨ GroupNameTaken db n
  rows : ∀ r, r ∈ db'.userGroupMembers ↔ r ∈ memberRows groupId members ∨ r ∈ db.userGroupMembers
  nodup : ((memberRows groupId members).map UserGroupMember.id).Nodup

theorem groupCreated_of_ok {groupId name : String} {members : List String}
    (h : UserGroupService.create db groupId name members = .ok db') :
    GroupCreated db db' groupId name members := by
  rw [UserGroupService.create] at h
  split at h
  · cases h
  · next hfree =>
    obtain ⟨db₁, hcreate, hall⟩ := bind_eq_ok.mp h
    rw [UserGroupRepository.create] at hcreate
    split at hcreate
    · next userGroups hinsert =>
      obtain rfl := Except.ok.inj hcreate
      rw [UserGroupMemberRepository.createAll] at hall
      split at hall
      · next userGroupMembers hmembers =>
        obtain rfl := Except.ok.inj hall
        exact
          { free := fun ht => hfree (existByName_iff.mpr ht)
            frame := ⟨userGroups, userGroupMembers, rfl⟩
            taken := by
              intro n
              constructor
              · rintro ⟨g, hg, rfl⟩
                rcases (Table.mem_of_insert hinsert).mp hg with rfl | hg
                · exact .inl rfl
                · exact .inr ⟨g, hg, rfl⟩
              · rintro (rfl | ⟨g, hg, rfl⟩)
                · exact ⟨_, (Table.mem_of_insert hinsert).mpr (.inl rfl), rfl⟩
                · exact ⟨g, (Table.mem_of_insert hinsert).mpr (.inr hg), rfl⟩
            rows := fun r => Table.mem_of_insertAll hmembers
            nodup := Table.nodup_of_insertAll hmembers }
      · cases hall
    · cases hcreate

/-- The only error that an import passes over is that of a name in use. -/
theorem groupNameTaken_of_error {groupId name : String} {members : List String}
    (h : UserGroupService.create db groupId name members = .error nd.errNameAlreadyUsed) :
    GroupNameTaken db name := by
  rw [UserGroupService.create] at h
  split at h
  · next htaken => exact existByName_iff.mp htaken
  · rw [UserGroupRepository.create] at h
    split at h
    · simp only [UserGroupMemberRepository.createAll, Except.bind, bind] at h
      split at h
      · cases h
      · cases h
    · cases h

/-- What the loop over the user groups leaves. -/
structure UserGroupsImported (uuid : Nat → String) (f : String → String) (db db' : Database)
    (items : List UserGroup) : Prop where
  frame : ∃ userGroups userGroupMembers, db' = { db with userGroups, userGroupMembers }
  keeps : ∀ r ∈ db.userGroupMembers, r ∈ db'.userGroupMembers
  only : ∀ r ∈ db'.userGroupMembers, r ∈ db.userGroupMembers ∨
    ∃ pre g rest, items = pre ++ g :: rest ∧ ¬ GroupNameTaken db g.name ∧
      (∀ b ∈ pre, b.name ≠ g.name) ∧ r ∈ memberRows (uuid rest.length) (g.members.map f)
  added : ∀ pre g rest, items = pre ++ g :: rest → ¬ GroupNameTaken db g.name →
    (∀ b ∈ pre, b.name ≠ g.name) →
      (∀ r ∈ memberRows (uuid rest.length) (g.members.map f), r ∈ db'.userGroupMembers) ∧
        ((memberRows (uuid rest.length) (g.members.map f)).map UserGroupMember.id).Nodup

theorem UserGroupsImported.skip {item : UserGroup} {items : List UserGroup}
    (htaken : GroupNameTaken db item.name) (h : UserGroupsImported uuid f db db' items) :
    UserGroupsImported uuid f db db' (item :: items) where
  frame := h.frame
  keeps := h.keeps
  only r hr := by
    rcases h.only r hr with hr | ⟨pre, g, rest, rfl, hfree, hfirst, hr⟩
    · exact .inl hr
    · refine .inr ⟨item :: pre, g, rest, rfl, hfree, fun b hb => ?_, hr⟩
      rcases List.mem_cons.mp hb with rfl | hb
      · intro heq
        rw [heq] at htaken
        exact hfree htaken
      · exact hfirst b hb
  added pre g rest heq hfree hfirst := by
    cases pre with
    | nil =>
      obtain ⟨rfl, -⟩ := List.cons.inj heq
      exact absurd htaken hfree
    | cons c pre =>
      obtain ⟨-, htail⟩ := List.cons.inj heq
      exact h.added pre g rest htail hfree fun b hb => hfirst b (List.mem_cons_of_mem c hb)

theorem UserGroupsImported.add {db₁ : Database} {item : UserGroup} {items : List UserGroup}
    (hcreated : GroupCreated db db₁ (uuid items.length) item.name (item.members.map f))
    (h : UserGroupsImported uuid f db₁ db' items) :
    UserGroupsImported uuid f db db' (item :: items) where
  frame := by
    obtain ⟨gs, ms, rfl⟩ := hcreated.frame
    obtain ⟨gs', ms', rfl⟩ := h.frame
    exact ⟨gs', ms', rfl⟩
  keeps r hr := h.keeps r ((hcreated.rows r).mpr (.inr hr))
  only r hr := by
    rcases h.only r hr with hr | ⟨pre, g, rest, rfl, hfree, hfirst, hr⟩
    · rcases (hcreated.rows r).mp hr with hr | hr
      · exact .inr ⟨[], item, items, rfl, hcreated.free, fun b hb => absurd hb List.not_mem_nil, hr⟩
      · exact .inl hr
    · refine .inr ⟨item :: pre, g, rest, rfl, fun ht => hfree ((hcreated.taken _).mpr (.inr ht)),
        fun b hb => ?_, hr⟩
      rcases List.mem_cons.mp hb with rfl | hb
      · exact fun heq => hfree ((hcreated.taken _).mpr (.inl heq.symm))
      · exact hfirst b hb
  added pre g rest heq hfree hfirst := by
    cases pre with
    | nil =>
      obtain ⟨rfl, rfl⟩ := List.cons.inj heq
      exact ⟨fun r hr => h.keeps r ((hcreated.rows r).mpr (.inl hr)), hcreated.nodup⟩
    | cons c pre =>
      obtain ⟨rfl, htail⟩ := List.cons.inj heq
      refine h.added pre g rest htail (fun ht => ?_) fun b hb => hfirst b (List.mem_cons_of_mem _ hb)
      rcases (hcreated.taken _).mp ht with heq | ht
      · exact hfirst item List.mem_cons_self heq.symm
      · exact hfree ht

theorem importUserGroups_rows {items : List UserGroup}
    (h : importUserGroups uuid f db items = .ok db') : UserGroupsImported uuid f db db' items := by
  induction items generalizing db with
  | nil =>
    obtain rfl := Except.ok.inj h
    exact
      { frame := ⟨db.userGroups, db.userGroupMembers, rfl⟩
        keeps := fun r hr => hr
        only := fun r hr => .inl hr
        added := fun pre g rest heq => absurd heq.symm (by simp) }
  | cons item items ih =>
    rw [importUserGroups] at h
    split at h
    · next db₁ hcreate => exact (ih h).add (groupCreated_of_ok hcreate)
    · next err hcreate =>
      split at h
      · next herr =>
        subst herr
        exact (ih h).skip (groupNameTaken_of_error hcreate)
      · cases h

end UserGroups

/-! ## Credentials, assets and jobs -/

section Rows

variable {c : Cipher} {uuid : Draws} {users credentials accessGateways : IdMapping}
  {db db' : Database}

theorem createAll_copies {α β : Type} {key : α → String} {P : β → α → Prop} {f : β → α}
    {t t' : Table α key} {items : List β} (h : createAll t (items.map f) = .ok t')
    (hP : ∀ item ∈ items, P item (f item)) : Copies P items t t' := by
  rw [createAll] at h
  split at h
  · next t₁ hinsert =>
    obtain rfl := Except.ok.inj h
    exact Copies.of_insertAll hinsert hP
  · cases h

/-- The columns of a credential that its copy keeps, and the references of the copy. -/
structure CredentialCopy (uuid : Draws) (users : IdMapping) (item r : Credential) : Prop where
  id : r.id = uuid.credential item.id
  name : r.name = item.name
  owner : r.owner = users.translate item.owner

theorem credentialEncrypt_ok {item r : Credential} (h : CredentialService.encrypt c item = .ok r) :
    r.id = item.id ∧ r.name = item.name ∧ r.owner = item.owner := by
  obtain ⟨password, -, h⟩ := bind_eq_ok.mp h
  obtain ⟨privateKey, -, h⟩ := bind_eq_ok.mp h
  obtain ⟨passphrase, -, h⟩ := bind_eq_ok.mp h
  obtain rfl := Except.ok.inj h
  exact ⟨rfl, rfl, rfl⟩

theorem credentialCreate_ok {item : Credential} (h : CredentialService.create c db item = .ok db') :
    ∃ r credentials, (r.id = item.id ∧ r.name = item.name ∧ r.owner = item.owner) ∧
      db.credentials.insert r = some credentials ∧ db' = { db with credentials } := by
  obtain ⟨r, hencrypt, h⟩ := bind_eq_ok.mp h
  rw [CredentialRepository.create] at h
  split at h
  · next credentials hinsert =>
    exact ⟨r, credentials, credentialEncrypt_ok hencrypt, hinsert, (Except.ok.inj h).symm⟩
  · cases h

theorem importCredentials_ok {items : List Credential}
    (h : importCredentials c uuid users db items = .ok db') :
    (∃ credentials, db' = { db with credentials }) ∧
      Copies (CredentialCopy uuid users) items db.credentials db'.credentials := by
  refine Copies.of_foldlM Database.credentials (fun s => ∃ credentials, s = { db with credentials })
    ?_ ⟨db.credentials, rfl⟩ h
  rintro s s' item - ⟨t, rfl⟩ hround
  obtain ⟨r, t', ⟨hid, hname, howner⟩, hinsert, rfl⟩ := credentialCreate_ok hround
  exact ⟨⟨t', rfl⟩, Copies.of_insert hinsert ⟨hid, hname, howner⟩⟩

/-- The columns of an asset that its copy keeps, and the references of the copy. -/
structure AssetCopy (uuid : Draws) (users credentials accessGateways : IdMapping) (m : AssetBody)
    (r : Asset) : Prop where
  id : r.id = uuid.asset m.item.id
  name : r.name = m.item.name
  owner : r.owner = users.translate m.item.owner
  credentialId : r.credentialId = translateUnlessNone credentials m.item.credentialId
  accessGatewayId : r.accessGatewayId = translateUnlessNone accessGateways m.item.accessGatewayId

theorem assetEncrypt_ok {item r : Asset} (h : AssetService.encrypt c item = .ok r) :
    ∃ password privateKey passphrase,
      r = { item with password, privateKey, passphrase, encrypted := true } := by
  obtain ⟨password, -, h⟩ := bind_eq_ok.mp h
  obtain ⟨privateKey, -, h⟩ := bind_eq_ok.mp h
  obtain ⟨passphrase, -, h⟩ := bind_eq_ok.mp h
  exact ⟨password, privateKey, passphrase, (Except.ok.inj h).symm⟩

theorem assetCreate_ok {id : String} {m : AssetBody} {r : Asset}
    (h : AssetService.create c db id m = .ok (db', r)) :
    (∃ password privateKey passphrase, r = { m.item with
        id, active := true, password, privateKey, passphrase, encrypted := true }) ∧
      ∃ assets assetAttributes, db.assets.insert r = some assets ∧
        db' = { db with assets, assetAttributes } := by
  obtain ⟨item, hencrypt, h⟩ := bind_eq_ok.mp h
  obtain ⟨db₁, hcreate, h⟩ := bind_eq_ok.mp h
  obtain ⟨db₂, hattributes, h⟩ := bind_eq_ok.mp h
  obtain ⟨rfl, rfl⟩ := Prod.mk.inj (Except.ok.inj h)
  rw [AssetRepository.create] at hcreate
  split at hcreate
  · next assets hinsert =>
    obtain rfl := Except.ok.inj hcreate
    simp only [AssetRepository.updateAttributes] at hattributes
    split at hattributes
    · next assetAttributes hattrs =>
      obtain rfl := Except.ok.inj hattributes
      obtain ⟨password, privateKey, passphrase, hr⟩ := assetEncrypt_ok hencrypt
      exact ⟨⟨password, privateKey, passphrase, hr⟩, assets, assetAttributes, hinsert, rfl⟩
    · cases hattributes
  · cases hcreate

theorem map_fst_eq_ok {α β : Type} {x : Except Error (α × β)} {a : α} (h : x.map Prod.fst = .ok a) :
    ∃ b, x = .ok (a, b) := by
  cases x with
  | ok p =>
    obtain rfl := Except.ok.inj h
    exact ⟨p.2, rfl⟩
  | error err => cases h

theorem importAssets_ok {items : List AssetBody}
    (h : importAssets c uuid users credentials accessGateways db items = .ok db') :
    (∃ assets assetAttributes, db' = { db with assets, assetAttributes }) ∧
      Copies (AssetCopy uuid users credentials accessGateways) items db.assets db'.assets := by
  refine Copies.of_foldlM Database.assets
    (fun s => ∃ assets assetAttributes, s = { db with assets, assetAttributes }) ?_
    ⟨db.assets, db.assetAttributes, rfl⟩ h
  rintro s s' item - ⟨t, attrs, rfl⟩ hround
  obtain ⟨r, hcreate⟩ := map_fst_eq_ok hround
  obtain ⟨⟨password, privateKey, passphrase, rfl⟩, t', attrs', hinsert, rfl⟩ := assetCreate_ok hcreate
  exact ⟨⟨t', attrs', rfl⟩, Copies.of_insert hinsert ⟨rfl, rfl, rfl, rfl, rfl⟩⟩

/-- The copy of a job under its new id and references. -/
structure JobCopy (uuid : Draws) (assets : IdMapping) (item r : Job) : Prop where
  id : r.id = uuid.job item.id
  resourceIds : r.resourceIds =
    Text.join "," ((Text.split item.resourceIds ',').map assets.translate)

theorem schedule_ok {addJob : Job → Except Error Int} {o r : Job}
    (h : JobService.schedule addJob o = .ok r) : r.id = o.id ∧ r.resourceIds = o.resourceIds := by
  rw [JobService.schedule] at h
  split at h
  · obtain ⟨-, -, h⟩ := bind_eq_ok.mp h
    obtain ⟨cronJobId, -, h⟩ := bind_eq_ok.mp h
    obtain rfl := Except.ok.inj h
    exact ⟨rfl, rfl⟩
  · obtain rfl := Except.ok.inj h
    exact ⟨rfl, rfl⟩

theorem importJobs_ok {addJob : Job → Except Error Int} {assets : IdMapping}
    {jobs jobs' : Table Job Job.id} {items : List Job}
    (h : importJobs addJob uuid assets jobs items = .ok jobs') :
    Copies (JobCopy uuid assets) (items.filter fun item => item.func != nd.funcCheckAssetStatusJob)
      jobs jobs' := by
  refine (Copies.of_foldlM (fun t => t) (fun _ => True) ?_ trivial h).2
  intro t t' item _ _ hround
  refine ⟨trivial, ?_⟩
  obtain ⟨r, hschedule, hround⟩ := bind_eq_ok.mp hround
  obtain ⟨hid, hresources⟩ := schedule_ok hschedule
  split at hround
  · next t₁ hinsert =>
    obtain rfl := Except.ok.inj hround
    exact Copies.of_insert hinsert ⟨hid, hresources⟩
  · cases hround

end Rows

end BackupService

end NextDBM
