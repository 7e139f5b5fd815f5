import NextDBM.Backups.Proofs.BackupProofs

/-!
# What an import keeps of the references

A reference that goes through one of the maps leads to the copy of its row, unless the row is a user
whose name was taken: then it becomes empty. The two columns that go through no map keep their id.
-/

namespace NextDBM

open Relational

namespace BackupService

/-! ## The document -/

/-- What a document has of the rows of the exported store. -/
structure Exported (source : BackupDatabase) (backup : Backup) : Prop where
  users : backup.users = source.users.rows.map blankUser
  userGroups : backup.userGroups = source.userGroups.rows.map (withMembers source.toDatabase)
  storages : backup.storages = source.storages.rows
  accessGateways : backup.accessGateways = source.accessGateways.rows
  commands : backup.commands = source.commands.rows
  jobs : backup.jobs = source.jobs.rows
  sqls : backup.sqls = source.sqls.rows
  credentials : ∀ r ∈ source.credentials, ∃ item ∈ backup.credentials,
    item.id = r.id ∧ item.name = r.name ∧ item.owner = r.owner
  assets : ∀ a ∈ source.assets, ∃ m ∈ backup.assets, m.item.id = a.id ∧ m.item.name = a.name ∧
    m.item.owner = a.owner ∧ m.item.credentialId = a.credentialId ∧
    m.item.accessGatewayId = a.accessGatewayId

theorem mem_of_mapM {α β : Type} {f : α → Except Error β} {as : List α} {bs : List β}
    (h : as.mapM f = .ok bs) {a : α} (ha : a ∈ as) : ∃ b ∈ bs, f a = .ok b := by
  induction as generalizing bs with
  | nil => exact absurd ha List.not_mem_nil
  | cons x as ih =>
    rw [List.mapM_cons] at h
    obtain ⟨b, hb, h⟩ := bind_eq_ok.mp h
    obtain ⟨bs', hbs, h⟩ := bind_eq_ok.mp h
    obtain rfl := Except.ok.inj h
    rcases List.mem_cons.mp ha with rfl | ha
    · exact ⟨b, List.mem_cons_self, hb⟩
    · obtain ⟨b', hb', hf⟩ := ih hbs ha
      exact ⟨b', List.mem_cons_of_mem b hb', hf⟩

theorem credentialDecrypt_ok {c : Cipher} {item r : Credential}
    (h : CredentialService.decrypt c item = .ok r) :
    r.id = item.id ∧ r.name = item.name ∧ r.owner = item.owner := by
  rw [CredentialService.decrypt] at h
  split at h
  · obtain ⟨password, -, h⟩ := bind_eq_ok.mp h
    obtain ⟨privateKey, -, h⟩ := bind_eq_ok.mp h
    obtain ⟨passphrase, -, h⟩ := bind_eq_ok.mp h
    obtain rfl := Except.ok.inj h
    exact ⟨rfl, rfl, rfl⟩
  · obtain rfl := Except.ok.inj h
    exact ⟨rfl, rfl, rfl⟩

theorem exportAsset_ok {c : Cipher} {db : Database} {a : Asset} {m : AssetBody}
    (h : exportAsset c db a = .ok m) :
    m.item.id = a.id ∧ m.item.name = a.name ∧ m.item.owner = a.owner ∧
      m.item.credentialId = a.credentialId ∧ m.item.accessGatewayId = a.accessGatewayId := by
  obtain ⟨item, hdecrypt, h⟩ := bind_eq_ok.mp h
  obtain ⟨attributes, -, h⟩ := bind_eq_ok.mp h
  obtain rfl := Except.ok.inj h
  rw [AssetRepository.decrypt] at hdecrypt
  split at hdecrypt
  · obtain ⟨password, -, hdecrypt⟩ := bind_eq_ok.mp hdecrypt
    obtain ⟨privateKey, -, hdecrypt⟩ := bind_eq_ok.mp hdecrypt
    obtain ⟨passphrase, -, hdecrypt⟩ := bind_eq_ok.mp hdecrypt
    obtain rfl := Except.ok.inj hdecrypt
    exact ⟨rfl, rfl, rfl, rfl, rfl⟩
  · obtain rfl := Except.ok.inj hdecrypt
    exact ⟨rfl, rfl, rfl, rfl, rfl⟩

theorem exported_of_ok {c : Cipher} {source : BackupDatabase} {backup : Backup}
    (h : exportBackup c source = .ok backup) : Exported source backup := by
  obtain ⟨credentials, hcredentials, h⟩ := bind_eq_ok.mp h
  obtain ⟨assets, hassets, h⟩ := bind_eq_ok.mp h
  obtain rfl := Except.ok.inj h
  exact
    { users := rfl
      userGroups := rfl
      storages := rfl
      accessGateways := rfl
      commands := rfl
      jobs := rfl
      sqls := rfl
      credentials := by
        intro r hr
        obtain ⟨item, hitem, hdecrypt⟩ := mem_of_mapM hcredentials hr
        exact ⟨item, hitem, credentialDecrypt_ok hdecrypt⟩
      assets := by
        intro a ha
        obtain ⟨m, hm, hexport⟩ := mem_of_mapM hassets ha
        exact ⟨m, hm, exportAsset_ok hexport⟩ }

/-! ## The store after an import -/

/-- What an import leaves: `users` is the map of the users. -/
structure BackupImported (uuid : Draws) (target db : BackupDatabase) (backup : Backup)
    (users : IdMapping) (usersDb groupsDb : Database) : Prop where
  imported : UsersImported uuid target.toDatabase usersDb ∅ users backup.users
  userRows : db.users = usersDb.users
  groups : UserGroupsImported uuid.userGroup users.translate usersDb groupsDb backup.userGroups
  members : db.userGroupMembers = groupsDb.userGroupMembers
  storages : Copies (fun item r => r = { item with
      id := uuid.storage item.id, owner := users.translate item.owner })
    backup.storages target.storages db.storages
  accessGateways : Copies (fun item r => r = { item with id := uuid.accessGateway item.id })
    backup.accessGateways target.accessGateways db.accessGateways
  commands : Copies (fun item r => r = { item with id := uuid.command item.id })
    backup.commands target.commands db.commands
  credentials : Copies (CredentialCopy uuid users)
    backup.credentials target.credentials db.credentials
  assets : Copies (AssetCopy uuid users
      (idMapping uuid.credential (backup.credentials.map Credential.id))
      (idMapping uuid.accessGateway (backup.accessGateways.map AccessGateway.id)))
    backup.assets target.assets db.assets
  jobs : Copies (JobCopy uuid (idMapping uuid.asset (backup.assets.map (·.item.id))))
    (backup.jobs.filter fun item => item.func != nd.funcCheckAssetStatusJob) target.jobs db.jobs
  sqls : Copies (fun item r => r = { item with owner := users.translate item.owner })
    backup.sqls target.sqls db.sqls

theorem backupImported_of_ok {c : Cipher} {addJob : Job → Except Error Int} {uuid : Draws}
    {target db : BackupDatabase} {backup : Backup} (hids : (backup.users.map User.id).Nodup)
    (h : importBackup c addJob uuid target backup = .ok db) :
    ∃ users usersDb groupsDb, BackupImported uuid target db backup users usersDb groupsDb := by
  obtain ⟨⟨usersDb, users⟩, husers, h⟩ := bind_eq_ok.mp h
  obtain ⟨groupsDb, hgroups, h⟩ := bind_eq_ok.mp h
  obtain ⟨storages, hstorages, h⟩ := bind_eq_ok.mp h
  obtain ⟨strategies, -, h⟩ := bind_eq_ok.mp h
  obtain ⟨accessSecurities, -, h⟩ := bind_eq_ok.mp h
  obtain ⟨gateways, hgateways, h⟩ := bind_eq_ok.mp h
  obtain ⟨commands, hcommands, h⟩ := bind_eq_ok.mp h
  obtain ⟨credentialsDb, hcredentials, h⟩ := bind_eq_ok.mp h
  obtain ⟨assetsDb, hassets, h⟩ := bind_eq_ok.mp h
  obtain ⟨jobs, hjobs, h⟩ := bind_eq_ok.mp h
  obtain ⟨sqls, hsqls, h⟩ := bind_eq_ok.mp h
  obtain ⟨translations, -, h⟩ := bind_eq_ok.mp h
  obtain rfl := Except.ok.inj h
  have husers := importUsers_ok hids husers
  have hgroups := importUserGroups_rows hgroups
  obtain ⟨⟨credentials, rfl⟩, hcredentials⟩ := importCredentials_ok hcredentials
  obtain ⟨⟨assets, assetAttributes, rfl⟩, hassets⟩ := importAssets_ok hassets
  obtain ⟨userTable, hframe⟩ := husers.frame
  obtain ⟨groupTable, memberTable, hframe'⟩ := hgroups.frame
  refine ⟨users, usersDb, groupsDb, ?_⟩
  exact
    { imported := husers
      userRows := by rw [hframe']
      groups := hgroups
      members := rfl
      storages := createAll_copies hstorages fun _ _ => rfl
      accessGateways := by
        have htable : groupsDb.accessGateways = target.accessGateways := by rw [hframe', hframe]
        exact htable ▸ createAll_copies hgateways fun _ _ => rfl
      commands := createAll_copies hcommands fun _ _ => rfl
      credentials := by
        have htable : groupsDb.credentials = target.credentials := by rw [hframe', hframe]
        exact htable ▸ hcredentials
      assets := by
        have htable : groupsDb.assets = target.assets := by rw [hframe', hframe]
        exact htable ▸ hassets
      jobs := importJobs_ok hjobs
      sqls := createAll_copies hsqls fun _ _ => rfl }

/-! ## Each kind of reference -/

section References

variable {uuid : Draws} {source target db : BackupDatabase} {backup : Backup} {users : IdMapping}
  {usersDb groupsDb : Database}

/-- A user is the first of a free name in the document exactly when it is in the exported store. -/
theorem firstOfName_blankUser_iff (hex : Exported source backup) {u : User} (hu : u ∈ source.users) :
    FirstOfName User.username (NameTaken target.toDatabase) backup.users (blankUser u) ↔
      Added source target u := by
  rw [hex.users]
  apply FirstOfName.map_iff
  · exact fun _ => rfl
  · intro v hv heq
    have hid : (blankUser v).id = (blankUser u).id := congrArg User.id heq
    exact Table.eq_of_key hv hu hid

theorem blankUser_mem (hex : Exported source backup) {u : User} (hu : u ∈ source.users) :
    blankUser u ∈ backup.users := by
  rw [hex.users]
  exact List.mem_map_of_mem hu

/-- The map sends the id of an added user to that of its copy. -/
theorem translate_added (hex : Exported source backup)
    (h : BackupImported uuid target db backup users usersDb groupsDb) {u : User}
    (hu : u ∈ source.users) (hadded : Added source target u) :
    copyUser uuid (blankUser u) ∈ db.users ∧ users.translate u.id = uuid.user u.id := by
  obtain ⟨hcopy, htranslate⟩ := h.imported.added (blankUser u) (blankUser_mem hex hu)
    ((firstOfName_blankUser_iff hex hu).mpr hadded)
  rw [h.userRows]
  exact ⟨hcopy, htranslate⟩

theorem translate_skipped (hex : Exported source backup)
    (h : BackupImported uuid target db backup users usersDb groupsDb) {u : User}
    (hu : u ∈ source.users) (hskipped : ¬ Added source target u) : users.translate u.id = "" :=
  h.imported.skipped (blankUser u) (blankUser_mem hex hu)
    fun hadded => hskipped ((firstOfName_blankUser_iff hex hu).mp hadded)

theorem translate_unknown (hex : Exported source backup)
    (h : BackupImported uuid target db backup users usersDb groupsDb) {id : String}
    (hid : ∀ u ∈ source.users, u.id ≠ id) : users.translate id = "" := by
  rw [h.imported.other id]
  · exact IdMapping.translate_empty
  · intro u hu
    rw [hex.users] at hu
    obtain ⟨v, hv, rfl⟩ := List.mem_map.mp hu
    exact hid v hv

/-- A translated reference to a user is kept exactly when the import adds the user. -/
theorem keepsUser_translate_iff (hfresh : Draws.Fresh uuid source target)
    (hex : Exported source backup)
    (h : BackupImported uuid target db backup users usersDb groupsDb) (old : String) :
    KeepsUser uuid source target db old (users.translate old) ↔ AddsUser source target old := by
  constructor
  · intro hkeeps u hu hid
    by_contra hskipped
    apply (hkeeps u hu hid).ne
    rw [← hid]
    exact translate_skipped hex h hu hskipped
  · intro hadds u hu hid
    obtain ⟨hcopy, htranslate⟩ := translate_added hex h hu (hadds u hu hid)
    rw [← hid, htranslate]
    exact Corresponds.of_copy hcopy rfl rfl (hfresh.user u.id).1.1

/-- A reference to a user that is not translated is kept exactly when the target has the user. -/
theorem keepsUser_self_iff (hfresh : Draws.Fresh uuid source target)
    (h : BackupImported uuid target db backup users usersDb groupsDb) (old : String) :
    KeepsUser uuid source target db old old ↔
      ∀ u ∈ source.users, u.id = old → Known User.username target.users u := by
  have hkeeps : ∀ t ∈ target.users, t ∈ db.users := by
    rw [h.userRows]
    exact h.imported.keeps
  unfold KeepsUser
  refine forall₃_congr fun u hu hid => ?_
  subst hid
  exact corresponds_self_iff hkeeps ((hfresh.user u.id).2 u hu)

theorem keepsAsset_self_iff (hfresh : Draws.Fresh uuid source target)
    (h : BackupImported uuid target db backup users usersDb groupsDb) (old : String) :
    KeepsAsset uuid source target db old old ↔
      ∀ a ∈ source.assets, a.id = old → Known Asset.name target.assets a := by
  unfold KeepsAsset
  refine forall₃_congr fun a ha hid => ?_
  subst hid
  exact corresponds_self_iff h.assets.keeps ((hfresh.asset a.id).2 a ha)

/-- A translated reference to an asset is kept. -/
theorem keepsAsset_translate (hfresh : Draws.Fresh uuid source target)
    (hex : Exported source backup)
    (h : BackupImported uuid target db backup users usersDb groupsDb) (old : String) :
    KeepsAsset uuid source target db old
      ((idMapping uuid.asset (backup.assets.map (·.item.id))).translate old) := by
  intro a ha hid
  obtain ⟨m, hm, hmid, hmname, -⟩ := hex.assets a ha
  obtain ⟨r, hr, hcopy⟩ := h.assets.copied m hm
  have hmem : old ∈ backup.assets.map (·.item.id) :=
    List.mem_map.mpr ⟨m, hm, hmid.trans hid⟩
  rw [translate_idMapping hmem, ← hid]
  refine Corresponds.of_copy hr ?_ ?_ (hfresh.asset a.id).1.1
  · rw [hcopy.id, hmid]
  · rw [hcopy.name, hmname]

theorem keepsCredential_translate (hfresh : Draws.Fresh uuid source target)
    (hex : Exported source backup)
    (h : BackupImported uuid target db backup users usersDb groupsDb) (old : String) :
    KeepsCredential uuid source target db old (translateUnlessNone
      (idMapping uuid.credential (backup.credentials.map Credential.id)) old) := by
  intro hempty hdash o ho hid
  obtain ⟨item, hitem, hitemid, hitemname, -⟩ := hex.credentials o ho
  obtain ⟨r, hr, hcopy⟩ := h.credentials.copied item hitem
  have hmem : old ∈ backup.credentials.map Credential.id :=
    List.mem_map.mpr ⟨item, hitem, hitemid.trans hid⟩
  rw [translateUnlessNone, if_pos ⟨hempty, hdash⟩, translate_idMapping hmem, ← hid]
  refine Corresponds.of_copy hr ?_ ?_ (hfresh.credential o.id).1
  · rw [hcopy.id, hitemid]
  · rw [hcopy.name, hitemname]

theorem keepsAccessGateway_translate (hfresh : Draws.Fresh uuid source target)
    (hex : Exported source backup)
    (h : BackupImported uuid target db backup users usersDb groupsDb) (old : String) :
    KeepsAccessGateway uuid source target db old (translateUnlessNone
      (idMapping uuid.accessGateway (backup.accessGateways.map AccessGateway.id)) old) := by
  intro hempty hdash g hg hid
  have hitem : g ∈ backup.accessGateways := by
    rw [hex.accessGateways]
    exact hg
  obtain ⟨r, hr, rfl⟩ := h.accessGateways.copied g hitem
  have hmem : old ∈ backup.accessGateways.map AccessGateway.id :=
    List.mem_map.mpr ⟨g, hitem, hid⟩
  rw [translateUnlessNone, if_pos ⟨hempty, hdash⟩, translate_idMapping hmem, ← hid]
  exact Corresponds.of_copy hr rfl rfl (hfresh.accessGateway g.id).1

/-- A translated id has no comma, so the list of a job's assets is read back entry by entry. -/
theorem split_translateJob (hfresh : Draws.Fresh uuid source target) (ids : List String)
    (resourceIds : String) :
    Text.split (Text.join "," ((Text.split resourceIds ',').map
        (idMapping uuid.asset ids).translate)) ',' =
      (Text.split resourceIds ',').map (idMapping uuid.asset ids).translate := by
  apply Text.split_join rfl
  · simp [Text.split_ne_nil]
  · intro p hp
    obtain ⟨id, -, rfl⟩ := List.mem_map.mp hp
    rcases translate_idMapping_cases uuid.asset ids id with heq | heq
    · rw [heq]
      intro hcomma
      have hdigit : ',' ∈ "0123456789abcdef-".toList := (hfresh.asset id).1.2 ',' hcomma
      revert hdigit
      decide
    · rw [heq]
      decide

/-! ## Members -/

theorem mem_withMembers {db : Database} {g : UserGroup} {member : String} :
    member ∈ (withMembers db g).members ↔
      ∃ m ∈ db.userGroupMembers, m.userGroupId = g.id ∧ m.userId = member := by
  simp [withMembers, UserGroupMemberRepository.findUserIdsByUserGroupId, and_assoc]

/-- Importing the users does not touch the names of the groups. -/
theorem groupNameTaken_iff (h : BackupImported uuid target db backup users usersDb groupsDb)
    (name : String) : GroupNameTaken usersDb name ↔ GroupNameTaken target.toDatabase name := by
  obtain ⟨userTable, rfl⟩ := h.imported.frame
  exact Iff.rfl

/-- A member row of an imported group comes from a member of the group. -/
theorem member_of_row (hfresh : Draws.Fresh uuid source target) (hex : Exported source backup)
    (h : BackupImported uuid target db backup users usersDb groupsDb) {pre rest : List UserGroup}
    {g : UserGroup} (hg : source.userGroups.rows = pre ++ g :: rest) {r : UserGroupMember}
    (hr : r ∈ db.userGroupMembers) (hid : r.userGroupId = uuid.userGroup rest.length) :
    FirstOfName UserGroup.name (GroupNameTaken target.toDatabase) source.userGroups.rows g ∧
      ∃ m ∈ source.userGroupMembers, m.userGroupId = g.id ∧ r.userId = users.translate m.userId := by
  rw [h.members] at hr
  rcases h.groups.only r hr with hr | ⟨pre', g', rest', heq, hfree, hfirst, hr⟩
  · obtain ⟨userTable, hframe⟩ := h.imported.frame
    rw [hframe] at hr
    exact absurd hid (hfresh.noMembers r hr rest.length)
  · rw [hex.userGroups, hg, List.map_append, List.map_cons] at heq
    have hlength : (rest.map (withMembers source.toDatabase)).length = rest'.length := by
      rw [List.length_map]
      apply hfresh.distinct
      rw [← hid]
      exact memberRows_userGroupId hr
    obtain ⟨hpre, htail⟩ := List.append_inj' heq (by simp [hlength])
    obtain ⟨hg', -⟩ := List.cons.inj htail
    subst hg' hpre
    constructor
    · refine ⟨fun ht => hfree ((groupNameTaken_iff h g.name).mpr ht), pre, rest, hg, fun b hb => ?_⟩
      exact hfirst (withMembers source.toDatabase b) (List.mem_map_of_mem hb)
    · obtain ⟨member, hmember, rfl⟩ := List.mem_map.mp hr
      obtain ⟨old, hold, rfl⟩ := List.mem_map.mp hmember
      obtain ⟨m, hm, hmid, rfl⟩ := mem_withMembers.mp hold
      exact ⟨m, hm, hmid, rfl⟩

/-- The members of an imported group have rows, and no two of them are translated alike. -/
theorem row_of_member (hex : Exported source backup)
    (h : BackupImported uuid target db backup users usersDb groupsDb) {pre rest : List UserGroup}
    {g : UserGroup} (hg : source.userGroups.rows = pre ++ g :: rest)
    (hfree : ¬ GroupNameTaken target.toDatabase g.name) (hfirst : ∀ b ∈ pre, b.name ≠ g.name) :
    (∀ m ∈ source.userGroupMembers, m.userGroupId = g.id → ∃ r ∈ db.userGroupMembers,
      r.userGroupId = uuid.userGroup rest.length ∧ r.userId = users.translate m.userId) ∧
    ∀ m ∈ source.userGroupMembers, m.userGroupId = g.id → ∀ m' ∈ source.userGroupMembers,
      m'.userGroupId = g.id → users.translate m.userId = users.translate m'.userId →
        m.userId = m'.userId := by
  have hdoc : backup.userGroups = pre.map (withMembers source.toDatabase) ++
      withMembers source.toDatabase g :: rest.map (withMembers source.toDatabase) := by
    rw [hex.userGroups, hg, List.map_append, List.map_cons]
  obtain ⟨hrows, hnodup⟩ := h.groups.added _ _ _ hdoc
    (fun ht => hfree ((groupNameTaken_iff h g.name).mp ht)) (by
      intro b hb
      obtain ⟨b', hb', rfl⟩ := List.mem_map.mp hb
      exact hfirst b' hb')
  rw [List.length_map] at hrows hnodup
  constructor
  · intro m hm hmid
    have hmem : m.userId ∈ (withMembers source.toDatabase g).members :=
      mem_withMembers.mpr ⟨m, hm, hmid, rfl⟩
    have hrow := hrows _ (List.mem_map_of_mem (List.mem_map_of_mem hmem))
    rw [← h.members] at hrow
    exact ⟨_, hrow, rfl, rfl⟩
  · intro m hm hmid m' hm' hmid' heq
    have hmem : m.userId ∈ (withMembers source.toDatabase g).members :=
      mem_withMembers.mpr ⟨m, hm, hmid, rfl⟩
    have hmem' : m'.userId ∈ (withMembers source.toDatabase g).members :=
      mem_withMembers.mpr ⟨m', hm', hmid', rfl⟩
    rw [memberRows, List.map_map, List.map_map] at hnodup
    refine List.inj_on_of_nodup_map hnodup hmem hmem' ?_
    show sign [_, users.translate m.userId] = sign [_, users.translate m'.userId]
    rw [heq]

/-- The memberships are kept exactly when the members of the imported groups are added. A group with
two members that become empty does not import at all. -/
theorem members_iff (hfresh : Draws.Fresh uuid source target) (hex : Exported source backup)
    (h : BackupImported uuid target db backup users usersDb groupsDb) :
    (∀ pre g rest, source.userGroups.rows = pre ++ g :: rest → ∀ r ∈ db.userGroupMembers,
      r.userGroupId = uuid.userGroup rest.length →
        ∃ m ∈ source.userGroupMembers, m.userGroupId = g.id ∧
          KeepsUser uuid source target db m.userId r.userId) ↔
    ∀ g ∈ source.userGroups,
      FirstOfName UserGroup.name (GroupNameTaken target.toDatabase) source.userGroups.rows g →
        ∀ m ∈ source.userGroupMembers, m.userGroupId = g.id → AddsUser source target m.userId := by
  constructor
  · rintro hkeeps g - ⟨hfree, pre, rest, hg, hfirst⟩ m hm hmid u hu hid
    by_contra hskipped
    have hempty : users.translate m.userId = "" := by
      rw [← hid]
      exact translate_skipped hex h hu hskipped
    obtain ⟨hrows, hinj⟩ := row_of_member hex h hg hfree hfirst
    obtain ⟨r, hr, hrid, hruser⟩ := hrows m hm hmid
    obtain ⟨m', hm', hmid', hkeep⟩ := hkeeps pre g rest hg r hr hrid
    rw [hruser, hempty] at hkeep
    -- The row comes from a member that is no user: it is empty too, so it is the same member.
    have hunknown : ∀ v ∈ source.users, v.id ≠ m'.userId := fun v hv hvid => (hkeep v hv hvid).ne rfl
    have hsame : m.userId = m'.userId := by
      apply hinj m hm hmid m' hm' hmid'
      rw [hempty, translate_unknown hex h hunknown]
    exact hunknown u hu (hid.trans hsame)
  · intro hadds pre g rest hg r hr hrid
    obtain ⟨hfirst, m, hm, hmid, hruser⟩ := member_of_row hfresh hex h hg hr hrid
    have hmem : g ∈ source.userGroups := hfirst.mem
    refine ⟨m, hm, hmid, ?_⟩
    rw [hruser]
    exact (keepsUser_translate_iff hfresh hex h m.userId).mpr (hadds g hmem hfirst m hm hmid)

/-! ## All references -/

/-- What the copies of the rows of a table keep is what they keep row by row. -/
theorem copies_keep_iff {α β : Type} {key : β → String} {P : α → β → Prop} {items : List α}
    {after : Table β key} (hcopied : ∀ item ∈ items, ∃ t ∈ after, P item t) {drawn : α → String}
    (hkey : ∀ item t, P item t → key t = drawn item) {Q : α → β → Prop} {R : α → Prop}
    (hQ : ∀ item t, P item t → (Q item t ↔ R item)) :
    (∀ item ∈ items, ∀ r ∈ after, key r = drawn item → Q item r) ↔ ∀ item ∈ items, R item := by
  refine forall₂_congr fun item hitem => ?_
  obtain ⟨t, ht, hP⟩ := hcopied item hitem
  constructor
  · intro hall
    exact (hQ item t hP).mp (hall t ht (hkey item t hP))
  · intro hR r hr hid
    have heq : r = t := Table.eq_of_key hr ht (hid.trans (hkey item t hP).symm)
    rw [heq]
    exact (hQ item t hP).mpr hR

theorem storages_iff (hfresh : Draws.Fresh uuid source target) (hex : Exported source backup)
    (h : BackupImported uuid target db backup users usersDb groupsDb) :
    (∀ s ∈ source.storages, ∀ r ∈ db.storages, r.id = uuid.storage s.id →
      KeepsUser uuid source target db s.owner r.owner) ↔
    ∀ s ∈ source.storages, AddsUser source target s.owner := by
  have hcopied := h.storages.copied
  rw [hex.storages] at hcopied
  refine copies_keep_iff hcopied ?_ ?_
  · rintro s r rfl
    rfl
  · rintro s r rfl
    exact keepsUser_translate_iff hfresh hex h s.owner

theorem commands_iff (hfresh : Draws.Fresh uuid source target) (hex : Exported source backup)
    (h : BackupImported uuid target db backup users usersDb groupsDb) :
    (∀ c ∈ source.commands, ∀ r ∈ db.commands, r.id = uuid.command c.id →
      KeepsUser uuid source target db c.owner r.owner) ↔
    ∀ c ∈ source.commands, ∀ u ∈ source.users, u.id = c.owner →
      Known User.username target.users u := by
  have hcopied := h.commands.copied
  rw [hex.commands] at hcopied
  refine copies_keep_iff hcopied ?_ ?_
  · rintro c r rfl
    rfl
  · rintro c r rfl
    exact keepsUser_self_iff hfresh h c.owner

theorem credentials_iff (hfresh : Draws.Fresh uuid source target) (hex : Exported source backup)
    (h : BackupImported uuid target db backup users usersDb groupsDb) :
    (∀ o ∈ source.credentials, ∀ r ∈ db.credentials, r.id = uuid.credential o.id →
      KeepsUser uuid source target db o.owner r.owner) ↔
    ∀ o ∈ source.credentials, AddsUser source target o.owner := by
  have hcopied : ∀ o ∈ source.credentials.rows, ∃ r ∈ db.credentials,
      r.id = uuid.credential o.id ∧ r.owner = users.translate o.owner := by
    intro o ho
    obtain ⟨item, hitem, hid, -, howner⟩ := hex.credentials o ho
    obtain ⟨r, hr, hcopy⟩ := h.credentials.copied item hitem
    exact ⟨r, hr, by rw [hcopy.id, hid], by rw [hcopy.owner, howner]⟩
  refine copies_keep_iff hcopied (fun _ _ hP => hP.1) ?_
  rintro o r ⟨-, howner⟩
  rw [howner]
  exact keepsUser_translate_iff hfresh hex h o.owner

theorem assets_iff (hfresh : Draws.Fresh uuid source target) (hex : Exported source backup)
    (h : BackupImported uuid target db backup users usersDb groupsDb) :
    (∀ a ∈ source.assets, ∀ r ∈ db.assets, r.id = uuid.asset a.id →
      KeepsUser uuid source target db a.owner r.owner ∧
        KeepsCredential uuid source target db a.credentialId r.credentialId ∧
        KeepsAccessGateway uuid source target db a.accessGatewayId r.accessGatewayId) ↔
    ∀ a ∈ source.assets, AddsUser source target a.owner := by
  have hcopied : ∀ a ∈ source.assets.rows, ∃ r ∈ db.assets, r.id = uuid.asset a.id ∧
      r.owner = users.translate a.owner ∧
      r.credentialId = translateUnlessNone
        (idMapping uuid.credential (backup.credentials.map Credential.id)) a.credentialId ∧
      r.accessGatewayId = translateUnlessNone
        (idMapping uuid.accessGateway (backup.accessGateways.map AccessGateway.id))
          a.accessGatewayId := by
    intro a ha
    obtain ⟨m, hm, hid, -, howner, hcredential, hgateway⟩ := hex.assets a ha
    obtain ⟨r, hr, hcopy⟩ := h.assets.copied m hm
    refine ⟨r, hr, ?_, ?_, ?_, ?_⟩
    · rw [hcopy.id, hid]
    · rw [hcopy.owner, howner]
    · rw [hcopy.credentialId, hcredential]
    · rw [hcopy.accessGatewayId, hgateway]
  refine copies_keep_iff hcopied (fun _ _ hP => hP.1) ?_
  rintro a r ⟨-, howner, hcredential, hgateway⟩
  rw [howner, hcredential, hgateway]
  constructor
  · exact fun hall => (keepsUser_translate_iff hfresh hex h a.owner).mp hall.1
  · exact fun hadds => ⟨(keepsUser_translate_iff hfresh hex h a.owner).mpr hadds,
      keepsCredential_translate hfresh hex h a.credentialId,
      keepsAccessGateway_translate hfresh hex h a.accessGatewayId⟩

/-- The assets of a job are kept. -/
theorem jobs_keep (hfresh : Draws.Fresh uuid source target) (hex : Exported source backup)
    (h : BackupImported uuid target db backup users usersDb groupsDb) {j : Job}
    (hj : j ∈ source.jobs) (hfunc : j.func ≠ nd.funcCheckAssetStatusJob) {r : Job}
    (hr : r ∈ db.jobs) (hid : r.id = uuid.job j.id) :
    List.Forall₂ (KeepsAsset uuid source target db) (Text.split j.resourceIds ',')
      (Text.split r.resourceIds ',') := by
  have hitem : j ∈ backup.jobs.filter fun item => item.func != nd.funcCheckAssetStatusJob := by
    rw [hex.jobs, List.mem_filter]
    exact ⟨hj, bne_iff_ne.mpr hfunc⟩
  have hcopy := h.jobs.prop_of_key hitem (fun t ht => ht.id) hr hid
  rw [hcopy.resourceIds, split_translateJob hfresh]
  apply List.forall₂_map_right_iff.mpr
  apply List.forall₂_same.mpr
  exact fun old _ => keepsAsset_translate hfresh hex h old

theorem sqls_iff (hfresh : Draws.Fresh uuid source target) (hex : Exported source backup)
    (h : BackupImported uuid target db backup users usersDb groupsDb) :
    (∀ q ∈ source.sqls, ∀ r ∈ db.sqls, r.id = q.id →
      KeepsUser uuid source target db q.owner r.owner ∧
        KeepsAsset uuid source target db q.dbAssetId r.dbAssetId) ↔
    ∀ q ∈ source.sqls, AddsUser source target q.owner ∧
      ∀ a ∈ source.assets, a.id = q.dbAssetId → Known Asset.name target.assets a := by
  have hcopied := h.sqls.copied
  rw [hex.sqls] at hcopied
  refine copies_keep_iff hcopied ?_ ?_
  · rintro q r rfl
    rfl
  · rintro q r rfl
    exact and_congr (keepsUser_translate_iff hfresh hex h q.owner)
      (keepsAsset_self_iff hfresh h q.dbAssetId)

end References

/-- An import of an exported document keeps the references exactly when the users that translated
columns name are added, and the rows that untranslated columns name are known to the target. -/
theorem keepsReferences_iff {cSource cTarget : Cipher} {addJob : Job → Except Error Int}
    {uuid : Draws} {source target db : BackupDatabase} {backup : Backup}
    (hfresh : Draws.Fresh uuid source target) (hexport : exportBackup cSource source = .ok backup)
    (himport : importBackup cTarget addJob uuid target backup = .ok db) :
    KeepsReferences uuid source target db ↔ Translatable source target := by
  have hex := exported_of_ok hexport
  have hids : (backup.users.map User.id).Nodup := by
    rw [hex.users, List.map_map]
    exact source.users.nodup
  obtain ⟨users, usersDb, groupsDb, h⟩ := backupImported_of_ok hids himport
  have hsqls := sqls_iff hfresh hex h
  constructor
  · intro hkeeps
    have hqueries := hsqls.mp hkeeps.sqls
    exact
      { members := (members_iff hfresh hex h).mp hkeeps.members
        storages := (storages_iff hfresh hex h).mp hkeeps.storages
        credentials := (credentials_iff hfresh hex h).mp hkeeps.credentials
        assets := (assets_iff hfresh hex h).mp hkeeps.assets
        sqls := fun q hq => (hqueries q hq).1
        commands := (commands_iff hfresh hex h).mp hkeeps.commands
        queried := fun q hq => (hqueries q hq).2 }
  · intro htranslatable
    exact
      { members := (members_iff hfresh hex h).mpr htranslatable.members
        storages := (storages_iff hfresh hex h).mpr htranslatable.storages
        commands := (commands_iff hfresh hex h).mpr htranslatable.commands
        credentials := (credentials_iff hfresh hex h).mpr htranslatable.credentials
        assets := (assets_iff hfresh hex h).mpr htranslatable.assets
        jobs := fun j hj hfunc r hr hid => jobs_keep hfresh hex h hj hfunc hr hid
        sqls := hsqls.mpr fun q hq => ⟨htranslatable.sqls q hq, htranslatable.queried q hq⟩ }

/-! ## A backup of one account -/

/-- An account with a storage, a credential and an asset that uses it. -/
def liSource : BackupDatabase where
  users := .single { id := "u1", username := "li" }
  storages := ⟨[{ id := "s1", name := "files", owner := "u1" }], by decide⟩
  credentials := ⟨[{
    id := "c1"
    name := "root"
    password := "-"
    privateKey := "-"
    passphrase := "-"
    owner := "u1" }], by decide⟩
  assets := ⟨[{ id := "a1", name := "orders", credentialId := "c1", owner := "u1" }], by decide⟩

/-- A store whose account has the same name. -/
def liTarget : BackupDatabase where
  users := ⟨[{ id := "u2", username := "li" }], by decide⟩

def oneOfEach : Draws where
  user _ := "0a"
  password _ := "drawn"
  userGroup n := String.ofList (List.replicate n '1')
  storage _ := "0b"
  strategy _ := "0c"
  accessSecurity _ := "0d"
  accessGateway _ := "0e"
  command _ := "0f"
  credential _ := "1a"
  asset _ := "1b"
  job _ := "1c"

theorem oneOfEach_fresh {target : BackupDatabase} (h : target.userGroupMembers = ∅) :
    Draws.Fresh oneOfEach liSource target where
  user _ := by
    show IsUuid "0a" ∧ ∀ u ∈ liSource.users, "0a" ≠ u.id
    decide
  asset _ := by
    show IsUuid "1b" ∧ ∀ a ∈ liSource.assets, "1b" ≠ a.id
    decide
  credential _ := by
    show IsUuid "1a"
    decide
  accessGateway _ := by
    show IsUuid "0e"
    decide
  distinct m n heq := by
    have hlist := String.ofList_injective heq
    simpa using congrArg List.length hlist
  noMembers m hm := by
    rw [h] at hm
    exact absurd hm List.not_mem_nil

/-- No secret of the account is encrypted, so the cipher is not called. -/
def idle : Cipher := ⟨.ok, .ok⟩

/-- Into a store without the account everything is kept. -/
theorem keepsReferences_li : ∃ backup db, exportBackup idle liSource = .ok backup ∧
    importBackup idle (fun _ => .ok 0) oneOfEach {} backup = .ok db ∧
    KeepsReferences oneOfEach liSource {} db := by
  obtain ⟨backup, db, hexport, himport⟩ : ∃ backup db, exportBackup idle liSource = .ok backup ∧
      importBackup idle (fun _ => .ok 0) oneOfEach {} backup = .ok db := ⟨_, _, rfl, rfl⟩
  refine ⟨backup, db, hexport, himport,
    (keepsReferences_iff (oneOfEach_fresh rfl) hexport himport).mpr ?_⟩
  have hadds : ∀ id, AddsUser liSource {} id := by
    intro id u hu _
    obtain rfl := List.mem_singleton.mp hu
    refine ⟨?_, [], [], rfl, fun _ hb => absurd hb List.not_mem_nil⟩
    rintro ⟨v, hv, -⟩
    exact absurd hv List.not_mem_nil
  exact
    { members := fun g hg => absurd hg List.not_mem_nil
      storages := fun s _ => hadds s.owner
      credentials := fun o _ => hadds o.owner
      assets := fun a _ => hadds a.owner
      sqls := fun q _ => hadds q.owner
      commands := fun c hc => absurd hc List.not_mem_nil
      queried := fun q hq => absurd hq List.not_mem_nil }

/-- Into a store that has an account of the name the storage arrives without an owner. -/
theorem not_keepsReferences_li : ∃ backup db, Draws.Fresh oneOfEach liSource liTarget ∧
    exportBackup idle liSource = .ok backup ∧
    importBackup idle (fun _ => .ok 0) oneOfEach liTarget backup = .ok db ∧
    ¬ KeepsReferences oneOfEach liSource liTarget db := by
  refine ⟨_, _, oneOfEach_fresh rfl, rfl, rfl, fun hkeeps => ?_⟩
  have hstorage := hkeeps.storages { id := "s1", name := "files", owner := "u1" }
    List.mem_cons_self { id := "0b", name := "files", owner := "" } List.mem_cons_self rfl
  exact (hstorage { id := "u1", username := "li" } List.mem_cons_self rfl).ne rfl

end BackupService

end NextDBM
