import NextDBM.Accounts.Proofs.TokenProofs
import NextDBM.Library.Runs
import NextDBM.Startup.Proofs.InitDataProofs

/-!
# Proofs about runs of an installation

No stored value is empty, and a storage with the id of a user is the default storage of that user: every
operation keeps this, however it ends.
-/

namespace NextDBM

open Transaction Relational Work StartWork PropertyStore

variable {C : Type}

/-! ## The invariant -/

/-- What holds of the tables between operations. -/
structure Sane (db : StartDatabase) : Prop where
  filled : PropertyService.Filled db.toDatabase
  owned : ∀ storage ∈ db.storages,
    (storage.id = superAdminId ∨ ∃ user ∈ db.users, user.id = storage.id) →
      storage.isDefault = true ∧ storage.owner = storage.id
  ids : ∀ user ∈ db.users, user.id ≠ ""

namespace Sane

variable {db : StartDatabase} {d d' : Database}

theorem empty : Sane {} :=
  ⟨fun _ _ h => (by cases h), fun _ h => absurd h List.not_mem_nil,
    fun _ h => absurd h List.not_mem_nil⟩

/-- A storage with the id of an account is the default storage of that account. -/
theorem hasDefault {storage : Storage} (h : Sane db)
    (hstorage : storage ∈ db.storages) (haccount : storage.id ∈ accountIds db.toDatabase) :
    StorageService.HasDefault db storage.id := by
  have hwhose : storage.id = superAdminId ∨ ∃ user ∈ db.users, user.id = storage.id := by
    unfold accountIds at haccount
    split at haccount
    · exact .inl (List.mem_singleton.mp haccount)
    · exact .inr (List.mem_map.mp haccount)
  obtain ⟨hisDefault, howner⟩ := h.owned storage hstorage hwhose
  exact ⟨storage, hstorage, howner, hisDefault⟩

/-- The tables stay sane when users only go. -/
theorem shrink (h : Sane db) (hfilled : PropertyService.Filled d)
    (husers : ∀ user ∈ d.users, ∃ v ∈ db.users, v.id = user.id) :
    Sane { db with toDatabase := d } := by
  refine ⟨hfilled, fun storage hstorage hwhose => ?_, fun user huser => ?_⟩
  · refine h.owned storage hstorage (hwhose.imp_right ?_)
    rintro ⟨user, huser, hid⟩
    obtain ⟨v, hv, hvid⟩ := husers user huser
    exact ⟨v, hv, hvid.trans hid⟩
  · obtain ⟨v, hv, hvid⟩ := husers user huser
    exact hvid ▸ h.ids v hv

/-- A storage with the id of a user has to be the default storage of that user. -/
theorem insertStorage {row : Storage} {rows : Table Storage Storage.id} (h : Sane db)
    (hinsert : db.storages.insert row = some rows)
    (hrow : (row.id = superAdminId ∨ ∃ user ∈ db.users, user.id = row.id) →
      row.isDefault = true ∧ row.owner = row.id) : Sane { db with storages := rows } := by
  refine ⟨h.filled, fun storage hstorage hwhose => ?_, h.ids⟩
  rcases (Table.mem_of_insert hinsert).mp hstorage with rfl | hstorage
  · exact hrow hwhose
  · exact h.owned storage hstorage hwhose

theorem insertDefault {user : User} {megabytes : Int} {rows : Table Storage Storage.id}
    (h : Sane db)
    (hinsert : db.storages.insert (StorageService.defaultStorage user megabytes) = some rows) :
    Sane { db with storages := rows } :=
  h.insertStorage hinsert fun _ => ⟨rfl, rfl⟩

theorem deleteStorages (h : Sane db) (p : Storage → Bool) :
    Sane { db with storages := db.storages.deleteWhere p } :=
  ⟨h.filled, fun storage hstorage => h.owned storage (Table.mem_deleteWhere.mp hstorage).1, h.ids⟩

theorem retyped (h : Sane db) (id type : String) :
    Sane { db with users := Startup.retyped db.users id type } := by
  have husers : ∀ user ∈ Startup.retyped db.users id type, ∃ v ∈ db.users, v.id = user.id := by
    intro user huser
    have hid : user.id ∈ (Startup.retyped db.users id type).rows.map User.id :=
      List.mem_map_of_mem huser
    rw [Startup.map_id_retyped] at hid
    obtain ⟨v, hv, hvid⟩ := List.mem_map.mp hid
    exact ⟨v, hv, hvid⟩
  exact h.shrink (d := { db.toDatabase with users := Startup.retyped db.users id type }) h.filled
    husers

/-- A storage that is there already, with the id of a new user, has to be a default storage. -/
theorem insertUser {user : User} {users : Table User User.id} (h : Sane db)
    (hinsert : db.users.insert user = some users) (hne : user.id ≠ "")
    (hown : ∀ storage ∈ db.storages, storage.id = user.id →
      storage.isDefault = true ∧ storage.owner = storage.id) : Sane { db with users } := by
  refine ⟨h.filled, fun storage hstorage hwhose => ?_, fun v hv => ?_⟩
  · rcases hwhose with hadmin | ⟨v, hv, hvid⟩
    · exact h.owned storage hstorage (.inl hadmin)
    · rcases (Table.mem_of_insert hinsert).mp hv with rfl | hv
      · exact hown storage hstorage hvid.symm
      · exact h.owned storage hstorage (.inr ⟨v, hv, hvid⟩)
  · rcases (Table.mem_of_insert hinsert).mp hv with rfl | hv
    · exact hne
    · exact h.ids v hv

theorem firstUser {pass : String} {users : Table User User.id} (h : Sane db)
    (hinsert : db.users.insert (UserService.initialUser pass) = some users) :
    Sane { db with users } :=
  h.insertUser hinsert (by decide : superAdminId ≠ "") fun storage hstorage hid =>
    h.owned storage hstorage (.inl hid)

theorem setRefs (h : Sane db) (userRoleRefs : Table UserRoleRef UserRoleRef.id) :
    Sane { db with userRoleRefs } := ⟨h.filled, h.owned, h.ids⟩

end Sane

/-! ### A start -/

section Start

variable [EmptyCollection C] {plan : StartPlan}

theorem PropertyService.Filled.insert {d d' : Database} {name value : String}
    (h : PropertyService.Filled d) (hvalue : value ≠ "")
    (hcreate : PropertyRepository.create d { name, value } = .ok d') :
    PropertyService.Filled d' := by
  intro key v hv
  rw [(PropertyService.stored_insert hcreate).2 key] at hv
  split at hv
  · obtain rfl := Option.some.inj hv
    exact hvalue
  · exact h key v hv

theorem PropertyService.Filled.delete {d d' : Database} {name : String}
    (h : PropertyService.Filled d)
    (hdelete : PropertyRepository.deleteByName d name = .ok d') : PropertyService.Filled d' := by
  intro key v hv
  rw [PropertyService.stored_deleteByName hdelete] at hv
  split at hv
  · cases hv
  · exact h key v hv

/-- However it ends, a start keeps the tables sane. -/
theorem keeps_sane_initDBData (horder : plan.Orders) :
    Keeps Sane (initDBData plan : StartWork C Unit) := by
  unfold initDBData
  refine Keeps.bind (PropertyService.keeps_deleteDeprecatedProperty _ ?_) fun _ =>
    Keeps.bind (PropertyService.keeps_initProperties _ ?_) fun _ =>
    Keeps.bind (Startup.keeps_initUser ?_ ?_ ?_) fun _ => StorageService.keeps_initStorages ?_ ?_
  · intro name _ db d hdb hdelete
    refine hdb.shrink (hdb.filled.delete hdelete) fun user huser => ⟨user, ?_, rfl⟩
    obtain rfl := Except.ok.inj hdelete
    exact huser
  · intro item hitem db d hdb hcreate
    have hvalue := PropertyService.default_ne_empty item (horder.mem_iff.mp hitem)
    refine hdb.shrink (hdb.filled.insert hvalue hcreate) fun user huser => ⟨user, ?_, rfl⟩
    obtain ⟨properties, rfl⟩ := PropertyService.create_eq_ok hcreate
    exact huser
  · exact fun db id hdb => hdb.retyped id nd.typeUser
  · exact fun db refs hdb => hdb.setRefs refs
  · exact fun db pass users hdb hinsert => hdb.firstUser hinsert
  · exact fun db user megabytes rows hdb hinsert => hdb.insertDefault hinsert
  · exact fun db id hdb => hdb.deleteStorages _

end Start

/-! ### The other operations -/

section Calls

variable {db : StartDatabase} {d d' : Database}

theorem filled_create {item : PropertyItem} (h : PropertyService.Filled d)
    (hcreate : PropertyRepository.create d item.property = .ok d') :
    PropertyService.Filled d' ∧ d'.users = d.users := by
  obtain ⟨properties, rfl⟩ := PropertyService.create_eq_ok hcreate
  exact ⟨h.insert (value_ne_empty item) hcreate, rfl⟩

theorem filled_updateByName {item : PropertyItem} (h : PropertyService.Filled d)
    (hupdate : PropertyRepository.updateByName d item.property item.key = .ok d') :
    PropertyService.Filled d' ∧ d'.users = d.users := by
  constructor
  · intro name value hvalue
    rw [stored_updateByName hupdate] at hvalue
    split at hvalue
    · obtain rfl := Option.some.inj hvalue
      exact value_ne_empty item
    · exact h name value hvalue
  · unfold PropertyRepository.updateByName at hupdate
    split at hupdate
    · cases hupdate
    · obtain rfl := Except.ok.inj hupdate
      rfl

theorem filled_writeItem {item : PropertyItem} (h : PropertyService.Filled d)
    (hwrite : PropertyCache.writeItem d item = .ok d') :
    PropertyService.Filled d' ∧ d'.users = d.users := by
  unfold PropertyCache.writeItem PropertyCache.serve at hwrite
  split at hwrite
  · split at hwrite
    · exact filled_create h hwrite
    · cases hwrite
  · split at hwrite
    · exact filled_updateByName h hwrite
    · cases hwrite

theorem filled_updateItem {manager manager' : PropertyManager} {item : PropertyItem}
    (h : PropertyService.Filled d)
    (hupdate : PropertyCache.updateItem d manager item = (.ok d', manager')) :
    PropertyService.Filled d' ∧ ∀ user ∈ d'.users, user ∈ d.users := by
  unfold PropertyCache.updateItem at hupdate
  split at hupdate
  · next d₁ hldap =>
    obtain ⟨hwrite, -⟩ := Prod.mk.inj hupdate
    have hfilled : PropertyService.Filled d₁ := fun name value hvalue =>
      h name value ((deleteLdapUsers_stored hldap name).symm.trans hvalue)
    obtain ⟨hfilled', husers⟩ := filled_writeItem hfilled hwrite
    refine ⟨hfilled', fun user huser => ?_⟩
    rw [husers] at huser
    unfold PropertyCache.deleteLdapUsers PropertyCache.serve at hldap
    split at hldap
    · split at hldap
      · obtain rfl := Except.ok.inj hldap
        exact (Table.mem_deleteWhere.mp huser).1
      · cases hldap
    · obtain rfl := Except.ok.inj hldap
      exact huser
  · cases hupdate

theorem filled_updateItems {manager manager' : PropertyManager} {items : List PropertyItem}
    (h : PropertyService.Filled d)
    (hupdate : PropertyCache.updateItems d manager items = (.ok d', manager')) :
    PropertyService.Filled d' ∧ ∀ user ∈ d'.users, user ∈ d.users := by
  induction items generalizing d manager with
  | nil =>
    cases hupdate
    exact ⟨h, fun _ huser => huser⟩
  | cons item items ih =>
    unfold PropertyCache.updateItems at hupdate
    split at hupdate
    · next d₁ manager₁ hfirst =>
      obtain ⟨hfilled, husers⟩ := filled_updateItem h hfirst
      obtain ⟨hfilled', husers'⟩ := ih hfilled hupdate
      exact ⟨hfilled', fun user huser => husers user (husers' user huser)⟩
    · cases hupdate

theorem Sane.update (h : Sane db) (manager : PropertyManager) (u : PropertyUpdate) :
    Sane { db with toDatabase := (PropertyStore.update ⟨db.toDatabase, manager⟩ u).db } := by
  unfold PropertyStore.update
  split
  · next d _ hitems =>
    split
    · obtain ⟨hfilled, husers⟩ := filled_updateItems h.filled hitems
      exact h.shrink hfilled fun user huser => ⟨user, husers user huser, rfl⟩
    · exact h
  · exact h

variable [EmptyCollection C]

/-- A new user gets a storage of its own, under an id that no storage has. -/
theorem keeps_sane_createUser {uuid : Nat → String} {user : User} {encoded : Except Error String}
    (hid : uuid user.roles.length ≠ "") :
    Keeps (fun db => Sane db ∧ ∀ storage ∈ db.storages, storage.id = uuid user.roles.length →
      storage.isDefault = true ∧ storage.owner = storage.id)
      ((PremisesCall.createUser uuid user encoded).work : StartWork C Unit) := by
  refine Keeps.transaction (Keeps.bind (keeps_write ?_) fun _ =>
    StorageService.keeps_createStorageByUser ?_)
  · rintro db d ⟨hsane, hown⟩ hcreate
    obtain ⟨-, passwd, users, -, hinsert, hroles⟩ := createUser_ok hcreate
    obtain ⟨userRoleRefs, -, rfl⟩ := Startup.saveUserRoles_eq_ok hroles
    exact ⟨(hsane.insertUser hinsert hid hown).setRefs userRoleRefs, hown⟩
  · rintro db megabytes rows ⟨hsane, hown⟩ hinsert
    refine ⟨hsane.insertDefault hinsert, fun storage hstorage hsid => ?_⟩
    rcases (Table.mem_of_insert hinsert).mp hstorage with rfl | hstorage
    · exact ⟨rfl, rfl⟩
    · exact hown storage hstorage hsid

theorem keeps_sane_upgradeFinishApp :
    Keeps Sane (PremisesCall.upgradeFinishApp.work : StartWork C Unit) := by
  refine Keeps.ignore (keeps_write fun db d hdb hupdate => ?_)
  let item : PropertyItem := { key := "upgrade", text := "upgradeFinish" }
  have hitem : PropertyRepository.updateByName db.toDatabase item.property item.key = .ok d := hupdate
  obtain ⟨hfilled, husers⟩ := filled_updateByName hdb.filled hitem
  exact hdb.shrink hfilled fun user huser => ⟨user, husers ▸ huser, rfl⟩

theorem Sane.updateRow {o : User} (h : Sane db)
    (hupdate : UserRepository.update db.toDatabase o = .ok d) :
    Sane { db with toDatabase := d } := by
  unfold UserRepository.update at hupdate
  split at hupdate
  · cases hupdate
  · obtain rfl := Except.ok.inj hupdate
    refine h.shrink h.filled fun user huser => ?_
    rcases Table.mem_updateById (UserRepository.assign_id o) huser with huser | ⟨v, hv, -, rfl⟩
    · exact ⟨user, huser, rfl⟩
    · exact ⟨v, hv, rfl⟩

theorem Sane.updateUser {uuid : Nat → String} {userId : String} {item : User} (h : Sane db)
    (hupdate : UserService.updateUser db.toDatabase uuid userId item = .ok d) :
    Sane { db with toDatabase := d } := by
  obtain ⟨d₁, hroles, hrow⟩ := bind_eq_ok.mp hupdate
  obtain ⟨dbUser, -, hroles⟩ := bind_eq_ok.mp hroles
  split at hroles
  · cases hroles
  · obtain ⟨userRoleRefs, -, rfl⟩ := Startup.saveUserRoles_eq_ok hroles
    exact (h.setRefs userRoleRefs).updateRow hrow

omit [EmptyCollection C] in
/-- Imported users and storages have ids of their own. -/
theorem keeps_sane_importUsers {users imported : List ImportedUser} {storages : List ImportedStorage}
    (himported : ∀ user ∈ users, user ∈ imported ∧ user.uuid ≠ "" ∧
      ∀ storage ∈ storages, user.uuid ≠ storage.uuid) (mapping : String → String) :
    Keeps (fun db => Sane db ∧
      (∀ storage ∈ db.storages, ∀ user ∈ imported, storage.id ≠ user.uuid) ∧
      ∀ storage ∈ storages, ∀ user ∈ db.users, user.id ≠ storage.uuid)
      (PremisesCall.importUsers users mapping : StartWork C _) := by
  induction users generalizing mapping with
  | nil => exact Keeps.pure _
  | cons user users ih =>
    have hrest := ih fun v hv => himported v (List.mem_cons_of_mem _ hv)
    obtain ⟨hmem, hne, hother⟩ := himported user List.mem_cons_self
    refine Keeps.bind (keeps_read _) fun exist => ?_
    split
    · exact hrest _
    refine Keeps.bind (keeps_write ?_) fun _ => hrest _
    rintro db d ⟨hsane, hown, hfree⟩ hcreate
    unfold UserRepository.create at hcreate
    split at hcreate
    · next rows hinsert =>
      obtain rfl := Except.ok.inj hcreate
      refine ⟨hsane.insertUser hinsert hne fun storage hstorage hid => ?_, hown,
        fun storage hstorage v hv => ?_⟩
      · exact absurd hid (hown storage hstorage user hmem)
      · rcases (Table.mem_of_insert hinsert).mp hv with rfl | hv
        · exact hother storage hstorage
        · exact hfree storage hstorage v hv
    · cases hcreate

theorem keeps_sane_importBackup {users : List ImportedUser} {storages : List ImportedStorage}
    {others : Except Error Unit} (husers : ∀ user ∈ users, user.uuid ≠ "")
    (hstorages : ∀ storage ∈ storages, storage.uuid ≠ superAdminId ∧
      ∀ user ∈ users, user.uuid ≠ storage.uuid) :
    Keeps (fun db => Sane db ∧
      (∀ storage ∈ db.storages, ∀ user ∈ users, storage.id ≠ user.uuid) ∧
      ∀ storage ∈ storages, ∀ user ∈ db.users, user.id ≠ storage.uuid)
      ((PremisesCall.importBackup users storages others).work : StartWork C Unit) := by
  refine Keeps.transaction (Keeps.bind (keeps_sane_importUsers (fun user huser => ?_) _)
    fun mapping => Keeps.bind (Keeps.each fun storage hstorage => ?_) fun _ => keeps_ofExcept _)
  · exact ⟨huser, husers user huser, fun storage hstorage => (hstorages storage hstorage).2 user huser⟩
  · obtain ⟨hadmin, hother⟩ := hstorages storage hstorage
    refine keeps_writeStorages ?_
    rintro db rows ⟨hsane, hown, hfree⟩ hcreate
    unfold StorageRepository.create at hcreate
    split at hcreate
    · next rows' hinsert =>
      obtain rfl := Except.ok.inj hcreate
      refine ⟨hsane.insertStorage hinsert fun hwhose => ?_, fun row hrow user huser => ?_, hfree⟩
      · rcases hwhose with heq | ⟨user, huser, heq⟩
        · exact absurd heq hadmin
        · exact absurd heq (hfree storage hstorage user huser)
      · rcases (Table.mem_of_insert hinsert).mp hrow with rfl | hrow
        · exact (hother user huser).symm
        · exact hown row hrow user huser
    · cases hcreate

theorem keeps_sane_deleteUser (userId : String) :
    Keeps Sane ((PremisesCall.deleteUser userId).work : StartWork C Unit) := by
  have hkept : ∀ (f : Database → Database),
      (∀ d, (f d).properties = d.properties) → (∀ d, ∀ user ∈ (f d).users, user ∈ d.users) →
      Keeps Sane (write fun d => .ok (f d) : StartWork C Unit) := by
    intro f hproperties husers
    refine keeps_write fun db d hdb hf => ?_
    obtain rfl := Except.ok.inj hf
    refine hdb.shrink (fun name value hvalue => hdb.filled name value ?_)
      fun user huser => ⟨user, husers _ user huser, rfl⟩
    unfold stored at hvalue ⊢
    rwa [hproperties] at hvalue
  refine Keeps.bind (keeps_read _) fun _ => Keeps.transaction ?_
  refine Keeps.bind (hkept _ (fun _ => rfl) fun _ _ huser => huser) fun _ => ?_
  refine Keeps.bind (hkept _ (fun _ => rfl) fun _ _ huser => huser) fun _ => ?_
  refine Keeps.bind (StorageService.keeps_deleteStorageById _ _ fun db hdb =>
    hdb.deleteStorages _) fun _ => ?_
  refine Keeps.bind (hkept _ (fun _ => rfl) fun _ _ huser => huser) fun _ => ?_
  exact hkept _ (fun _ => rfl) fun _ _ huser => (Table.mem_deleteWhere.mp huser).1

theorem keeps_sane_createStorage {uuid account : String} {item : Storage}
    (hadmin : uuid ≠ superAdminId) :
    Keeps (fun db => Sane db ∧ ∀ user ∈ db.users, user.id ≠ uuid)
      ((PremisesCall.createStorage uuid account item).work : StartWork C Unit) := by
  refine Keeps.bind (keeps_onDrive _) fun _ => keeps_writeStorages ?_
  rintro db rows ⟨hsane, hfree⟩ hcreate
  unfold StorageRepository.create at hcreate
  split at hcreate
  · next rows' hinsert =>
    obtain rfl := Except.ok.inj hcreate
    refine ⟨hsane.insertStorage hinsert fun hwhose => ?_, hfree⟩
    rcases hwhose with heq | ⟨user, huser, heq⟩
    · exact absurd heq hadmin
    · exact absurd heq (hfree user huser)
  · cases hcreate

theorem keeps_sane_updateStorage (id : String) (item : Storage) :
    Keeps Sane ((PremisesCall.updateStorage id item).work : StartWork C Unit) := by
  refine keeps_writeStorages fun db rows hdb hupdate => ?_
  unfold PremisesCall.updateStorageRow at hupdate
  split at hupdate
  · next old hfind =>
    obtain rfl := Except.ok.inj hupdate
    obtain ⟨hold, -⟩ := Table.findById_eq_some.mp hfind
    refine ⟨hdb.filled, fun storage hstorage hwhose => ?_, hdb.ids⟩
    rcases Table.mem_put.mp hstorage with rfl | ⟨hstorage, -⟩
    · exact hdb.owned old hold hwhose
    · exact hdb.owned storage hstorage hwhose
  · cases hupdate

end Calls

/-! ### Runs -/

namespace Premises

variable [EmptyCollection C] {s t : Premises C}

/-- However an operation ends, the tables stay sane. -/
theorem sane_after {a : PremisesAction} (hs : Sane s.db) (hdraws : Draws s a) :
    Sane (s.after a).db := by
  obtain ⟨call, served, driveServed⟩ := a
  cases call with
  | updateProperties u => exact hs.update _ u
  | upgradeFinishApp => exact keeps_sane_upgradeFinishApp (s.world ⟨_, served, driveServed⟩) hs
  | createUser uuid user encoded =>
    refine (keeps_sane_createUser hdraws.1 (s.world ⟨_, served, driveServed⟩)
      ⟨hs, fun storage hstorage heq => ?_⟩).1
    exact absurd heq (hdraws.2 storage hstorage)
  | updateUser uuid userId item =>
    have hkeeps : Keeps Sane ((PremisesCall.updateUser uuid userId item).work : StartWork C Unit) :=
      Keeps.transaction (keeps_write fun db d hdb hupdate => hdb.updateUser hupdate)
    exact hkeeps (s.world ⟨_, served, driveServed⟩) hs
  | updateRow o =>
    have hkeeps : Keeps Sane ((PremisesCall.updateRow o).work : StartWork C Unit) :=
      keeps_write fun db d hdb hupdate => hdb.updateRow hupdate
    exact hkeeps (s.world ⟨_, served, driveServed⟩) hs
  | deleteUser userId => exact keeps_sane_deleteUser userId (s.world ⟨_, served, driveServed⟩) hs
  | createStorage uuid account item =>
    exact (keeps_sane_createStorage hdraws.1 (s.world ⟨_, served, driveServed⟩) ⟨hs, hdraws.2⟩).1
  | updateStorage id item => exact keeps_sane_updateStorage id item (s.world ⟨_, served, driveServed⟩) hs
  | deleteStorages ids =>
    have hkeeps : Keeps Sane ((PremisesCall.deleteStorages ids).work : StartWork C Unit) :=
      Keeps.each fun id _ => StorageService.keeps_deleteStorageById id false fun db hdb =>
        hdb.deleteStorages _
    exact hkeeps (s.world ⟨_, served, driveServed⟩) hs
  | importBackup users storages others =>
    obtain ⟨husers, hstorages⟩ := hdraws
    have hkeeps : Keeps _ ((PremisesCall.importBackup users storages others).work : StartWork C Unit) :=
      keeps_sane_importBackup (fun user huser => (husers user huser).1)
        fun storage hstorage => ⟨(hstorages storage hstorage).1, (hstorages storage hstorage).2.2⟩
    refine (hkeeps (s.world ⟨_, served, driveServed⟩) ⟨hs, fun storage hstorage user huser => ?_,
      fun storage hstorage => (hstorages storage hstorage).2.1⟩).1
    exact (husers user huser).2 storage hstorage
  | start plan => exact keeps_sane_initDBData hdraws (s.world ⟨_, served, driveServed⟩) hs

theorem sane_of_reaches (h : Reaches ({} : Premises C) s) : Sane s.db := by
  refine Transition.Reaches.invariant (I := fun s : Premises C => Sane s.db) ?_ h Sane.empty
  intro s a t hs hdraws hstep
  obtain rfl := Option.some.inj hstep
  exact sane_after hs hdraws

end Premises

end NextDBM
