import NextDBM.Startup.Proofs.PremisesProofs

/-!
# Proofs about starts

What the stages of a start leave when they go through, what they do not touch when everything is settled,
when they go through, and what they may do to the drive.
-/

namespace NextDBM

open Transaction Relational Work StartWork PropertyStore

variable {C : Type}

/-! ## A start that goes through -/

section Stages

variable {plan : StartPlan} {w w' : World StartDatabase (Disk C)} {I : StartDatabase → Prop}

theorem staysOut_propertyMap (readable : Bool) :
    StaysOut (PropertyService.propertyMap readable : StartWork C _) := by
  refine .bind (.query _) fun answer => ?_
  cases answer with
  | ok properties => exact .pure _
  | error e => exact .pure _

theorem staysOut_initProperties (readable : Bool) (order : List (String × String)) :
    StaysOut (PropertyService.initProperties readable order : StartWork C Unit) := by
  refine .bind (staysOut_propertyMap readable) fun properties => .each (fun item => ?_) order
  unfold PropertyService.createIfAbsent
  split
  · exact .statement _
  · exact .pure _

theorem staysOut_deleteDeprecatedProperty (readable : Bool) :
    StaysOut (PropertyService.deleteDeprecatedProperty readable : StartWork C Unit) := by
  refine .bind (staysOut_propertyMap readable) fun properties => .each (fun name => ?_) _
  unfold PropertyService.deleteDeprecated
  split
  · exact .pure _
  · exact .statement _

/-- The repair of the properties leaves the rest alone. -/
theorem keeps_properties_stages (plan : StartPlan)
    (hI : ∀ db properties, I db → I { db with properties }) :
    Keeps I (PropertyService.deleteDeprecatedProperty plan.deprecatedReadable : StartWork C Unit) ∧
      Keeps I (PropertyService.initProperties plan.defaultsReadable plan.order :
        StartWork C Unit) := by
  refine ⟨PropertyService.keeps_deleteDeprecatedProperty _ fun name _ db d hdb hdelete => ?_,
    PropertyService.keeps_initProperties _ fun item _ db d hdb hcreate => ?_⟩
  · obtain rfl := Except.ok.inj hdelete
    exact hI db _ hdb
  · obtain ⟨properties, rfl⟩ := PropertyService.create_eq_ok hcreate
    exact hI db properties hdb

/-- The accounts and the storages are repaired without a look at other properties. -/
theorem keeps_initUser_properties (plan : StartPlan) (properties : Table Property Property.name) :
    Keeps (fun db => db.properties = properties)
      (Startup.initUser plan.encoded plan.uuid : StartWork C Unit) := by
  refine Startup.keeps_initUser ?_ ?_ ?_
  · exact fun _ _ hdb => hdb
  · exact fun _ _ hdb => hdb
  · exact fun _ _ _ hdb _ => hdb

theorem keeps_initUser_storages (plan : StartPlan) (storages : Table Storage Storage.id) :
    Keeps (fun db => db.storages = storages)
      (Startup.initUser plan.encoded plan.uuid : StartWork C Unit) := by
  refine Startup.keeps_initUser ?_ ?_ ?_
  · exact fun _ _ hdb => hdb
  · exact fun _ _ hdb => hdb
  · exact fun _ _ _ hdb _ => hdb

theorem stored_of_properties {d d' : Database} (h : d'.properties = d.properties) (key : String) :
    stored d' key = stored d key := by
  unfold stored
  rw [h]

/-- The accounts after a start. -/
structure Accounts (before after : StartDatabase) : Prop where
  populated : after.users.rows ≠ []
  typed : ∀ user ∈ after.users, user.type ≠ ""
  ids : after.users.rows.map User.id = accountIds before.toDatabase
  roles : before.users.rows ≠ [] → ∀ user ∈ after.users, user.type = nd.typeAdmin →
    RoleService.getRolesByUserId after.toDatabase user.id ≠ []
  first : before.users.rows = [] → after.userRoleRefs = before.userRoleRefs

theorem getRolesByUserId_ne_nil {d : Database} {userId : String}
    (h : ∃ r ∈ d.userRoleRefs, r.userId = userId) : RoleService.getRolesByUserId d userId ≠ [] := by
  obtain ⟨r, hr, hid⟩ := h
  refine List.ne_nil_of_mem (a := r.roleId) (List.mem_map_of_mem (List.mem_filter.mpr ⟨hr, ?_⟩))
  exact beq_iff_eq.mpr hid

theorem accounts_of_initUser (h : Startup.initUser plan.encoded plan.uuid w = (.ok (), w')) :
    Accounts w.db w'.db := by
  obtain ⟨-, hsome, hnone⟩ := Startup.initUser_ok h
  by_cases hnil : w.db.users.rows = []
  · obtain ⟨⟨pass, hrows⟩, hrefs⟩ := hnone hnil
    refine ⟨fun hempty => ?_, fun user huser => ?_, ?_, fun hne => absurd hnil hne, fun _ => hrefs⟩
    · rw [hrows] at hempty
      cases hempty
    · have huser : user ∈ w'.db.users.rows := huser
      rw [hrows, List.mem_singleton] at huser
      obtain rfl := huser
      have hadmin : nd.typeAdmin ≠ "" := by decide
      exact hadmin
    · unfold accountIds
      rw [if_pos hnil, hrows]
      rfl
  · have hrepairs := hsome hnil
    refine ⟨fun hempty => ?_, hrepairs.typed, ?_, fun _ user huser hadmin => ?_,
      fun hempty => absurd hempty hnil⟩
    · have hids := hrepairs.ids
      rw [hempty] at hids
      exact hnil (List.map_eq_nil_iff.mp hids.symm)
    · unfold accountIds
      rw [if_neg hnil, hrepairs.ids]
    · exact getRolesByUserId_ne_nil (hrepairs.administrators user huser hadmin)

variable [EmptyCollection C]

/-- The stages, with the database serving until the last one. -/
theorem initDBData_ok (h : initDBData plan w = (.ok (), w')) : ∃ w₁ w₂ w₃,
    PropertyService.deleteDeprecatedProperty plan.deprecatedReadable w = (.ok (), w₁) ∧
    PropertyService.initProperties plan.defaultsReadable plan.order w₁ = (.ok (), w₂) ∧
    Startup.initUser plan.encoded plan.uuid w₂ = (.ok (), w₃) ∧
    StorageService.initStorages plan.readable w₃ = (.ok (), w') ∧
    w.served ≠ some 0 ∧ w₁.served ≠ some 0 := by
  obtain ⟨u₁, w₁, hdelete, h⟩ := bind_ok.mp h
  obtain ⟨u₂, w₂, hinit, h⟩ := bind_ok.mp h
  obtain ⟨u₃, w₃, husers, hstorages⟩ := bind_ok.mp h
  obtain ⟨users, w₄, hread, -⟩ := bind_ok.mp husers
  have hserved₂ : w₂.served ≠ some 0 := served_of_read hread
  have hserved₁ : w₁.served ≠ some 0 := fun hout => by
    have hlater := staysOut_initProperties plan.defaultsReadable plan.order w₁ hout
    rw [hinit] at hlater
    exact hserved₂ hlater
  refine ⟨w₁, w₂, w₃, hdelete, hinit, husers, hstorages, fun hout => ?_, hserved₁⟩
  have hlater := staysOut_deleteDeprecatedProperty plan.deprecatedReadable w hout
  rw [hdelete] at hlater
  exact hserved₁ hlater

/-- The settings after a start. -/
theorem repaired_of_start (hfilled : PropertyService.Filled w.db.toDatabase) (horder : plan.Orders)
    (hreads : plan.Reads) (h : initDBData plan w = (.ok (), w')) :
    PropertyService.Repaired w.db.toDatabase w'.db.toDatabase := by
  obtain ⟨w₁, w₂, w₃, hdelete, hinit, husers, hstorages, hserved, hserved₁⟩ := initDBData_ok h
  rw [hreads.deprecated] at hdelete
  rw [hreads.defaults] at hinit
  have hrepaired := PropertyService.repaired_of_ok hdelete hinit hserved hserved₁ hfilled horder
  have hproperties : w'.db.properties = w₂.db.properties := by
    obtain ⟨w₄, hprovides, hreviews⟩ := StorageService.initStorages_ok hstorages
    have hkept := keeps_initUser_properties plan w₂.db.properties w₂ rfl
    rw [husers] at hkept
    rw [hreviews.same, hprovides.same]
    exact hkept
  have hstored := stored_of_properties hproperties
  refine ⟨fun name hname => ?_, fun item hitem => ?_, fun name hname hother => ?_⟩
  · rw [hstored]
    exact hrepaired.deprecated name hname
  · rw [hstored]
    exact hrepaired.defaults item hitem
  · rw [hstored]
    exact hrepaired.others name hname hother

/-- The users, roles and storages that the repair of the accounts finds. -/
theorem start_ok (h : initDBData plan w = (.ok (), w')) : ∃ w₂ w₃ : World StartDatabase (Disk C),
    w₂.db.users = w.db.users ∧ w₂.db.userRoleRefs = w.db.userRoleRefs ∧
      w₂.db.storages = w.db.storages ∧ Accounts w₂.db w₃.db ∧ w₃.db.storages = w.db.storages ∧
      StorageService.initStorages plan.readable w₃ = (.ok (), w') := by
  obtain ⟨w₁, w₂, w₃, hdelete, hinit, husers, hstorages, -, -⟩ := initDBData_ok h
  obtain ⟨hkeep₁, hkeep₂⟩ := keeps_properties_stages (C := C) plan
    (I := fun db => db.users = w.db.users ∧ db.userRoleRefs = w.db.userRoleRefs ∧
      db.storages = w.db.storages) fun _ _ hdb => hdb
  have hdb₁ := hkeep₁ w ⟨rfl, rfl, rfl⟩
  rw [hdelete] at hdb₁
  have hdb₂ := hkeep₂ w₁ hdb₁
  rw [hinit] at hdb₂
  obtain ⟨hdbusers, hdbrefs, hdbstorages⟩ := hdb₂
  have hdb₃ := keeps_initUser_storages plan w.db.storages w₂ hdbstorages
  rw [husers] at hdb₃
  exact ⟨w₂, w₃, hdbusers, hdbrefs, hdbstorages, accounts_of_initUser husers, hdb₃, hstorages⟩

theorem accounts_of_start (h : initDBData plan w = (.ok (), w')) : Accounts w.db w'.db := by
  obtain ⟨w₂, w₃, husers, hrefs, -, haccounts, -, hstorages⟩ := start_ok h
  obtain ⟨w₄, hprovides, hreviews⟩ := StorageService.initStorages_ok hstorages
  have hsame : w'.db.toDatabase = w₃.db.toDatabase := hreviews.same.trans hprovides.same
  obtain ⟨hpopulated, htyped, hids, hroles, hfirst⟩ := haccounts
  unfold accountIds at hids
  rw [husers] at hids hroles hfirst
  rw [hrefs] at hfirst
  rw [← hsame] at hpopulated htyped hids hroles hfirst
  exact ⟨hpopulated, htyped, hids, hroles, hfirst⟩

/-- The storages after a start. -/
structure Reviewed (t : Premises C) : Prop where
  only : ∀ storage ∈ t.db.storages, storage.isDefault = true →
    ∃ user ∈ t.db.users, user.id = storage.id
  dirs : ∀ storage ∈ t.db.storages, (t.drive storage.id).isSome = true

theorem not_isLeftOver {users : List User} {storage : Storage} :
    StorageService.isLeftOver users storage = false ↔
      (storage.isDefault = true → ∃ user ∈ users, user.id = storage.id) := by
  unfold StorageService.isLeftOver
  rw [Bool.and_eq_false_imp, Bool.not_eq_false', List.any_eq_true]
  refine forall_congr' fun _ => exists_congr fun user => and_congr_right fun _ => ?_
  rw [beq_iff_eq, eq_comm]

theorem reviewed_of_start (h : initDBData plan w = (.ok (), w')) :
    Reviewed ⟨w'.db, w'.memory.dirs⟩ := by
  obtain ⟨w₂, w₃, -, -, -, -, -, hstorages⟩ := start_ok h
  obtain ⟨w₄, hprovides, hreviews⟩ := StorageService.initStorages_ok hstorages
  have hsame : w'.db.toDatabase = w₃.db.toDatabase := hreviews.same.trans hprovides.same
  have hkept : ∀ storage ∈ w'.db.storages, storage ∈ w₄.db.storages ∧
      StorageService.isLeftOver w₃.db.users.rows storage = false := by
    intro storage hstorage
    obtain ⟨hmem, hnot⟩ := (hreviews.rows storage).mp hstorage
    exact ⟨hmem, Bool.eq_false_iff.mpr fun hleft => hnot ⟨hmem, hleft⟩⟩
  refine ⟨fun storage hstorage hdefault => ?_, fun storage hstorage => ?_⟩
  · obtain ⟨-, hleft⟩ := hkept storage hstorage
    obtain ⟨user, huser, hid⟩ := not_isLeftOver.mp hleft hdefault
    refine ⟨user, ?_, hid⟩
    show user ∈ w'.db.toDatabase.users
    rw [hsame]
    exact huser
  · obtain ⟨hmem, hleft⟩ := hkept storage hstorage
    show (w'.memory.dirs storage.id).isSome = true
    rw [hreviews.kept storage hmem hleft]
    rfl

/-- Once every default storage bears the name of its owner, a start gives every user one of its own. -/
theorem own_of_start (hreads : plan.Reads) (hown : ∀ storage ∈ w.db.storages,
    storage.isDefault = true → storage.id = storage.owner) (h : initDBData plan w = (.ok (), w')) :
    ∀ user ∈ w'.db.users, ∃ storage ∈ w'.db.storages,
      storage.isDefault = true ∧ storage.id = user.id ∧ storage.owner = user.id := by
  obtain ⟨w₂, w₃, -, -, -, -, hstorages₃, hstorages⟩ := start_ok h
  obtain ⟨w₄, hprovides, hreviews⟩ := StorageService.initStorages_ok hstorages
  have hsame : w'.db.toDatabase = w₃.db.toDatabase := hreviews.same.trans hprovides.same
  rw [hsame]
  intro user huser
  -- the storage is there before the second loop, which leaves it alone
  obtain ⟨storage, hmem, hdefault, hid, howner⟩ : ∃ storage ∈ w₄.db.storages,
      storage.isDefault = true ∧ storage.id = user.id ∧ storage.owner = user.id := by
    by_cases hhas : StorageService.HasDefault w₃.db user.id
    · obtain ⟨storage, hmem, howner, hdefault⟩ := hhas
      have hid := hown storage (hstorages₃ ▸ hmem) hdefault
      exact ⟨storage, (hprovides.rows storage).mpr (.inl hmem), hdefault, hid.trans howner, howner⟩
    · obtain ⟨hsize, -⟩ := hprovides.made user huser hhas (hreads.storages user.id)
      obtain ⟨megabytes, hmegabytes⟩ := Option.isSome_iff_exists.mp hsize
      refine ⟨StorageService.defaultStorage user megabytes, (hprovides.rows _).mpr (.inr ?_), rfl,
        rfl, rfl⟩
      exact ⟨user, huser, hhas, hreads.storages user.id, megabytes, hmegabytes, rfl⟩
  refine ⟨storage, (hreviews.rows storage).mpr ⟨hmem, ?_⟩, hdefault, hid, howner⟩
  rintro ⟨-, hleft⟩
  rw [not_isLeftOver.mpr fun _ => ⟨user, huser, hid.symm⟩] at hleft
  cases hleft

end Stages

/-! ## Starts of a settled installation -/

section Settled

variable [EmptyCollection C] {s : Premises C}

/-- The world of `s`, with any faults to come. -/
def IsAt (s : Premises C) (w : World StartDatabase (Disk C)) : Prop :=
  w.db = s.db ∧ w.memory.dirs = s.drive

section Statements

variable {α : Type}

omit [EmptyCollection C] in
theorem leaves_read (f : StartDatabase → Except Error α) :
    Leaves (IsAt s) (fun a => f s.db = .ok a) (read f : StartWork C α) := by
  intro w hw
  rcases h : (read f : StartWork C α) w with ⟨r, w'⟩
  cases r with
  | ok a =>
    obtain ⟨hf, hdb, hdirs⟩ := read_eq_ok h
    refine ⟨⟨hdb.trans hw.1, hdirs.trans hw.2⟩, fun b hb => ?_⟩
    obtain rfl := Except.ok.inj hb
    rwa [hw.1] at hf
  | error e =>
    obtain ⟨hdb, hmemory⟩ := statement_error h
    refine ⟨⟨hdb.trans hw.1, (congrArg Disk.dirs hmemory).trans hw.2⟩, fun b hb => ?_⟩
    cases hb

omit [EmptyCollection C] in
theorem leaves_query (f : StartDatabase → Except Error α) :
    Leaves (IsAt s) (fun answer => answer = .error databaseFault ∨ answer = f s.db)
      (query f : StartWork C (Except Error α)) := by
  intro w hw
  rw [query_run]
  refine ⟨hw, fun answer hanswer => ?_⟩
  obtain rfl := Except.ok.inj hanswer
  split
  · exact .inl rfl
  · rw [hw.1]
    exact .inr rfl

omit [EmptyCollection C] in
/-- A write that the tables reject. -/
theorem leaves_write_error {f : Database → Except Error Database} {e : Error}
    (h : f s.db.toDatabase = .error e) :
    Leaves (IsAt s) (fun _ => True) (write f : StartWork C Unit) := by
  intro w hw
  refine ⟨?_, fun _ _ => trivial⟩
  rcases hrun : (write f : StartWork C Unit) w with ⟨r, w'⟩
  cases r with
  | ok u =>
    obtain ⟨hok, -, -⟩ := write_eq_ok hrun
    rw [hw.1, h] at hok
    cases hok
  | error e' =>
    obtain ⟨hdb, hmemory⟩ := statement_error hrun
    exact ⟨hdb.trans hw.1, (congrArg Disk.dirs hmemory).trans hw.2⟩

end Statements

variable {plan : StartPlan}

omit [EmptyCollection C] in
theorem leaves_propertyMap (readable : Bool) :
    Leaves (IsAt s) (fun properties => (∀ key, properties key = "") ∨
        properties = PropertyRepository.findAllMap s.db.toDatabase readable)
      (PropertyService.propertyMap readable : StartWork C _) := by
  refine Leaves.bind (leaves_query _) fun answer hanswer => ?_
  rcases hanswer with rfl | rfl
  · exact Leaves.pure (.inl fun _ => rfl)
  · exact Leaves.pure (.inr rfl)

omit [EmptyCollection C] in
theorem findAllMap_of_none {d : Database} {key : String} (h : stored d key = none)
    (readable : Bool) : PropertyRepository.findAllMap d readable key = "" := by
  unfold PropertyRepository.findAllMap
  rw [h]
  split
  · rfl
  · rfl

omit [EmptyCollection C] in
theorem leaves_deleteDeprecatedProperty (hs : Settled s) (readable : Bool) :
    Leaves (IsAt s) (fun _ => True)
      (PropertyService.deleteDeprecatedProperty readable : StartWork C Unit) := by
  refine Leaves.bind (leaves_propertyMap readable) fun properties hproperties =>
    Leaves.each fun name hname => ?_
  have hempty : properties name = "" := by
    rcases hproperties with hempty | rfl
    · exact hempty name
    · exact findAllMap_of_none (hs.deprecated name hname) readable
  unfold PropertyService.deleteDeprecated
  rw [if_pos hempty]
  exact Leaves.pure trivial

omit [EmptyCollection C] in
/-- A default is there already, whether or not the map shows it. -/
theorem leaves_initProperties (hs : Settled s) (horder : plan.Orders) (readable : Bool) :
    Leaves (IsAt s) (fun _ => True)
      (PropertyService.initProperties readable plan.order : StartWork C Unit) := by
  refine Leaves.bind (leaves_propertyMap readable) fun properties _ =>
    Leaves.each fun item hitem => ?_
  unfold PropertyService.createIfAbsent
  split
  · have hsome := hs.defaults item (horder.mem_iff.mp hitem)
    have htaken : PropertyRepository.create s.db.toDatabase { name := item.1, value := item.2 } =
        .error .duplicatedKey := by
      obtain ⟨value, hvalue⟩ := Option.isSome_iff_exists.mp hsome
      obtain ⟨p, hp, hname, -⟩ := stored_eq_some.mp hvalue
      unfold PropertyRepository.create
      rw [Table.insert_eq_none.mpr ⟨p, hp, hname⟩]
    exact leaves_write_error htaken
  · exact Leaves.pure trivial

omit [EmptyCollection C] in
theorem leaves_initUser (hs : Settled s) :
    Leaves (IsAt s) (fun _ => True)
      (Startup.initUser plan.encoded plan.uuid : StartWork C Unit) := by
  refine Leaves.bind (leaves_read _) fun users husers => ?_
  obtain rfl := Except.ok.inj husers
  rw [if_neg fun hlength => hs.populated (List.length_eq_zero_iff.mp hlength)]
  refine Leaves.each fun user huser => Leaves.bind (P := fun _ => True) ?_ fun _ _ => ?_
  · unfold Startup.repairType
    rw [if_neg (hs.typed user huser)]
    exact Leaves.pure trivial
  · unfold Startup.repairRole
    split
    · next hadmin =>
      refine Leaves.bind (leaves_read _) fun roles hroles => ?_
      obtain rfl := Except.ok.inj hroles
      rw [if_neg fun hlength => hs.roles user huser hadmin (List.length_eq_zero_iff.mp hlength)]
      exact Leaves.pure trivial
    · exact Leaves.pure trivial

theorem leaves_ensureStorage (hs : Settled s) {user : User} (huser : user ∈ s.db.users) :
    Leaves (IsAt s) (fun _ => True)
      (StorageService.ensureStorage plan.readable user : StartWork C Unit) := by
  refine Leaves.bind (leaves_query _) fun found hfound => ?_
  rcases hfound with rfl | rfl
  · exact Leaves.pure trivial
  · obtain ⟨storage, hstorage, hdefault, -, howner⟩ := hs.own user huser
    rcases StorageService.findDefaultOf_cases s.db user.id with ⟨-, hnone⟩ | ⟨⟨found, hfound⟩, -⟩
    · exact absurd ⟨storage, hstorage, howner, hdefault⟩ hnone
    · rw [hfound]
      exact Leaves.pure trivial

theorem leaves_reviewStorage (hs : Settled s) {storage : Storage}
    (hstorage : storage ∈ s.db.storages) :
    Leaves (IsAt s) (fun _ => True)
      (StorageService.reviewStorage s.db.users.rows storage : StartWork C Unit) := by
  have hleft := not_isLeftOver.mpr (hs.only storage hstorage)
  unfold StorageService.reviewStorage StorageService.removeLeftOver
  refine Leaves.bind (P := fun _ => True) ?_ fun _ _ => ?_
  · rw [hleft]
    exact Leaves.pure trivial
  · intro w hw
    refine ⟨?_, fun _ _ => trivial⟩
    unfold StorageService.ensureDir
    rw [if_pos (by rw [hw.2]; exact hs.dirs storage hstorage)]
    exact hw

theorem leaves_initDBData (hs : Settled s) (horder : plan.Orders) :
    Leaves (IsAt s) (fun _ => True) (initDBData plan : StartWork C Unit) := by
  unfold initDBData
  refine Leaves.bind (leaves_deleteDeprecatedProperty hs _) fun _ _ =>
    Leaves.bind (leaves_initProperties hs horder _) fun _ _ =>
    Leaves.bind (leaves_initUser hs) fun _ _ => ?_
  unfold StorageService.initStorages
  refine Leaves.bind (leaves_read _) fun users husers => ?_
  obtain rfl := Except.ok.inj husers
  refine Leaves.bind (Leaves.each fun user huser => leaves_ensureStorage hs huser) fun _ _ => ?_
  refine Leaves.bind (leaves_read _) fun storages hstorages => ?_
  obtain rfl := Except.ok.inj hstorages
  exact Leaves.each fun storage hstorage => leaves_reviewStorage hs hstorage

end Settled

/-! ## Starts without faults -/

section Free

variable {w : World StartDatabase (Disk C)}

/-- Nothing fails any more. -/
def Free (w : World StartDatabase (Disk C)) : Prop := w.served = none ∧ w.memory.served = none

theorem read_run {α : Type} {f : StartDatabase → Except Error α} {a : α} (h : f w.db = .ok a)
    (hw : Free w) : (read f : StartWork C α) w = (.ok a, w) := by
  have hf : ((f w.db).map fun a => (a, w.db)) = .ok (a, w.db) := by
    rw [h]
    rfl
  exact statement_run hf hw.1

theorem write_run {f : Database → Except Error Database} {d : Database}
    (h : f w.db.toDatabase = .ok d) (hw : Free w) : (write f : StartWork C Unit) w =
      (.ok (), { w with db := { w.db with toDatabase := d } }) := by
  have hf : ((f w.db.toDatabase).map fun d => ((), { w.db with toDatabase := d })) =
      .ok ((), { w.db with toDatabase := d }) := by
    rw [h]
    rfl
  exact statement_run hf hw.1

theorem writeStorages_run
    {f : Table Storage Storage.id → Except Error (Table Storage Storage.id)}
    {storages : Table Storage Storage.id} (h : f w.db.storages = .ok storages) (hw : Free w) :
    (writeStorages f : StartWork C Unit) w = (.ok (), { w with db := { w.db with storages } }) := by
  have hf : ((f w.db.storages).map fun storages => ((), { w.db with storages })) =
      .ok ((), { w.db with storages }) := by
    rw [h]
    rfl
  exact statement_run hf hw.1

theorem query_free {α : Type} (f : StartDatabase → Except Error α) (hw : Free w) :
    (query f : StartWork C (Except Error α)) w = (.ok (f w.db), w) := by
  rw [query_run, hw.1]
  obtain ⟨db, memory, served⟩ := w
  obtain rfl : served = none := hw.1
  rfl

theorem onDrive_run (g : Drive C → Drive C) (hw : Free w) :
    onDrive g w = (.ok (), { w with memory := ⟨g w.memory.dirs, none⟩ }) := by
  unfold onDrive
  rw [hw.2]
  rfl

theorem orElse_run {x cleanup : StartWork C Unit} {w' : World StartDatabase (Disk C)}
    (h : x w = (.ok (), w')) : x.orElse cleanup w = (.ok (), w') := by
  unfold orElse
  rw [h]

theorem propertyMap_run (hw : Free w) : (PropertyService.propertyMap true : StartWork C _) w =
    (.ok (PropertyRepository.findAllMap w.db.toDatabase true), w) :=
  (bind_run_ok (query_free _ hw)).trans rfl

theorem deleteDeprecated_run (properties : String → String) (name : String) (hw : Free w) :
    ∃ w', PropertyService.deleteDeprecated properties name w = (.ok (), w') ∧ Free w' := by
  unfold PropertyService.deleteDeprecated
  split
  · exact ⟨w, rfl, hw⟩
  · exact ⟨_, write_run rfl hw, hw⟩

theorem deleteDeprecatedProperty_run (hw : Free w) : ∃ w',
    PropertyService.deleteDeprecatedProperty true w = (.ok (), w') ∧ Free w' := by
  obtain ⟨w', hrun, hw'⟩ := each_run (I := fun _ => Free)
    (fun name _ _ hw => deleteDeprecated_run (PropertyRepository.findAllMap w.db.toDatabase true)
      name hw) hw
  exact ⟨w', (bind_run_ok (propertyMap_run hw)).trans hrun, hw'⟩

/-- The defaults that are still to come are distinct, and free when the map shows nothing for them. -/
structure ToCreate (properties : String → String) (items : List (String × String))
    (w : World StartDatabase (Disk C)) : Prop where
  run : Free w
  nodup : (items.map Prod.fst).Nodup
  absent : ∀ item ∈ items, (properties item.1).length = 0 →
    stored w.db.toDatabase item.1 = none

theorem createIfAbsent_run {properties : String → String} {item : String × String}
    {items : List (String × String)} (h : ToCreate properties (item :: items) w) :
    ∃ w', PropertyService.createIfAbsent properties item w = (.ok (), w') ∧
      ToCreate properties items w' := by
  obtain ⟨hrun, hnodup, habsent⟩ := h
  obtain ⟨hnew, hnodup⟩ := List.nodup_cons.mp hnodup
  unfold PropertyService.createIfAbsent
  split
  · next hempty =>
    obtain ⟨d, hcreate⟩ := create_of_free { name := item.1, value := item.2 }
      (habsent item List.mem_cons_self hempty)
    refine ⟨_, write_run hcreate hrun, hrun, hnodup, fun other hother hlength => ?_⟩
    have hne : other.1 ≠ item.1 := fun heq => hnew (heq ▸ List.mem_map_of_mem hother)
    show stored d other.1 = none
    rw [(PropertyService.stored_insert hcreate).2, if_neg hne]
    exact habsent other (List.mem_cons_of_mem _ hother) hlength
  · exact ⟨w, rfl, hrun, hnodup, fun other hother => habsent other (List.mem_cons_of_mem _ hother)⟩

theorem initProperties_run {order : List (String × String)}
    (hfilled : PropertyService.Filled w.db.toDatabase)
    (horder : order.Perm PropertyService.defaultProperties) (hw : Free w) : ∃ w',
    PropertyService.initProperties true order w = (.ok (), w') ∧ Free w' := by
  have hstart : ToCreate (PropertyRepository.findAllMap w.db.toDatabase true) order w := by
    refine ⟨hw, (horder.map Prod.fst).nodup_iff.mpr PropertyService.nodup_defaultProperties,
      fun item _ hlength => ?_⟩
    have hempty := (PropertyService.length_eq_zero _).mp hlength
    exact (PropertyService.findAllMap_eq_empty hfilled).mp hempty
  obtain ⟨w', hrun, hend⟩ := each_run (I := ToCreate
    (PropertyRepository.findAllMap w.db.toDatabase true)) (fun _ _ _ h => createIfAbsent_run h) hstart
  exact ⟨w', (bind_run_ok (propertyMap_run hw)).trans hrun, hend.run⟩

/-- The accounts that are still to come have ids, and the roles that they may get have new ones. -/
structure ToRepair (uuid : String → String) (users : List User)
    (w : World StartDatabase (Disk C)) : Prop where
  run : Free w
  ids : ∀ user ∈ users, user.id ≠ ""
  fresh : ∀ user ∈ users, ∀ r ∈ w.db.userRoleRefs, r.id ≠ uuid user.id
  distinct : (users.map fun user => uuid user.id).Nodup

theorem repairType_run {user : User} (hid : user.id ≠ "") (hw : Free w) : ∃ w',
    Startup.repairType user w = (.ok (), w') ∧ Free w' ∧
      w'.db.userRoleRefs = w.db.userRoleRefs := by
  unfold Startup.repairType
  split
  · have hupdate : UserRepository.update w.db.toDatabase { id := user.id, type := nd.typeUser } =
        .ok { w.db.toDatabase with users := Startup.retyped w.db.users user.id nd.typeUser } :=
      if_neg hid
    exact ⟨_, write_run hupdate hw, hw, rfl⟩
  · exact ⟨w, rfl, hw, rfl⟩

theorem saveUserRoles_run {d : Database} {uuid : String} (user : User)
    (hfresh : ∀ r ∈ d.userRoleRefs, r.id ≠ uuid) :
    ∃ d', UserService.saveUserRoles d (fun _ => uuid)
      { user with roles := ["system-administrator"] } = .ok d' ∧
      ∀ r ∈ d'.userRoleRefs, r ∈ d.userRoleRefs ∨ r.id = uuid := by
  let ref : UserRoleRef := { id := uuid, userId := user.id, roleId := "system-administrator" }
  have hnew : ∀ a ∈ [ref], ∀ b ∈ d.userRoleRefs, b.id ≠ a.id := by
    intro a ha b hb
    obtain rfl := List.mem_singleton.mp ha
    exact hfresh b hb
  obtain ⟨userRoleRefs, hinsert⟩ := Table.exists_insertAll (by simp) hnew
  refine ⟨{ d with userRoleRefs }, ?_, fun r hr => ?_⟩
  · have hrefs : (["system-administrator"].zipIdx.map fun x =>
        ({ id := uuid, userId := user.id, roleId := x.1 } : UserRoleRef)) = [ref] := rfl
    unfold UserService.saveUserRoles
    simp only [hrefs, hinsert]
  · rcases (Table.mem_of_insertAll hinsert).mp hr with hr | hr
    · obtain rfl := List.mem_singleton.mp hr
      exact .inr rfl
    · exact .inl hr

theorem repairRole_run (uuid : String → String) (user : User)
    (hfresh : ∀ r ∈ w.db.userRoleRefs, r.id ≠ uuid user.id) (hw : Free w) : ∃ w',
    Startup.repairRole uuid user w = (.ok (), w') ∧ Free w' ∧
      ∀ r ∈ w'.db.userRoleRefs, r ∈ w.db.userRoleRefs ∨ r.id = uuid user.id := by
  unfold Startup.repairRole
  split
  · have hread : (read fun db => .ok (RoleService.getRolesByUserId db.toDatabase user.id) :
        StartWork C _) w = (.ok (RoleService.getRolesByUserId w.db.toDatabase user.id), w) :=
      read_run rfl hw
    rw [bind_run_ok hread]
    split
    · obtain ⟨d, hsave, hrefs⟩ := saveUserRoles_run user hfresh
      exact ⟨_, write_run hsave hw, hw, hrefs⟩
    · exact ⟨w, rfl, hw, fun r hr => .inl hr⟩
  · exact ⟨w, rfl, hw, fun r hr => .inl hr⟩

theorem repairUser_run {uuid : String → String} {user : User} {users : List User}
    (h : ToRepair uuid (user :: users) w) : ∃ w',
    Startup.repairUser uuid user w = (.ok (), w') ∧ ToRepair uuid users w' := by
  obtain ⟨hrun, hids, hfresh, hdistinct⟩ := h
  obtain ⟨hnew, hdistinct⟩ := List.nodup_cons.mp hdistinct
  obtain ⟨w₁, htype, hrun₁, hrefs₁⟩ := repairType_run (hids user List.mem_cons_self) hrun
  obtain ⟨w', hrole, hrun', hrefs'⟩ := repairRole_run uuid user
    (fun r hr => hfresh user List.mem_cons_self r (hrefs₁ ▸ hr)) hrun₁
  refine ⟨w', (bind_run_ok htype).trans hrole, hrun',
    fun v hv => hids v (List.mem_cons_of_mem _ hv), fun v hv r hr => ?_, hdistinct⟩
  rcases hrefs' r hr with hr | hr
  · exact hfresh v (List.mem_cons_of_mem _ hv) r (hrefs₁ ▸ hr)
  · rw [hr]
    exact fun heq => hnew (List.mem_map.mpr ⟨v, hv, heq.symm⟩)

theorem initUser_run {plan : StartPlan} {pass : String} (hencoded : plan.encoded = .ok pass)
    (hids : ∀ user ∈ w.db.users, user.id ≠ "") (hdraws : plan.DrawsRoles w.db.toDatabase)
    (hw : Free w) : ∃ w', Startup.initUser plan.encoded plan.uuid w = (.ok (), w') ∧ Free w' := by
  have hread : (read fun db => .ok db.users.rows : StartWork C _) w = (.ok w.db.users.rows, w) :=
    read_run rfl hw
  unfold Startup.initUser
  rw [bind_run_ok hread]
  split
  · next hlength =>
    have hnil := List.length_eq_zero_iff.mp hlength
    have hpass : (ofExcept plan.encoded : StartWork C String) w = (.ok pass, w) :=
      ofExcept_eq_ok.mpr ⟨hencoded, rfl⟩
    rw [bind_run_ok hpass]
    have hcreate : ∃ d, UserRepository.create w.db.toDatabase (UserService.initialUser pass) =
        .ok d := by
      unfold UserRepository.create
      cases hinsert : w.db.users.insert (UserService.initialUser pass) with
      | some users => exact ⟨_, rfl⟩
      | none =>
        obtain ⟨user, huser, -⟩ := Table.insert_eq_none.mp hinsert
        have huser : user ∈ w.db.users.rows := huser
        rw [hnil] at huser
        exact absurd huser List.not_mem_nil
    obtain ⟨d, hd⟩ := hcreate
    exact ⟨_, write_run hd hw, hw⟩
  · have hstart : ToRepair plan.uuid w.db.users.rows w := by
      refine ⟨hw, hids, hdraws.fresh, ?_⟩
      rw [List.nodup_map_iff_inj_on w.db.users.nodup.of_map]
      intro u hu v hv heq
      exact Table.eq_of_key hu hv (hdraws.distinct u hu v hv heq)
    obtain ⟨w', hrun, hend⟩ := each_run (I := ToRepair plan.uuid) (fun _ _ _ h => repairUser_run h)
      hstart
    exact ⟨w', hrun, hend.run⟩

theorem deleteStorageById_run (id : String) (hw : Free w) : ∃ w',
    StorageService.deleteStorageById id true w = (.ok (), w') ∧ Free w' := by
  have hquery : (query fun db => firstOrNotFound (db.storages.findById id) : StartWork C _) w =
      (.ok (firstOrNotFound (w.db.storages.findById id)), w) := query_free _ hw
  unfold StorageService.deleteStorageById
  rw [bind_run_ok hquery]
  cases w.db.storages.findById id with
  | none => exact ⟨w, rfl, hw⟩
  | some storage =>
    have hremove : (StorageService.removeAll id : StartWork C Unit) w = _ := onDrive_run _ hw
    have hdelete := writeStorages_run (f := StorageRepository.deleteById id)
      (w := { w with memory := ⟨Function.update w.memory.dirs id none, none⟩ }) rfl ⟨hw.1, rfl⟩
    exact ⟨_, (bind_run_ok hremove).trans hdelete, hw.1, rfl⟩

variable [EmptyCollection C]

/-- The accounts that are still to come either have a storage or may get one. -/
structure ToProvide (d : Database) (users : List User) (w : World StartDatabase (Disk C)) :
    Prop where
  run : Free w
  same : w.db.toDatabase = d
  nodup : (users.map User.id).Nodup
  free : ∀ user ∈ users, ¬ StorageService.HasDefault w.db user.id →
    (StorageService.sizeSetting d).isSome = true ∧ ∀ storage ∈ w.db.storages, storage.id ≠ user.id

theorem createStorageByUser_run {user : User} (hw : Free w)
    (hsize : (StorageService.sizeSetting w.db.toDatabase).isSome = true)
    (hfree : ∀ storage ∈ w.db.storages, storage.id ≠ user.id) :
    ∃ w', StorageService.createStorageByUser user w = (.ok (), w') ∧ Free w' := by
  obtain ⟨megabytes, hmegabytes⟩ := Option.isSome_iff_exists.mp hsize
  obtain ⟨p, hp, hparse⟩ := StorageService.sizeSetting_eq_some.mp hmegabytes
  have hread : (read fun db => firstOrNotFound (db.properties.findById "user-default-storage-size") :
      StartWork C Property) w = (.ok p, w) := by
    refine read_run ?_ hw
    rw [hp]
    rfl
  have hnumber : (ofExcept (StorageService.parseSize p.value) : StartWork C Int) w =
      (.ok megabytes, w) := ofExcept_eq_ok.mpr ⟨hparse, rfl⟩
  obtain ⟨rows, hinsert⟩ : ∃ rows, StorageRepository.create
      (StorageService.defaultStorage user megabytes) w.db.storages = .ok rows := by
    unfold StorageRepository.create
    cases hinsert : w.db.storages.insert (StorageService.defaultStorage user megabytes) with
    | some rows => exact ⟨rows, rfl⟩
    | none =>
      obtain ⟨storage, hstorage, hid⟩ := Table.insert_eq_none.mp hinsert
      exact absurd hid (hfree storage hstorage)
  unfold StorageService.createStorageByUser
  rw [bind_run_ok hread, bind_run_ok hnumber]
  have hmkdir : (StorageService.mkdirAll user.id : StartWork C Unit) w = _ := onDrive_run _ hw
  rw [bind_run_ok hmkdir]
  exact ⟨_, orElse_run (writeStorages_run hinsert ⟨hw.1, rfl⟩), hw.1, rfl⟩

theorem ensureStorage_run {d : Database} {user : User} {users : List User} {readable : String → Bool}
    (hreadable : readable user.id = true) (h : ToProvide d (user :: users) w) : ∃ w',
    StorageService.ensureStorage readable user w = (.ok (), w') ∧ ToProvide d users w' := by
  obtain ⟨hrun, hsame, hnodup, hfree⟩ := h
  have hquery : (query fun db => StorageRepository.findDefaultOf db user.id : StartWork C _) w =
      (.ok (StorageRepository.findDefaultOf w.db user.id), w) := query_free _ hrun
  have hrest : ToProvide d users w := ⟨hrun, hsame, (List.nodup_cons.mp hnodup).2,
    fun v hv => hfree v (List.mem_cons_of_mem _ hv)⟩
  obtain ⟨w', hensure, hrun'⟩ : ∃ w', StorageService.ensureStorage readable user w = (.ok (), w') ∧
      Free w' := by
    unfold StorageService.ensureStorage
    rw [bind_run_ok hquery]
    rcases StorageService.findDefaultOf_cases w.db user.id with ⟨hfound, hnone⟩ | ⟨⟨_, hfound⟩, -⟩
    · obtain ⟨hsize, hids⟩ := hfree user List.mem_cons_self hnone
      rw [hfound]
      simp only [if_pos hreadable]
      exact createStorageByUser_run hrun (hsame ▸ hsize) hids
    · rw [hfound]
      exact ⟨w, rfl, hrun⟩
  refine ⟨w', hensure, ?_⟩
  obtain ⟨hdb, ⟨hstorages, -, -⟩ | ⟨-, -, -, megabytes, -, hinsert⟩⟩ :=
    StorageService.ensureStorage_ok hensure (hrun.1 ▸ nofun)
  · refine ⟨hrun', hdb.trans hsame, hrest.nodup, fun v hv hnone => ?_⟩
    unfold StorageService.HasDefault at hnone
    rw [hstorages] at hnone ⊢
    exact hrest.free v hv hnone
  · refine ⟨hrun', hdb.trans hsame, hrest.nodup, fun v hv hnone => ?_⟩
    have hne := StorageService.ne_of_nodup_cons hnodup hv
    have hiff := StorageService.hasDefault_of_insert hinsert hne
    obtain ⟨hsize, hids⟩ := hrest.free v hv fun hhas => hnone (hiff.mpr hhas)
    refine ⟨hsize, fun storage hstorage => ?_⟩
    rcases (Table.mem_of_insert hinsert).mp hstorage with rfl | hstorage
    · exact hne.symm
    · exact hids storage hstorage

theorem reviewStorage_run (users : List User) (storage : Storage) (hw : Free w) : ∃ w',
    StorageService.reviewStorage users storage w = (.ok (), w') ∧ Free w' := by
  obtain ⟨w₁, hremove, hw₁⟩ : ∃ w₁, StorageService.removeLeftOver users storage w = (.ok (), w₁) ∧
      Free w₁ := by
    unfold StorageService.removeLeftOver
    split
    · exact deleteStorageById_run storage.id hw
    · exact ⟨w, rfl, hw⟩
  unfold StorageService.reviewStorage
  rw [bind_run_ok hremove]
  unfold StorageService.ensureDir
  split
  · exact ⟨w₁, rfl, hw₁⟩
  · exact ⟨_, onDrive_run _ hw₁, hw₁.1, rfl⟩

theorem initStorages_run {readable : String → Bool} (hreadable : ∀ userId, readable userId = true)
    (hw : Free w) (hfree : ∀ user ∈ w.db.users, ¬ StorageService.HasDefault w.db user.id →
      (StorageService.sizeSetting w.db.toDatabase).isSome = true ∧
        ∀ storage ∈ w.db.storages, storage.id ≠ user.id) :
    ∃ w', StorageService.initStorages readable w = (.ok (), w') := by
  have hread : (read fun db => .ok db.users.rows : StartWork C _) w = (.ok w.db.users.rows, w) :=
    read_run rfl hw
  obtain ⟨w₁, hensure, hw₁⟩ := each_run (I := ToProvide (C := C) w.db.toDatabase)
    (fun user _ _ h => ensureStorage_run (hreadable user.id) h)
    ⟨hw, rfl, w.db.users.nodup, hfree⟩
  have hread₁ : (read fun db => .ok db.storages.rows : StartWork C _) w₁ =
      (.ok w₁.db.storages.rows, w₁) := read_run rfl hw₁.run
  obtain ⟨w', hreview, -⟩ := each_run (I := fun _ => Free (C := C))
    (fun storage _ _ h => reviewStorage_run w.db.users.rows storage h) hw₁.run
  unfold StorageService.initStorages
  rw [bind_run_ok hread, bind_run_ok hensure, bind_run_ok hread₁]
  exact ⟨w', hreview⟩

variable {plan : StartPlan}

/-- What the storages find when the other repairs have gone through. -/
structure Prepared (before after : StartDatabase) : Prop where
  storages : after.storages = before.storages
  accounts : after.users.rows.map User.id = accountIds before.toDatabase
  size : StorageService.sizeSetting after.toDatabase =
    Retention.atoi (sizeText before.toDatabase)

omit [EmptyCollection C] in
theorem prepared_of_ok {w₁ w₂ w₃ : World StartDatabase (Disk C)} (hs : Sane w.db)
    (horder : plan.Orders) (hserved : w.served ≠ some 0) (hserved₁ : w₁.served ≠ some 0)
    (hdelete : PropertyService.deleteDeprecatedProperty true w = (.ok (), w₁))
    (hinit : PropertyService.initProperties true plan.order w₁ = (.ok (), w₂))
    (husers : Startup.initUser plan.encoded plan.uuid w₂ = (.ok (), w₃)) :
    Prepared w.db w₃.db := by
  obtain ⟨hkeep₁, hkeep₂⟩ := keeps_properties_stages (C := C) { plan with
    deprecatedReadable := true, defaultsReadable := true }
    (I := fun db => db.users = w.db.users ∧ db.storages = w.db.storages) fun _ _ hdb => hdb
  have hdb₁ := hkeep₁ w ⟨rfl, rfl⟩
  rw [hdelete] at hdb₁
  have hdb₂ := hkeep₂ w₁ hdb₁
  rw [hinit] at hdb₂
  have hstorages := keeps_initUser_storages plan w.db.storages w₂ hdb₂.2
  rw [husers] at hstorages
  have hproperties := keeps_initUser_properties plan w₂.db.properties w₂ rfl
  rw [husers] at hproperties
  have hids := (accounts_of_initUser husers).ids
  unfold accountIds at hids
  rw [hdb₂.1] at hids
  have hrepaired :=
    PropertyService.repaired_of_ok hdelete hinit hserved hserved₁ hs.filled horder
  refine ⟨hstorages, hids, ?_⟩
  have hdefault : ("user-default-storage-size", "5120") ∈ PropertyService.defaultProperties := by
    decide
  unfold StorageService.sizeSetting
  rw [stored_of_properties hproperties, hrepaired.defaults _ hdefault]
  rfl

omit [EmptyCollection C] in
theorem stages_run {pass : String} (hs : Sane w.db) (horder : plan.Orders)
    (hdraws : plan.DrawsRoles w.db.toDatabase) (hencoded : plan.encoded = .ok pass) (hw : Free w) :
    ∃ w₁ w₂ w₃, PropertyService.deleteDeprecatedProperty true w = (.ok (), w₁) ∧
      PropertyService.initProperties true plan.order w₁ = (.ok (), w₂) ∧
      Startup.initUser plan.encoded plan.uuid w₂ = (.ok (), w₃) ∧ Free w₁ ∧ Free w₃ := by
  obtain ⟨w₁, hdelete, hw₁⟩ := deleteDeprecatedProperty_run hw
  have hfilled₁ : PropertyService.Filled w₁.db.toDatabase := by
    have hkeep := PropertyService.keeps_deleteDeprecatedProperty (C := C)
      (I := fun db => PropertyService.Filled db.toDatabase) true
      (fun name _ db d hdb hdelete => hdb.delete hdelete) w hs.filled
    rwa [hdelete] at hkeep
  obtain ⟨w₂, hinit, hw₂⟩ := initProperties_run hfilled₁ horder hw₁
  obtain ⟨hkeep₁, hkeep₂⟩ := keeps_properties_stages (C := C) { plan with
    deprecatedReadable := true, defaultsReadable := true }
    (I := fun db => db.users = w.db.users ∧ db.userRoleRefs = w.db.userRoleRefs)
    fun _ _ hdb => hdb
  have hdb₁ := hkeep₁ w ⟨rfl, rfl⟩
  rw [hdelete] at hdb₁
  have hdb₂ := hkeep₂ w₁ hdb₁
  rw [hinit] at hdb₂
  obtain ⟨hfresh, hdistinct⟩ := hdraws
  have hids := hs.ids
  rw [← hdb₂.1] at hfresh hdistinct hids
  rw [← hdb₂.2] at hfresh
  obtain ⟨w₃, husers, hw₃⟩ := initUser_run hencoded hids ⟨hfresh, hdistinct⟩ hw₂
  exact ⟨w₁, w₂, w₃, hdelete, hinit, husers, hw₁, hw₃⟩

end Free

/-! ## What a start does to the drive -/

section Drive

variable {α : Type} {R J : StartDatabase → Drive C → Prop} {m : Disk C}

/-- A property of the tables and the directories. -/
def At (R : StartDatabase → Drive C → Prop) (w : World StartDatabase (Disk C)) : Prop :=
  R w.db w.memory.dirs

theorem ends_read {f : StartDatabase → Except Error α} {T : α → Prop}
    (hT : ∀ db dirs a, R db dirs → f db = .ok a → T a) (hJ : ∀ db dirs, R db dirs → J db dirs) :
    Ends (At R) (fun a w => At R w ∧ T a) (At J) (read f : StartWork C α) := by
  intro w hw
  refine ⟨fun a w' hrun => ?_, fun e w' hrun => ?_⟩
  · obtain ⟨hf, hdb, hdirs⟩ := read_eq_ok hrun
    refine ⟨?_, hT w.db w.memory.dirs a hw hf⟩
    unfold At
    rw [hdb, hdirs]
    exact hw
  · obtain ⟨hdb, hmemory⟩ := statement_error hrun
    unfold At
    rw [hdb, hmemory]
    exact hJ _ _ hw

theorem ends_query {f : StartDatabase → Except Error α} {T : Except Error α → Prop}
    (hfault : T (.error databaseFault)) (hT : ∀ db dirs, R db dirs → T (f db)) :
    Ends (At R) (fun answer w => At R w ∧ T answer) (At J)
      (query f : StartWork C (Except Error α)) := by
  intro w hw
  rw [query_run]
  refine ⟨fun answer w' hrun => ?_, fun e w' hrun => ?_⟩
  · cases hrun
    refine ⟨hw, ?_⟩
    split
    · exact hfault
    · exact hT _ _ hw
  · cases hrun

theorem ends_ofExcept (x : Except Error α) (hJ : ∀ db dirs, R db dirs → J db dirs) :
    Ends (At R) (fun _ => At R) (At J) (ofExcept x : StartWork C α) := by
  intro w hw
  refine ⟨fun a w' hrun => ?_, fun e w' hrun => ?_⟩
  · cases hrun
    exact hw
  · cases hrun
    exact hJ _ _ hw

theorem ends_onDrive {g : Drive C → Drive C} {S : StartDatabase → Drive C → Prop}
    (hg : ∀ db dirs, R db dirs → S db (g dirs)) (hJ : ∀ db dirs, R db dirs → J db dirs) :
    Ends (At R) (fun _ => At S) (At J) (onDrive g) := by
  intro w hw
  refine ⟨fun u w' hrun => ?_, fun e w' hrun => ?_⟩
  · obtain ⟨hdb, hdirs⟩ := onDrive_eq_ok hrun
    unfold At
    rw [hdb, hdirs]
    exact hg _ _ hw
  · unfold onDrive at hrun
    split at hrun
    · cases hrun
      exact hJ _ _ hw
    · cases hrun

theorem ends_writeStorages
    {f : Table Storage Storage.id → Except Error (Table Storage Storage.id)}
    (hf : ∀ db dirs storages, R db dirs → f db.storages = .ok storages → R { db with storages } dirs)
    (hJ : ∀ db dirs, R db dirs → J db dirs) :
    Ends (At R) (fun _ => At R) (At J) (writeStorages f : StartWork C Unit) := by
  intro w hw
  refine ⟨fun u w' hrun => ?_, fun e w' hrun => ?_⟩
  · obtain ⟨hrows, hdb, hdirs⟩ := writeStorages_eq_ok hrun
    have hafter := hf w.db w.memory.dirs w'.db.storages hw hrows
    rw [← hdb, ← hdirs] at hafter
    exact hafter
  · obtain ⟨hdb, hmemory⟩ := statement_error hrun
    unfold At
    rw [hdb, hmemory]
    exact hJ _ _ hw

theorem ends_orElse {x cleanup : StartWork C Unit} {K : StartDatabase → Drive C → Prop}
    (hx : Ends (At R) (fun _ => At R) (At K) x) (hcleanup : Ends (At K) (fun _ => At J) (At J) cleanup) :
    Ends (At R) (fun _ => At R) (At J) (x.orElse cleanup) := by
  intro w hw
  refine ⟨fun u w' hrun => (hx w hw).1 u w' (orElse_eq_ok hrun), fun e w' hrun => ?_⟩
  unfold orElse at hrun
  rcases hfirst : x w with ⟨r, w₁⟩
  rw [hfirst] at hrun
  cases r with
  | ok u => cases hrun
  | error e' =>
    cases hrun
    have hw₁ := hcleanup w₁ ((hx w hw).2 e w₁ hfirst)
    rcases hclean : cleanup w₁ with ⟨r, w₂⟩
    cases r with
    | ok u => exact hw₁.1 u w₂ hclean
    | error e' => exact hw₁.2 e' w₂ hclean

/-! ### Repairs that do not touch the drive -/

theorem leaves_memory_statement {α : Type} (f : StartDatabase → Except Error (α × StartDatabase)) :
    Leaves (fun w => w.memory = m) (fun _ => True)
      (statement databaseFault f : StartWork C α) := by
  intro w hw
  refine ⟨?_, fun _ _ => trivial⟩
  rcases hrun : (statement databaseFault f : StartWork C α) w with ⟨r, w'⟩
  cases r with
  | ok a => exact (statement_ok hrun).2.trans hw
  | error e => exact (statement_error hrun).2.trans hw

theorem leaves_memory_query {α : Type} (f : StartDatabase → Except Error α) :
    Leaves (fun w => w.memory = m) (fun _ => True)
      (query f : StartWork C (Except Error α)) := by
  intro w hw
  rw [query_run]
  exact ⟨hw, fun _ _ => trivial⟩

theorem leaves_memory_propertyMap (readable : Bool) :
    Leaves (fun w => w.memory = m) (fun _ => True)
      (PropertyService.propertyMap readable : StartWork C _) := by
  refine Leaves.bind (leaves_memory_query _) fun answer _ => ?_
  cases answer with
  | ok properties => exact Leaves.pure trivial
  | error e => exact Leaves.pure trivial

/-- The repairs of properties and accounts do not touch the drive. -/
theorem leaves_memory_deleteDeprecatedProperty (readable : Bool) :
    Leaves (fun w => w.memory = m) (fun _ => True)
      (PropertyService.deleteDeprecatedProperty readable : StartWork C Unit) := by
  refine Leaves.bind (leaves_memory_propertyMap readable) fun properties _ =>
    Leaves.each fun name _ => ?_
  unfold PropertyService.deleteDeprecated
  split
  · exact Leaves.pure trivial
  · exact leaves_memory_statement _

theorem leaves_memory_initProperties (readable : Bool) (order : List (String × String)) :
    Leaves (fun w => w.memory = m) (fun _ => True)
      (PropertyService.initProperties readable order : StartWork C Unit) := by
  refine Leaves.bind (leaves_memory_propertyMap readable) fun properties _ =>
    Leaves.each fun item _ => ?_
  unfold PropertyService.createIfAbsent
  split
  · exact leaves_memory_statement _
  · exact Leaves.pure trivial

theorem leaves_memory_repairUser (uuid : String → String) (user : User) :
    Leaves (fun w => w.memory = m) (fun _ => True)
      (Startup.repairUser uuid user : StartWork C Unit) := by
  refine Leaves.bind (P := fun _ => True) ?_ fun _ _ => ?_
  · unfold Startup.repairType
    split
    · exact leaves_memory_statement _
    · exact Leaves.pure trivial
  · unfold Startup.repairRole
    split
    · refine Leaves.bind (leaves_memory_statement _) fun roles _ => ?_
      split
      · exact leaves_memory_statement _
      · exact Leaves.pure trivial
    · exact Leaves.pure trivial

theorem leaves_memory_initUser (encoded : Except Error String) (uuid : String → String) :
    Leaves (fun w => w.memory = m) (fun _ => True)
      (Startup.initUser encoded uuid : StartWork C Unit) := by
  refine Leaves.bind (leaves_memory_statement _) fun users _ => ?_
  split
  · have hencoded : Leaves (fun w => w.memory = m) (fun _ => True)
        (ofExcept encoded : StartWork C String) := fun w hw => ⟨hw, fun _ _ => trivial⟩
    exact Leaves.bind hencoded fun pass _ => leaves_memory_statement _
  · exact Leaves.each fun user _ => leaves_memory_repairUser uuid user

/-! ### Directories -/

variable [EmptyCollection C] {s : Premises C} {dirs : Drive C}

theorem sparesDir_withDir (h : ∀ id, SparesDir s dirs id) (id other : String) :
    SparesDir s (StorageService.withDir dirs id) other := by
  by_cases hid : other = id
  · obtain rfl := hid
    have hself := StorageService.withDir_self dirs other
    cases hdir : dirs other with
    | some c =>
      have hsame : StorageService.withDir dirs other other = dirs other := by
        rw [hself, hdir]
        rfl
      have hspares := h other
      unfold SparesDir at hspares ⊢
      rwa [hsame]
    | none =>
      rw [hdir] at hself
      rcases h other with heq | ⟨-, hempty⟩ | ⟨-, hleft⟩
      · exact .inr (.inl ⟨heq.symm.trans hdir, hself⟩)
      · rw [hdir] at hempty
        cases hempty
      · exact .inr (.inr ⟨.inr hself, hleft⟩)
  · have hsame := StorageService.withDir_of_ne dirs hid
    have hspares := h other
    unfold SparesDir at hspares ⊢
    rwa [hsame]

/-- The tables and the directories between the rounds of the first loop. -/
structure Spares (s : Premises C) (db : StartDatabase) (dirs : Drive C) : Prop where
  grown : ∀ storage ∈ s.db.storages, storage ∈ db.storages
  known : ∀ storage ∈ db.storages,
    storage ∈ s.db.storages ∨ storage.id ∈ accountIds s.db.toDatabase
  dirs : ∀ id, SparesDir s dirs id

def Stopped (s : Premises C) (_ : StartDatabase) (dirs : Drive C) : Prop :=
  ∀ id, SparesDir s dirs id ∨ MayLose s dirs id

theorem Spares.stopped (db : StartDatabase) (dirs : Drive C) (h : Spares s db dirs) :
    Stopped s db dirs := fun id => .inl (h.dirs id)

theorem ends_createStorageByUser {user : User} (hid : user.id ∈ accountIds s.db.toDatabase)
    (hnone : ¬ StorageService.HasDefault s.db user.id) :
    Ends (At (Spares s)) (fun _ => At (Spares s)) (At (Stopped s))
      (StorageService.createStorageByUser user : StartWork C Unit) := by
  unfold StorageService.createStorageByUser
  refine Ends.bind (ends_read (T := fun _ => True) (fun _ _ _ _ _ => trivial) Spares.stopped)
    fun property => ?_
  refine Ends.bind (P := fun _ => At (Spares s)) ?_ fun megabytes => ?_
  · exact fun w hw => ends_ofExcept _ Spares.stopped w hw.1
  refine Ends.bind (ends_onDrive (S := Spares s) (fun db dirs h => ?_) Spares.stopped) fun _ => ?_
  · exact ⟨h.grown, h.known, sparesDir_withDir h.dirs user.id⟩
  refine ends_orElse (K := Spares s) (ends_writeStorages (fun db dirs rows h hcreate => ?_)
    fun _ _ h => h) (ends_onDrive (fun db dirs h id => ?_) Spares.stopped)
  · unfold StorageRepository.create at hcreate
    split at hcreate
    · next rows' hinsert =>
      obtain rfl := Except.ok.inj hcreate
      refine ⟨fun storage hstorage => ?_, fun storage hstorage => ?_, h.dirs⟩
      · exact (Table.mem_of_insert hinsert).mpr (.inr (h.grown storage hstorage))
      · rcases (Table.mem_of_insert hinsert).mp hstorage with rfl | hstorage
        · exact .inr hid
        · exact h.known storage hstorage
    · cases hcreate
  · by_cases heq : id = user.id
    · obtain rfl := heq
      exact .inr ⟨hid, hnone, Function.update_self _ _ _⟩
    · have hsame : Function.update dirs user.id none id = dirs id := Function.update_of_ne heq _ _
      have hspares := h.dirs id
      unfold SparesDir at hspares
      rw [← hsame] at hspares
      exact .inl hspares

theorem ends_ensureStorage {user : User} (readable : String → Bool)
    (hid : user.id ∈ accountIds s.db.toDatabase) :
    Ends (At (Spares s)) (fun _ => At (Spares s)) (At (Stopped s))
      (StorageService.ensureStorage readable user : StartWork C Unit) := by
  unfold StorageService.ensureStorage
  refine Ends.bind (ends_query (T := fun found => found = .error .recordNotFound →
    ¬ StorageService.HasDefault s.db user.id) (fun h => (by cases h)) ?_) fun found => ?_
  · intro db dirs h hfound hhas
    obtain ⟨storage, hstorage, howner, hdefault⟩ := hhas
    rcases StorageService.findDefaultOf_cases db user.id with ⟨-, hnone⟩ | ⟨⟨_, hsome⟩, -⟩
    · exact hnone ⟨storage, h.grown storage hstorage, howner, hdefault⟩
    · rw [hsome] at hfound
      cases hfound
  · split
    · split
      · exact fun w hw => ends_createStorageByUser hid (hw.2 rfl) w hw.1
      · exact Ends.pure fun w hw => hw.1
    · exact Ends.pure fun w hw => hw.1

/-- The directories between the rounds of the second loop. -/
def SparesAll (s : Premises C) (_ : StartDatabase) (dirs : Drive C) : Prop :=
  ∀ id, SparesDir s dirs id

theorem ends_deleteStorageById {id : String} (hid : id ∉ accountIds s.db.toDatabase)
    (hleft : ∃ storage ∈ s.db.storages, storage.id = id ∧ storage.isDefault = true) :
    Ends (At (SparesAll s)) (fun _ => At (SparesAll s)) (At (SparesAll s))
      (StorageService.deleteStorageById id true : StartWork C Unit) := by
  unfold StorageService.deleteStorageById
  refine Ends.bind (ends_query (T := fun _ => True) trivial fun _ _ _ => trivial) fun found => ?_
  split
  · exact Ends.pure fun w hw => hw.1
  · next e _ =>
    refine fun w hw => ⟨fun a w' hrun => ?_, fun e w' hrun => ?_⟩
    · cases hrun
    · cases hrun
      exact hw.1
  · split
    · next h => simp at h
    · refine fun w hw => Ends.bind (I := At (SparesAll s)) (P := fun _ => At (SparesAll s))
        (ends_onDrive (fun db dirs h other => ?_) fun _ _ h => h) (fun _ =>
          ends_writeStorages (fun _ _ _ h _ => h) fun _ _ h => h) w hw.1
      by_cases heq : other = id
      · obtain rfl := heq
        exact .inr (.inr ⟨.inl (Function.update_self _ _ _), hid, hleft⟩)
      · have hsame : Function.update dirs id none other = dirs other := Function.update_of_ne heq _ _
        have hspares := h other
        unfold SparesDir at hspares ⊢
        rwa [hsame]

theorem ends_reviewStorage {users : List User} {storage : Storage}
    (husers : users.map User.id = accountIds s.db.toDatabase)
    (hknown : storage ∈ s.db.storages ∨ storage.id ∈ accountIds s.db.toDatabase) :
    Ends (At (SparesAll s)) (fun _ => At (SparesAll s)) (At (SparesAll s))
      (StorageService.reviewStorage users storage : StartWork C Unit) := by
  unfold StorageService.reviewStorage
  refine Ends.bind (P := fun _ => At (SparesAll s)) ?_ fun _ => ?_
  · unfold StorageService.removeLeftOver
    split
    · next hleft =>
      -- nobody's default storage was there before the start
      have hnone : storage.id ∉ accountIds s.db.toDatabase := by
        intro hmem
        rw [← husers] at hmem
        obtain ⟨user, huser, hid⟩ := List.mem_map.mp hmem
        rw [not_isLeftOver.mpr fun _ => ⟨user, huser, hid⟩] at hleft
        cases hleft
      have hdefault : storage.isDefault = true := by
        unfold StorageService.isLeftOver at hleft
        rw [Bool.and_eq_true] at hleft
        exact hleft.1
      exact ends_deleteStorageById hnone ⟨storage, hknown.resolve_right hnone, rfl, hdefault⟩
    · exact Ends.pure fun w hw => hw
  · intro w hw
    unfold StorageService.ensureDir
    split
    · exact Ends.pure (fun w hw => hw) w hw
    · exact ends_onDrive (fun _ _ h => sparesDir_withDir h storage.id) (fun _ _ h => h) w hw

theorem ends_initStorages {readable : String → Bool} {users : Table User User.id}
    (husers : users.rows.map User.id = accountIds s.db.toDatabase) :
    Ends (At fun db dirs => db.users = users ∧ db.storages = s.db.storages ∧ dirs = s.drive)
      (fun _ => At (SparesAll s)) (At (Stopped s))
      (StorageService.initStorages readable : StartWork C Unit) := by
  unfold StorageService.initStorages
  refine Ends.bind (ends_read (T := fun rows => rows = users.rows) ?_ ?_) fun rows => ?_
  · rintro db dirs rows ⟨hdb, -⟩ hrows
    rw [← Except.ok.inj hrows, hdb]
  · rintro db dirs ⟨-, -, rfl⟩ id
    exact .inl (.inl rfl)
  refine fun w hw => Ends.bind (I := At (Spares s)) (P := fun _ => At (Spares s)) ?_ (fun _ => ?_) w
    ⟨fun storage hstorage => ?_, fun storage hstorage => ?_, fun id => ?_⟩
  · refine Ends.each fun user huser => ends_ensureStorage readable ?_
    rw [hw.2] at huser
    rw [← husers]
    exact List.mem_map_of_mem huser
  · refine Ends.bind (ends_read (T := fun storages => ∀ storage ∈ storages,
      storage ∈ s.db.storages ∨ storage.id ∈ accountIds s.db.toDatabase) ?_ Spares.stopped)
      fun storages => ?_
    · intro db dirs storages h hstorages
      obtain rfl := Except.ok.inj hstorages
      exact h.known
    · intro w' hw'
      have hreview := Ends.each (I := At (SparesAll s)) (J := At (SparesAll s))
        (fun storage hstorage => ends_reviewStorage (hw.2 ▸ husers) (hw'.2 storage hstorage)) w'
        hw'.1.dirs
      exact ⟨hreview.1, fun e w₁ hrun id => .inl (hreview.2 e w₁ hrun id)⟩
  · rw [hw.1.2.1]
    exact hstorage
  · rw [hw.1.2.1] at hstorage
    exact .inl hstorage
  · exact .inl (by rw [hw.1.2.2])

end Drive

/-! ## What starts bring about -/

namespace Premises

variable [EmptyCollection C] {s t : Premises C} {plan plan₁ plan₂ : StartPlan}
  {served served₁ served₂ driveServed driveServed₁ driveServed₂ : Option Nat}

theorem initDBData_of_goesThrough (h : s.GoesThrough ⟨.start plan, served, driveServed⟩) :
    ∃ w' : World StartDatabase (Disk C),
      initDBData plan (s.world ⟨.start plan, served, driveServed⟩) = (.ok (), w') ∧
      s.after ⟨.start plan, served, driveServed⟩ = ⟨w'.db, w'.memory.dirs⟩ :=
  ⟨_, Prod.ext h rfl, rfl⟩

theorem reviewed_after (h : s.GoesThrough ⟨.start plan, served, driveServed⟩) :
    Reviewed (s.after ⟨.start plan, served, driveServed⟩) := by
  obtain ⟨w', hrun, hafter⟩ := initDBData_of_goesThrough h
  rw [hafter]
  exact reviewed_of_start hrun

theorem accounts_after (h : s.GoesThrough ⟨.start plan, served, driveServed⟩) :
    Accounts s.db (s.after ⟨.start plan, served, driveServed⟩).db := by
  obtain ⟨w', hrun, hafter⟩ := initDBData_of_goesThrough h
  rw [hafter]
  exact accounts_of_start hrun

/-- Two starts that go through settle the installation. -/
theorem settled_after (hs : Sane s.db) (horder₁ : plan₁.Orders)
    (horder₂ : plan₂.Orders) (hreads : plan₂.Reads)
    (hfirst : s.GoesThrough ⟨.start plan₁, served₁, driveServed₁⟩)
    (hsecond : (s.after ⟨.start plan₁, served₁, driveServed₁⟩).GoesThrough
      ⟨.start plan₂, served₂, driveServed₂⟩) :
    Settled ((s.after ⟨.start plan₁, served₁, driveServed₁⟩).after
      ⟨.start plan₂, served₂, driveServed₂⟩) := by
  generalize ht : s.after ⟨.start plan₁, served₁, driveServed₁⟩ = t at hsecond ⊢
  have hsane : Sane t.db := ht ▸ sane_after hs horder₁
  have hreviewed : Reviewed t := ht ▸ reviewed_after hfirst
  have hpopulated : t.db.users.rows ≠ [] := ht ▸ (accounts_after hfirst).populated
  have hreviewed' := reviewed_after hsecond
  have haccounts := accounts_after hsecond
  obtain ⟨w', hrun, hafter⟩ := initDBData_of_goesThrough hsecond
  have hrepaired : PropertyService.Repaired t.db.toDatabase w'.db.toDatabase :=
    repaired_of_start hsane.filled horder₂ hreads hrun
  -- after the first start every default storage is the one of a user, and so bears its name
  have hown : ∀ storage ∈ t.db.storages, storage.isDefault = true → storage.id = storage.owner := by
    intro storage hstorage hdefault
    have huser := hreviewed.only storage hstorage hdefault
    exact (hsane.owned storage hstorage (.inr huser)).2.symm
  rw [hafter] at hreviewed' haccounts ⊢
  refine ⟨hrepaired.deprecated, fun item hitem => ?_, haccounts.populated, haccounts.typed,
    haccounts.roles hpopulated, own_of_start hreads hown hrun, hreviewed'.only, hreviewed'.dirs⟩
  show (stored w'.db.toDatabase item.1).isSome = true
  rw [hrepaired.defaults item hitem]
  rfl

theorem goesThrough_iff (hsane : Sane s.db) (horder : plan.Orders) (hreads : plan.Reads)
    (hdraws : plan.DrawsRoles s.db.toDatabase) {pass : String}
    (hencoded : plan.encoded = .ok pass) :
    s.GoesThrough ⟨.start plan, none, none⟩ ↔ Startable s.db := by
  let w := s.world ⟨.start plan, none, none⟩
  obtain ⟨w₁, w₂, w₃, hdelete, hinit, husers, hw₁, hw₃⟩ :=
    stages_run (w := w) hsane horder hdraws hencoded ⟨rfl, rfl⟩
  have hserved : w.served ≠ some 0 := by
    intro h
    cases h
  have hserved₁ : w₁.served ≠ some 0 := by
    rw [hw₁.1]
    exact nofun
  have hprepared : Prepared s.db w₃.db :=
    prepared_of_ok hsane horder hserved hserved₁ hdelete hinit husers
  have hrun : initDBData plan w = StorageService.initStorages plan.readable w₃ := by
    unfold initDBData
    rw [hreads.deprecated, hreads.defaults, bind_run_ok hdelete, bind_run_ok hinit,
      bind_run_ok husers]
  have hgoes : s.GoesThrough ⟨.start plan, none, none⟩ ↔
      (StorageService.initStorages plan.readable w₃).1 = .ok () := by
    rw [← hrun]
    exact Iff.rfl
  have hdefault : ∀ userId, StorageService.HasDefault w₃.db userId ↔
      StorageService.HasDefault s.db userId := fun userId => by
    unfold StorageService.HasDefault
    rw [hprepared.storages]
  have hmem : ∀ user ∈ w₃.db.users, user.id ∈ accountIds s.db.toDatabase := fun user huser => by
    rw [← hprepared.accounts]
    exact List.mem_map_of_mem huser
  rw [hgoes]
  unfold Startable
  rw [← hprepared.size]
  constructor
  · intro hok
    by_cases hsize : (StorageService.sizeSetting w₃.db.toDatabase).isSome = true
    · exact .inl hsize
    · refine .inr fun userId huserId => ?_
      rw [← hprepared.accounts] at huserId
      obtain ⟨user, huser, rfl⟩ := List.mem_map.mp huserId
      obtain ⟨w₄, hprovides, -⟩ := StorageService.initStorages_ok (Prod.ext hok rfl)
      by_contra hnone
      have hmade := hprovides.made user huser ((hdefault user.id).not.mpr hnone)
        (hreads.storages user.id)
      exact hsize hmade.1
  · intro hstartable
    have hfree : ∀ user ∈ w₃.db.users, ¬ StorageService.HasDefault w₃.db user.id →
        (StorageService.sizeSetting w₃.db.toDatabase).isSome = true ∧
          ∀ storage ∈ w₃.db.storages, storage.id ≠ user.id := by
      intro user huser hnone
      rw [hdefault] at hnone
      refine ⟨hstartable.resolve_right fun hall => hnone (hall user.id (hmem user huser)),
        fun storage hstorage hid => ?_⟩
      rw [hprepared.storages] at hstorage
      have hhas := hsane.hasDefault hstorage (hid ▸ hmem user huser)
      exact hnone (hid ▸ hhas)
    obtain ⟨w', hstorages⟩ := initStorages_run hreads.storages hw₃ hfree
    rw [hstorages]

/-! ### A first installation -/

/-- A start with the encoded password `secret`; the ids of roles are drawn as `1`. -/
def plainStart : StartPlan where
  encoded := .ok "secret"
  uuid := fun _ => "1"

theorem plainStart_orders : plainStart.Orders := List.Perm.refl _

theorem plainStart_reads : plainStart.Reads := ⟨rfl, rfl, fun _ => rfl⟩

/-- The first start of an installation goes through. -/
theorem first_goesThrough :
    ({} : Premises (List String)).GoesThrough ⟨.start plainStart, none, none⟩ := by
  refine (goesThrough_iff Sane.empty plainStart_orders plainStart_reads ⟨?_, ?_⟩ rfl).mpr (.inl ?_)
  · exact fun user huser => absurd huser List.not_mem_nil
  · exact fun user huser => absurd huser List.not_mem_nil
  · decide

/-- So does the second one. -/
theorem second_goesThrough :
    (({} : Premises (List String)).after ⟨.start plainStart, none, none⟩).GoesThrough
      ⟨.start plainStart, none, none⟩ := by
  generalize ht : ({} : Premises (List String)).after ⟨.start plainStart, none, none⟩ = t
  have hsane : Sane t.db := ht ▸ sane_after Sane.empty plainStart_orders
  have haccounts := accounts_after first_goesThrough
  obtain ⟨w', hrun, hafter⟩ := initDBData_of_goesThrough first_goesThrough
  have hrepaired := repaired_of_start Sane.empty.filled plainStart_orders plainStart_reads hrun
  rw [ht] at haccounts hafter
  obtain rfl := hafter
  refine (goesThrough_iff hsane plainStart_orders plainStart_reads ⟨?_, ?_⟩ rfl).mpr (.inl ?_)
  · intro user _ r hr
    rw [haccounts.first rfl] at hr
    exact absurd hr List.not_mem_nil
  · intro u hu v hv _
    have hmem : ∀ user ∈ w'.db.users, user.id = superAdminId := fun user huser => by
      have hid : user.id ∈ w'.db.users.rows.map User.id := List.mem_map_of_mem huser
      rw [haccounts.ids] at hid
      exact List.mem_singleton.mp hid
    rw [hmem u hu, hmem v hv]
  · have hdefault : ("user-default-storage-size", "5120") ∈ PropertyService.defaultProperties := by
      decide
    have hsize := hrepaired.defaults _ hdefault
    unfold sizeText
    rw [hsize]
    decide

theorem settled_first :
    Settled ((({} : Premises (List String)).after ⟨.start plainStart, none, none⟩).after
      ⟨.start plainStart, none, none⟩) :=
  settled_after Sane.empty plainStart_orders plainStart_orders plainStart_reads first_goesThrough
    second_goesThrough

/-! ### Results -/

end Premises

end NextDBM
