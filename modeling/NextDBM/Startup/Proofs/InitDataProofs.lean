import NextDBM.Accounts.Proofs.PropertyCacheProofs
import NextDBM.Startup.InitData

/-!
# Proofs about the data of a start

What a statement of a start may do is said once, for reads, writes, queries and operations on the drive.
From it follow the specs of the three repairs, and from these what a start makes of any installation that
can be reached.
-/

namespace NextDBM

open Transaction Relational Work

variable {C : Type} {w w' : World StartDatabase (Disk C)}

namespace StartWork

/-! ## Statements -/

theorem read_eq_ok {α : Type} {f : StartDatabase → Except Error α} {a : α}
    (h : read f w = (.ok a, w')) : f w.db = .ok a ∧ w'.db = w.db ∧ w'.memory.dirs = w.memory.dirs := by
  obtain ⟨hf, hmemory⟩ := statement_ok h
  cases hfw : f w.db with
  | error e =>
    rw [hfw] at hf
    cases hf
  | ok b =>
    rw [hfw] at hf
    obtain ⟨rfl, hdb⟩ := Prod.mk.inj (Except.ok.inj hf)
    exact ⟨rfl, hdb.symm, congrArg Disk.dirs hmemory⟩

theorem write_eq_ok {f : Database → Except Error Database} {u : Unit}
    (h : write f w = (.ok u, w')) : f w.db.toDatabase = .ok w'.db.toDatabase ∧
      w'.db.storages = w.db.storages ∧ w'.memory.dirs = w.memory.dirs := by
  obtain ⟨hf, hmemory⟩ := statement_ok h
  cases hfw : f w.db.toDatabase with
  | error e =>
    rw [hfw] at hf
    cases hf
  | ok d =>
    rw [hfw] at hf
    have hdb := (Prod.mk.inj (Except.ok.inj hf)).2
    refine ⟨?_, ?_, congrArg Disk.dirs hmemory⟩
    · rw [← hdb]
    · rw [← hdb]

theorem writeStorages_eq_ok
    {f : Table Storage Storage.id → Except Error (Table Storage Storage.id)} {u : Unit}
    (h : writeStorages f w = (.ok u, w')) : f w.db.storages = .ok w'.db.storages ∧
      w'.db.toDatabase = w.db.toDatabase ∧ w'.memory.dirs = w.memory.dirs := by
  obtain ⟨hf, hmemory⟩ := statement_ok h
  cases hfw : f w.db.storages with
  | error e =>
    rw [hfw] at hf
    cases hf
  | ok storages =>
    rw [hfw] at hf
    have hdb := (Prod.mk.inj (Except.ok.inj hf)).2
    refine ⟨?_, ?_, congrArg Disk.dirs hmemory⟩
    · rw [← hdb]
    · rw [← hdb]

/-- A query always returns; it is the answer that may be an error. -/
theorem query_run {α : Type} (f : StartDatabase → Except Error α)
    (w : World StartDatabase (Disk C)) :
    query f w = (.ok (if w.served = some 0 then .error databaseFault else f w.db),
      { w with served := spend 1 w.served }) := by
  unfold query
  split
  · next hserved =>
    obtain ⟨db, memory, served⟩ := w
    obtain rfl : served = some 0 := hserved
    rfl
  · next hserved => rw [if_neg hserved]

theorem onDrive_eq_ok {g : Drive C → Drive C} {u : Unit} (h : onDrive g w = (.ok u, w')) :
    w'.db = w.db ∧ w'.memory.dirs = g w.memory.dirs := by
  unfold onDrive at h
  split at h
  · cases h
  · cases h
    exact ⟨rfl, rfl⟩

theorem onDrive_db (g : Drive C → Drive C) (w : World StartDatabase (Disk C)) :
    (onDrive g w).2.db = w.db := by
  unfold onDrive
  split
  · rfl
  · rfl

theorem orElse_eq_ok {x cleanup : StartWork C Unit} {u : Unit}
    (h : x.orElse cleanup w = (.ok u, w')) : x w = (.ok u, w') := by
  unfold orElse at h
  rcases hx : x w with ⟨r, w₁⟩
  rw [hx] at h
  cases r with
  | ok v => exact h
  | error e => cases h

/-! ## What statements keep -/

section Keeps

variable {I : StartDatabase → Prop}

theorem keeps_read {α : Type} (f : StartDatabase → Except Error α) :
    Keeps I (read f : StartWork C α) := by
  refine Keeps.statement fun db a db' hdb hf => ?_
  cases hfw : f db with
  | error e =>
    rw [hfw] at hf
    cases hf
  | ok b =>
    rw [hfw] at hf
    obtain ⟨-, rfl⟩ := Prod.mk.inj (Except.ok.inj hf)
    exact hdb

theorem keeps_write {f : Database → Except Error Database}
    (hf : ∀ db d, I db → f db.toDatabase = .ok d → I { db with toDatabase := d }) :
    Keeps I (write f : StartWork C Unit) := by
  refine Keeps.statement fun db u db' hdb h => ?_
  cases hfw : f db.toDatabase with
  | error e =>
    rw [hfw] at h
    cases h
  | ok d =>
    rw [hfw] at h
    obtain ⟨-, rfl⟩ := Prod.mk.inj (Except.ok.inj h)
    exact hf db d hdb hfw

theorem keeps_writeStorages
    {f : Table Storage Storage.id → Except Error (Table Storage Storage.id)}
    (hf : ∀ db storages, I db → f db.storages = .ok storages → I { db with storages }) :
    Keeps I (writeStorages f : StartWork C Unit) := by
  refine Keeps.statement fun db u db' hdb h => ?_
  cases hfw : f db.storages with
  | error e =>
    rw [hfw] at h
    cases h
  | ok storages =>
    rw [hfw] at h
    obtain ⟨-, rfl⟩ := Prod.mk.inj (Except.ok.inj h)
    exact hf db storages hdb hfw

theorem keeps_query {α : Type} (f : StartDatabase → Except Error α) :
    Keeps I (query f : StartWork C (Except Error α)) := by
  intro w hw
  rw [query_run]
  exact hw

theorem keeps_onDrive (g : Drive C → Drive C) : Keeps I (onDrive g) := by
  intro w hw
  show I (onDrive g w).2.db
  rw [onDrive_db]
  exact hw

theorem keeps_orElse {x cleanup : StartWork C Unit} (hx : Keeps I x) (hc : Keeps I cleanup) :
    Keeps I (x.orElse cleanup) := by
  intro w hw
  have hkept := hx w hw
  unfold orElse
  rcases h : x w with ⟨r, w₁⟩
  rw [h] at hkept
  cases r with
  | ok u => exact hkept
  | error e => exact hc w₁ hkept

theorem keeps_ofExcept {α : Type} (x : Except Error α) :
    Keeps I (ofExcept x : StartWork C α) := fun _ hw => hw

end Keeps

/-! ## Outages -/

/-- Once the database serves no statement any more, it serves none afterwards. -/
def StaysOut {α : Type} (x : StartWork C α) : Prop :=
  ∀ w, w.served = some 0 → (x w).2.served = some 0

namespace StaysOut

variable {α β : Type}

theorem pure (a : α) : StaysOut (Pure.pure a : StartWork C α) := fun _ h => h

theorem fail (e : Error) : StaysOut (Work.fail e : StartWork C α) := fun _ h => h

theorem ofExcept (x : Except Error α) : StaysOut (Work.ofExcept x : StartWork C α) :=
  fun _ h => h

theorem statement (f : StartDatabase → Except Error (α × StartDatabase)) :
    StaysOut (Work.statement databaseFault f : StartWork C α) := by
  intro w hw
  unfold Work.statement
  rw [hw]
  exact hw

theorem query (f : StartDatabase → Except Error α) :
    StaysOut (StartWork.query f : StartWork C (Except Error α)) := by
  intro w hw
  rw [query_run, hw]
  rfl

theorem onDrive (g : Drive C → Drive C) : StaysOut (StartWork.onDrive g) := by
  intro w hw
  unfold StartWork.onDrive
  split
  · exact hw
  · exact hw

theorem bind {x : StartWork C α} {f : α → StartWork C β} (hx : StaysOut x)
    (hf : ∀ a, StaysOut (f a)) : StaysOut (x >>= f) := by
  intro w hw
  have hfirst := hx w hw
  rcases h : x w with ⟨r, w₁⟩
  rw [h] at hfirst
  cases r with
  | ok a =>
    rw [bind_run_ok h]
    exact hf a w₁ hfirst
  | error e =>
    rw [bind_run_error h]
    exact hfirst

theorem orElse {x cleanup : StartWork C Unit} (hx : StaysOut x) (hc : StaysOut cleanup) :
    StaysOut (x.orElse cleanup) := by
  intro w hw
  have hfirst := hx w hw
  unfold StartWork.orElse
  rcases h : x w with ⟨r, w₁⟩
  rw [h] at hfirst
  cases r with
  | ok u => exact hfirst
  | error e => exact hc w₁ hfirst

theorem each {g : α → StartWork C Unit} (hg : ∀ a, StaysOut (g a)) (as : List α) :
    StaysOut (Work.each g as) := by
  induction as with
  | nil => exact pure ()
  | cons a as ih => exact bind (hg a) fun _ => ih

end StaysOut

/-- A read that returns was served. -/
theorem served_of_read {α : Type} {f : StartDatabase → Except Error α} {a : α}
    (h : read f w = (.ok a, w')) : w.served ≠ some 0 :=
  serves_one.mp (statement_eq_ok.mp h).1

end StartWork

open StartWork PropertyStore

/-! ## Properties -/

namespace PropertyService

variable {d d' : Database} {name value : String} {properties : String → String}
  {order : List (String × String)} {names : List String} {item : String × String}

theorem stored_deleteByName (h : PropertyRepository.deleteByName d name = .ok d') (key : String) :
    stored d' key = if key = name then none else stored d key := by
  obtain rfl := Except.ok.inj h
  refine Option.ext fun v => ?_
  rw [stored_eq_some]
  by_cases hkey : key = name
  · rw [if_pos hkey]
    constructor
    · rintro ⟨p, hp, hname, -⟩
      have hne := (Table.mem_deleteWhere.mp hp).2
      rw [beq_eq_false_iff_ne] at hne
      exact absurd (hname.trans hkey) hne
    · intro h
      cases h
  · rw [if_neg hkey, stored_eq_some]
    constructor
    · rintro ⟨p, hp, hname, hvalue⟩
      exact ⟨p, (Table.mem_deleteWhere.mp hp).1, hname, hvalue⟩
    · rintro ⟨p, hp, hname, hvalue⟩
      refine ⟨p, Table.mem_deleteWhere.mpr ⟨hp, ?_⟩, hname, hvalue⟩
      rw [beq_eq_false_iff_ne, hname]
      exact hkey

/-- An insert that goes through finds its name free. -/
theorem stored_insert (h : PropertyRepository.create d { name, value } = .ok d') :
    stored d name = none ∧
      ∀ key, stored d' key = if key = name then some value else stored d key := by
  refine ⟨?_, fun key => stored_create h key⟩
  refine Option.eq_none_iff_forall_not_mem.mpr fun v hv => ?_
  obtain ⟨p, hp, hname, -⟩ := stored_eq_some.mp hv
  have htaken : d.properties.insert { name, value } = none :=
    Table.insert_eq_none.mpr ⟨p, hp, hname⟩
  unfold PropertyRepository.create at h
  rw [htaken] at h
  cases h

/-! ### What is kept when statements fail -/

theorem KeepsSettings.refl (d : Database) : KeepsSettings d d :=
  ⟨fun _ _ _ h => h, fun _ _ h => .inl h⟩

theorem keeps_propertyMap {I : StartDatabase → Prop} (readable : Bool) :
    Keeps I (propertyMap readable : StartWork C _) := by
  refine Keeps.bind (keeps_query _) fun answer => ?_
  cases answer with
  | ok properties => exact Keeps.pure _
  | error e => exact Keeps.pure _

theorem KeepsSettings.insert {before : Database} (h : KeepsSettings before d)
    (hitem : (name, value) ∈ defaultProperties)
    (hcreate : PropertyRepository.create d { name, value } = .ok d') : KeepsSettings before d' := by
  obtain ⟨hfree, hstored⟩ := stored_insert hcreate
  refine ⟨fun key v hkey hv => ?_, fun key v hv => ?_⟩
  · have hkept := h.kept key v hkey hv
    have hne : key ≠ name := by
      rintro rfl
      rw [hfree] at hkept
      cases hkept
    rw [hstored, if_neg hne]
    exact hkept
  · rw [hstored] at hv
    split at hv
    · next heq =>
      obtain rfl := Option.some.inj hv
      obtain rfl := heq
      exact .inr hitem
    · exact h.added key v hv

theorem KeepsSettings.delete {before : Database} (h : KeepsSettings before d)
    (hname : name ∈ deprecatedPropertyNames)
    (hdelete : PropertyRepository.deleteByName d name = .ok d') : KeepsSettings before d' := by
  have hstored := stored_deleteByName hdelete
  refine ⟨fun key v hkey hv => ?_, fun key v hv => ?_⟩
  · have hne : key ≠ name := fun heq => hkey (heq ▸ hname)
    rw [hstored, if_neg hne]
    exact h.kept key v hkey hv
  · rw [hstored] at hv
    split at hv
    · cases hv
    · exact h.added key v hv

section Keeps

variable {I : StartDatabase → Prop}

theorem keeps_initProperties (readable : Bool)
    (hcreate : ∀ item ∈ order, ∀ db d, I db →
      PropertyRepository.create db.toDatabase { name := item.1, value := item.2 } = .ok d →
        I { db with toDatabase := d }) :
    Keeps I (initProperties readable order : StartWork C Unit) := by
  refine (keeps_propertyMap readable).bind fun properties => Keeps.each fun item hitem => ?_
  unfold createIfAbsent
  split
  · exact keeps_write (hcreate item hitem)
  · exact Keeps.pure _

theorem keeps_deleteDeprecatedProperty (readable : Bool)
    (hdelete : ∀ name ∈ deprecatedPropertyNames, ∀ db d, I db →
      PropertyRepository.deleteByName db.toDatabase name = .ok d → I { db with toDatabase := d }) :
    Keeps I (deleteDeprecatedProperty readable : StartWork C Unit) := by
  refine (keeps_propertyMap readable).bind fun properties => Keeps.each fun name hname => ?_
  unfold deleteDeprecated
  split
  · exact Keeps.pure _
  · exact keeps_write (hdelete name hname)

end Keeps

theorem create_eq_ok {p : Property} (h : PropertyRepository.create d p = .ok d') :
    ∃ properties, d' = { d with properties } := by
  unfold PropertyRepository.create at h
  split at h
  · next properties _ => exact ⟨properties, (Except.ok.inj h).symm⟩
  · cases h

/-! ### Repairs that go through -/

theorem propertyMap_ok {readable : Bool} (h : propertyMap readable w = (.ok properties, w'))
    (hserved : w.served ≠ some 0) :
    properties = PropertyRepository.findAllMap w.db.toDatabase readable ∧ w'.db = w.db ∧
      w'.memory.dirs = w.memory.dirs := by
  obtain ⟨answer, w₁, hquery, hrest⟩ := bind_ok.mp h
  rw [query_run, if_neg hserved] at hquery
  cases hquery
  cases hrest
  exact ⟨rfl, rfl, rfl⟩

theorem deleteDeprecated_each (h : each (deleteDeprecated properties) names w = (.ok (), w'))
    (key : String) :
    stored w'.db.toDatabase key =
      if key ∈ names ∧ properties key ≠ "" then none else stored w.db.toDatabase key := by
  induction names generalizing w with
  | nil =>
    cases h
    simp
  | cons name names ih =>
    obtain ⟨u, w₁, hfirst, hrest⟩ := bind_ok.mp h
    rw [ih hrest]
    have hone : stored w₁.db.toDatabase key =
        if key = name ∧ properties key ≠ "" then none else stored w.db.toDatabase key := by
      unfold deleteDeprecated at hfirst
      split at hfirst
      · next hempty =>
        cases hfirst
        rw [if_neg]
        rintro ⟨rfl, hne⟩
        exact hne hempty
      · next hne =>
        rw [stored_deleteByName (write_eq_ok hfirst).1 key]
        by_cases hkey : key = name
        · rw [if_pos hkey, if_pos ⟨hkey, hkey ▸ hne⟩]
        · rw [if_neg hkey, if_neg fun hboth => hkey hboth.1]
    rw [hone]
    simp only [List.mem_cons]
    split_ifs with h₁ h₂ h₃ h₄ h₅
    · rfl
    · exact absurd ⟨.inr h₁.1, h₁.2⟩ h₂
    · rfl
    · exact absurd ⟨.inl h₃.1, h₃.2⟩ h₄
    · rcases h₅.1 with hkey | hkey
      · exact absurd ⟨hkey, h₅.2⟩ h₃
      · exact absurd ⟨hkey, h₅.2⟩ h₁
    · rfl

/-- What the loop over defaults with distinct names stores. -/
theorem createIfAbsent_each (h : each (createIfAbsent properties) order w = (.ok (), w'))
    (hnodup : (order.map Prod.fst).Nodup) :
    (∀ item ∈ order, (properties item.1).length = 0 →
      stored w'.db.toDatabase item.1 = some item.2) ∧
    ∀ key, (key ∈ order.map Prod.fst → (properties key).length ≠ 0) →
      stored w'.db.toDatabase key = stored w.db.toDatabase key := by
  induction order generalizing w with
  | nil =>
    cases h
    exact ⟨fun item hitem => absurd hitem List.not_mem_nil, fun _ _ => rfl⟩
  | cons item order ih =>
    obtain ⟨u, w₁, hfirst, hrest⟩ := bind_ok.mp h
    obtain ⟨hnew, hnodup⟩ := List.nodup_cons.mp hnodup
    obtain ⟨hcreated, hkept⟩ := ih hrest hnodup
    have hone : ∀ key, stored w₁.db.toDatabase key =
        if key = item.1 ∧ (properties key).length = 0 then some item.2
        else stored w.db.toDatabase key := by
      intro key
      unfold createIfAbsent at hfirst
      split at hfirst
      · next hempty =>
        rw [(stored_insert (write_eq_ok hfirst).1).2 key]
        by_cases hkey : key = item.1
        · rw [if_pos hkey, if_pos ⟨hkey, hkey ▸ hempty⟩]
        · rw [if_neg hkey, if_neg fun hboth => hkey hboth.1]
      · next hne =>
        cases hfirst
        rw [if_neg]
        rintro ⟨rfl, hempty⟩
        exact hne hempty
    refine ⟨fun other hother hempty => ?_, fun key hkey => ?_⟩
    · rcases List.mem_cons.mp hother with rfl | hother
      · rw [hkept other.1 fun hmem => absurd hmem hnew, hone, if_pos ⟨rfl, hempty⟩]
      · exact hcreated other hother hempty
    · rw [hkept key fun hmem => hkey (List.mem_cons_of_mem _ hmem), hone, if_neg]
      rintro ⟨rfl, hempty⟩
      exact hkey List.mem_cons_self hempty

/-- No stored value is empty. -/
def Filled (d : Database) : Prop := ∀ name value, stored d name = some value → value ≠ ""

theorem findAllMap_eq_empty (hfilled : Filled d) :
    PropertyRepository.findAllMap d true name = "" ↔ stored d name = none := by
  unfold PropertyRepository.findAllMap
  rw [if_pos rfl]
  cases h : stored d name with
  | none => exact ⟨fun _ => rfl, fun _ => rfl⟩
  | some value => exact ⟨fun hempty => absurd hempty (hfilled name value h), fun hnone => by cases hnone⟩

theorem length_eq_zero (s : String) : s.length = 0 ↔ s = "" := by
  rw [← String.length_toList, List.length_eq_zero_iff, String.toList_eq_nil_iff]

theorem nodup_defaultProperties : (defaultProperties.map Prod.fst).Nodup := by decide

theorem not_deprecated_default : ∀ item ∈ defaultProperties, item.1 ∉ deprecatedPropertyNames := by
  decide

theorem default_ne_empty : ∀ item ∈ defaultProperties, item.2 ≠ "" := by decide

/-- The deletion of the properties of old versions. -/
theorem deleteDeprecatedProperty_ok
    (h : deleteDeprecatedProperty true w = (.ok (), w')) (hserved : w.served ≠ some 0)
    (hfilled : Filled w.db.toDatabase) (key : String) :
    stored w'.db.toDatabase key =
      if key ∈ deprecatedPropertyNames then none else stored w.db.toDatabase key := by
  obtain ⟨properties, w₁, hmap, hloop⟩ := bind_ok.mp h
  obtain ⟨rfl, hdb, -⟩ := propertyMap_ok hmap hserved
  have hempty : PropertyRepository.findAllMap w.db.toDatabase true key = "" ↔
      stored w.db.toDatabase key = none := findAllMap_eq_empty hfilled
  rw [deleteDeprecated_each hloop, hdb]
  by_cases hkey : key ∈ deprecatedPropertyNames
  · rw [if_pos hkey]
    by_cases hnone : stored w.db.toDatabase key = none
    · rw [if_neg fun hboth => hboth.2 (hempty.mpr hnone), hnone]
    · rw [if_pos ⟨hkey, fun hnot => hnone (hempty.mp hnot)⟩]
  · rw [if_neg hkey, if_neg fun hboth => hkey hboth.1]

/-- The properties after both repairs. -/
theorem repaired_of_ok {w₁ w₂ : World StartDatabase (Disk C)}
    (hdelete : deleteDeprecatedProperty true w = (.ok (), w₁))
    (hinit : initProperties true order w₁ = (.ok (), w₂)) (hserved : w.served ≠ some 0)
    (hserved₁ : w₁.served ≠ some 0) (hfilled : Filled w.db.toDatabase)
    (horder : order.Perm defaultProperties) :
    Repaired w.db.toDatabase w₂.db.toDatabase := by
  have hdeleted := deleteDeprecatedProperty_ok hdelete hserved hfilled
  have hfilled₁ : Filled w₁.db.toDatabase := by
    intro name value hvalue
    rw [hdeleted] at hvalue
    split at hvalue
    · cases hvalue
    · exact hfilled name value hvalue
  obtain ⟨properties, w₃, hmap, hloop⟩ := bind_ok.mp hinit
  obtain ⟨rfl, hdb, -⟩ := propertyMap_ok hmap hserved₁
  have hnodup : (order.map Prod.fst).Nodup :=
    (horder.map Prod.fst).nodup_iff.mpr nodup_defaultProperties
  obtain ⟨hcreated, hkept⟩ := createIfAbsent_each hloop hnodup
  rw [hdb] at hkept
  have hsame : ∀ item ∈ defaultProperties,
      stored w₁.db.toDatabase item.1 = stored w.db.toDatabase item.1 := fun item hitem => by
    rw [hdeleted, if_neg (not_deprecated_default item hitem)]
  refine ⟨fun name hname => ?_, fun item hitem => ?_, fun name hname hother => ?_⟩
  · rw [hkept name fun hmem => ?_, hdeleted, if_pos hname]
    obtain ⟨item, hitem, rfl⟩ := List.mem_map.mp hmem
    exact absurd hname (not_deprecated_default item (horder.mem_iff.mp hitem))
  · by_cases hnone : stored w₁.db.toDatabase item.1 = none
    · have hempty : (PropertyRepository.findAllMap w₁.db.toDatabase true item.1).length = 0 :=
        (length_eq_zero _).mpr ((findAllMap_eq_empty hfilled₁).mpr hnone)
      rw [hcreated item (horder.mem_iff.mpr hitem) hempty, ← hsame item hitem, hnone]
      rfl
    · have hfull : (PropertyRepository.findAllMap w₁.db.toDatabase true item.1).length ≠ 0 :=
        fun hempty => hnone ((findAllMap_eq_empty hfilled₁).mp ((length_eq_zero _).mp hempty))
      rw [hkept item.1 fun _ => hfull, hsame item hitem]
      rw [hsame item hitem] at hnone
      obtain ⟨value, hvalue⟩ := Option.ne_none_iff_exists'.mp hnone
      rw [hvalue]
      rfl
  · rw [hkept name fun hmem => ?_, hdeleted, if_neg hname]
    obtain ⟨item, hitem, rfl⟩ := List.mem_map.mp hmem
    exact absurd rfl (hother item (horder.mem_iff.mp hitem))

end PropertyService

/-! ## Accounts -/

namespace Startup

variable {uuid : String → String} {encoded : Except Error String} {users : List User} {user : User}
  {d d' : Database}

/-- The users when one of them has got a type. -/
def retyped (users : Table User User.id) (id type : String) : Table User User.id :=
  users.updateById id (UserRepository.assign { id, type }) (UserRepository.assign_id _)

theorem update_eq_ok {id type : String} (h : UserRepository.update d { id, type } = .ok d') :
    d' = { d with users := retyped d.users id type } := by
  unfold UserRepository.update at h
  split at h
  · cases h
  · exact (Except.ok.inj h).symm

theorem saveUserRoles_eq_ok {ids : Nat → String}
    (h : UserService.saveUserRoles d ids user = .ok d') :
    ∃ userRoleRefs, d.userRoleRefs.insertAll (user.roles.zipIdx.map fun (role, i) =>
      { id := ids i, userId := user.id, roleId := role }) = some userRoleRefs ∧
      d' = { d with userRoleRefs } := by
  unfold UserService.saveUserRoles at h
  simp only at h
  split at h
  · next userRoleRefs hinsert => exact ⟨userRoleRefs, hinsert, (Except.ok.inj h).symm⟩
  · cases h

theorem map_id_retyped (users : Table User User.id) (id type : String) :
    (retyped users id type).rows.map User.id = users.rows.map User.id := by
  show (users.rows.map fun u =>
    if u.id = id then UserRepository.assign { id, type } u else u).map User.id = _
  rw [List.map_map]
  refine List.map_congr_left fun u _ => ?_
  show (if u.id = id then UserRepository.assign { id, type } u else u).id = u.id
  split
  · rfl
  · rfl

section Keeps

variable {I : StartDatabase → Prop}

/-- The loop over the users leaves everything but types and roles alone. -/
theorem keeps_repairUser
    (htype : ∀ db, I db → I { db with users := retyped db.users user.id nd.typeUser })
    (hroles : ∀ db userRoleRefs, I db → I { db with userRoleRefs }) :
    Keeps I (repairUser uuid user : StartWork C Unit) := by
  refine Keeps.bind ?_ fun _ => ?_
  · unfold repairType
    split
    · refine keeps_write fun db d hdb h => ?_
      rw [update_eq_ok h]
      exact htype db hdb
    · exact Keeps.pure _
  · unfold repairRole
    split
    · refine Keeps.bind (keeps_read _) fun roles => ?_
      split
      · refine keeps_write fun db d hdb h => ?_
        obtain ⟨userRoleRefs, -, rfl⟩ := saveUserRoles_eq_ok h
        exact hroles db userRoleRefs hdb
      · exact Keeps.pure _
    · exact Keeps.pure _

theorem keeps_initUser
    (htype : ∀ db id, I db → I { db with users := retyped db.users id nd.typeUser })
    (hroles : ∀ db userRoleRefs, I db → I { db with userRoleRefs })
    (hfirst : ∀ db pass users, I db →
      db.users.insert (UserService.initialUser pass) = some users → I { db with users }) :
    Keeps I (initUser encoded uuid : StartWork C Unit) := by
  refine Keeps.bind (keeps_read _) fun users => ?_
  split
  · refine Keeps.bind (keeps_ofExcept _) fun pass => keeps_write fun db d hdb h => ?_
    unfold UserRepository.create at h
    split at h
    · next users hinsert =>
      obtain rfl := Except.ok.inj h
      exact hfirst db pass users hdb hinsert
    · cases h
  · exact Keeps.each fun user _ => keeps_repairUser (fun db => htype db user.id) hroles

end Keeps

theorem repairType_ok {u : Unit} (h : repairType user w = (.ok u, w')) :
    w'.db.users = (if user.type = "" then retyped w.db.users user.id nd.typeUser
      else w.db.users) ∧ w'.db.userRoleRefs = w.db.userRoleRefs ∧ w'.memory.dirs = w.memory.dirs := by
  unfold repairType at h
  split at h
  · next hempty =>
    obtain ⟨hwrite, -, hmemory⟩ := write_eq_ok h
    have hdb := update_eq_ok hwrite
    rw [if_pos hempty]
    refine ⟨?_, ?_, hmemory⟩
    · rw [hdb]
    · rw [hdb]
  · next hne =>
    cases h
    exact ⟨(if_neg hne).symm, rfl, rfl⟩

theorem repairRole_ok {u : Unit} (h : repairRole uuid user w = (.ok u, w')) :
    w'.db.users = w.db.users ∧ (∀ r ∈ w.db.userRoleRefs, r ∈ w'.db.userRoleRefs) ∧
      (user.type = nd.typeAdmin → ∃ r ∈ w'.db.userRoleRefs, r.userId = user.id) ∧
      w'.memory.dirs = w.memory.dirs := by
  unfold repairRole at h
  split at h
  · next hadmin =>
    obtain ⟨roles, w₁, hread, hsave⟩ := bind_ok.mp h
    obtain ⟨hroles, hdb, hmemory⟩ := read_eq_ok hread
    obtain rfl := Except.ok.inj hroles
    split at hsave
    · obtain ⟨hwrite, -, hmemory₁⟩ := write_eq_ok hsave
      obtain ⟨userRoleRefs, hinsert, hafter⟩ := saveUserRoles_eq_ok hwrite
      have hmem := fun r : UserRoleRef => Table.mem_of_insertAll (b := r) hinsert
      rw [hdb] at hafter hmem
      refine ⟨?_, fun r hr => ?_, fun _ => ?_, ?_⟩
      · rw [hafter]
      · rw [hafter]
        exact (hmem r).mpr (.inr hr)
      · refine ⟨{ id := uuid user.id, userId := user.id, roleId := "system-administrator" }, ?_, rfl⟩
        rw [hafter]
        exact (hmem _).mpr (.inl (by simp))
      · rw [hmemory₁, hmemory]
    · next hsome =>
      cases hsave
      rw [hdb]
      refine ⟨rfl, fun r hr => hr, fun _ => ?_, hmemory⟩
      have hne : RoleService.getRolesByUserId w.db.toDatabase user.id ≠ [] :=
        fun hnil => hsome (by rw [hnil]; rfl)
      obtain ⟨role, hrole⟩ := List.exists_mem_of_ne_nil _ hne
      obtain ⟨r, hr, -⟩ := List.mem_map.mp hrole
      obtain ⟨hmem, hid⟩ := List.mem_filter.mp hr
      exact ⟨r, hmem, beq_iff_eq.mp hid⟩
  · next hnot =>
    cases h
    exact ⟨rfl, fun r hr => hr, fun hadmin => absurd hadmin hnot, rfl⟩

/-- What the loop over `todo` makes of the accounts. -/
structure RepairsUsers (todo : List User) (before after : StartDatabase) : Prop where
  ids : after.users.rows.map User.id = before.users.rows.map User.id
  types : ∀ v' ∈ after.users, ∃ v ∈ before.users, v'.id = v.id ∧
    (v'.type = v.type ∨ v'.type = nd.typeUser) ∧
    ((∃ u ∈ todo, u.id = v.id ∧ u.type = "") → v'.type = nd.typeUser)
  grows : ∀ r ∈ before.userRoleRefs, r ∈ after.userRoleRefs
  roles : ∀ u ∈ todo, u.type = nd.typeAdmin → ∃ r ∈ after.userRoleRefs, r.userId = u.id

theorem exists_of_mem_retyped {users : Table User User.id} {id type : String} (hne : type ≠ "")
    {v' : User} (h : v' ∈ retyped users id type) :
    ∃ v ∈ users, v'.id = v.id ∧ v'.type = if v.id = id then type else v.type := by
  have hmap : v' ∈ users.rows.map fun u =>
      if u.id = id then UserRepository.assign { id, type } u else u := h
  obtain ⟨v, hv, rfl⟩ := List.mem_map.mp hmap
  refine ⟨v, hv, ?_, ?_⟩
  · split
    · rfl
    · rfl
  · split
    · exact if_neg hne
    · rfl

theorem each_repairUser (h : each (repairUser uuid) users w = (.ok (), w')) :
    RepairsUsers users w.db w'.db ∧ w'.memory.dirs = w.memory.dirs := by
  induction users generalizing w with
  | nil =>
    cases h
    refine ⟨⟨rfl, fun v hv => ⟨v, hv, rfl, .inl rfl, ?_⟩, fun r hr => hr, ?_⟩, rfl⟩
    · rintro ⟨u, hu, -⟩
      exact absurd hu List.not_mem_nil
    · exact fun u hu => absurd hu List.not_mem_nil
  | cons user users ih =>
    obtain ⟨u, w₁, hfirst, hrest⟩ := bind_ok.mp h
    obtain ⟨u', w₂, htype, hrole⟩ := bind_ok.mp hfirst
    obtain ⟨husers, hrefs, hmemory⟩ := repairType_ok htype
    obtain ⟨hsame, hgrows, hroles, hmemory₁⟩ := repairRole_ok hrole
    obtain ⟨hloop, hmemory₂⟩ := ih hrest
    rw [husers] at hsame
    refine ⟨⟨?_, fun v' hv' => ?_, fun r hr => ?_, fun v hv hadmin => ?_⟩, ?_⟩
    · rw [hloop.ids, hsame]
      split
      · exact map_id_retyped w.db.users user.id nd.typeUser
      · rfl
    · obtain ⟨v₁, hv₁, hid₁, htype₁, htodo₁⟩ := hloop.types v' hv'
      rw [hsame] at hv₁
      split at hv₁
      · next hempty =>
        obtain ⟨v, hv, hid, htypev⟩ := exists_of_mem_retyped (by decide) hv₁
        refine ⟨v, hv, hid₁.trans hid, ?_, ?_⟩
        · split at htypev
          · rw [htypev] at htype₁
            exact .inr (htype₁.elim id id)
          · rwa [htypev] at htype₁
        · rintro ⟨u, hu, huid, hutype⟩
          rcases List.mem_cons.mp hu with rfl | hu
          · rw [if_pos huid.symm] at htypev
            rw [htypev] at htype₁
            exact htype₁.elim id id
          · exact htodo₁ ⟨u, hu, huid.trans hid.symm, hutype⟩
      · next hne =>
        refine ⟨v₁, hv₁, hid₁, htype₁, ?_⟩
        rintro ⟨u, hu, huid, hutype⟩
        rcases List.mem_cons.mp hu with rfl | hu
        · exact absurd hutype hne
        · exact htodo₁ ⟨u, hu, huid, hutype⟩
    · exact hloop.grows r (hgrows r (hrefs ▸ hr))
    · rcases List.mem_cons.mp hv with rfl | hv
      · obtain ⟨r, hr, hrid⟩ := hroles hadmin
        exact ⟨r, hloop.grows r hr, hrid⟩
      · exact hloop.roles v hv hadmin
    · rw [hmemory₂, hmemory₁, hmemory]

theorem RepairsUsers.typed {before after : StartDatabase}
    (h : RepairsUsers before.users.rows before after) : ∀ u ∈ after.users, u.type ≠ "" := by
  intro v' hv' hempty
  obtain ⟨v, hv, -, htype, htodo⟩ := h.types v' hv'
  have hnot : v'.type ≠ nd.typeUser := by
    rw [hempty]
    decide
  rcases htype with htype | htype
  · exact hnot (htodo ⟨v, hv, rfl, htype.symm.trans hempty⟩)
  · exact hnot htype

theorem RepairsUsers.administrators {before after : StartDatabase}
    (h : RepairsUsers before.users.rows before after) :
    ∀ u ∈ after.users, u.type = nd.typeAdmin → ∃ r ∈ after.userRoleRefs, r.userId = u.id := by
  intro v' hv' hadmin
  obtain ⟨v, hv, hid, htype, -⟩ := h.types v' hv'
  rw [hadmin] at htype
  rcases htype with htype | htype
  · rw [hid]
    exact h.roles v hv htype.symm
  · exact absurd htype (by decide)

theorem initUser_ok (h : initUser encoded uuid w = (.ok (), w')) :
    w'.memory.dirs = w.memory.dirs ∧
      (w.db.users.rows ≠ [] → RepairsUsers w.db.users.rows w.db w'.db) ∧
      (w.db.users.rows = [] → (∃ pass, w'.db.users.rows = [UserService.initialUser pass]) ∧
        w'.db.userRoleRefs = w.db.userRoleRefs) := by
  obtain ⟨users, w₁, hread, hrest⟩ := bind_ok.mp h
  obtain ⟨husers, hdb, hmemory⟩ := read_eq_ok hread
  obtain rfl := Except.ok.inj husers
  split at hrest
  · next hlength =>
    have hnil : w.db.users.rows = [] := List.length_eq_zero_iff.mp hlength
    obtain ⟨pass, w₂, hencoded, hwrite⟩ := bind_ok.mp hrest
    obtain ⟨-, rfl⟩ := ofExcept_eq_ok.mp hencoded
    obtain ⟨hcreate, -, hmemory₁⟩ := write_eq_ok hwrite
    refine ⟨hmemory₁.trans hmemory, fun hne => absurd hnil hne, fun _ => ?_⟩
    unfold UserRepository.create at hcreate
    split at hcreate
    · next rows hinsert =>
      have hrows := Table.rows_of_insert hinsert
      rw [hdb, hnil] at hrows
      have hafter := Except.ok.inj hcreate
      rw [← hafter, hrows, hdb]
      exact ⟨⟨pass, rfl⟩, rfl⟩
    · cases hcreate
  · next hlength =>
    obtain ⟨hloop, hmemory₁⟩ := each_repairUser hrest
    rw [hdb] at hloop
    refine ⟨hmemory₁.trans hmemory, fun _ => hloop, fun hnil => ?_⟩
    exact absurd (List.length_eq_zero_iff.mpr hnil) hlength

end Startup

/-! ## Storages -/

namespace StorageService

variable [EmptyCollection C] {user : User} {users : List User} {storage : Storage}
  {storages : List Storage} {readable : String → Bool} {db : StartDatabase}

theorem findDefaultOf_cases (db : StartDatabase) (owner : String) :
    (StorageRepository.findDefaultOf db owner = .error .recordNotFound ∧ ¬ HasDefault db owner) ∨
      ((∃ storage, StorageRepository.findDefaultOf db owner = .ok storage) ∧
        HasDefault db owner) := by
  unfold StorageRepository.findDefaultOf
  cases h : db.storages.first fun storage => storage.owner == owner && storage.isDefault with
  | none =>
    refine .inl ⟨rfl, ?_⟩
    rintro ⟨storage, hmem, howner, hdefault⟩
    have hfalse := Table.first_eq_none.mp h storage hmem
    rw [hdefault, howner] at hfalse
    simp at hfalse
  | some storage =>
    obtain ⟨hmem, htrue, -⟩ := Table.first_eq_some.mp h
    rw [Bool.and_eq_true, beq_iff_eq] at htrue
    exact .inr ⟨⟨storage, rfl⟩, storage, hmem, htrue.1, htrue.2⟩

theorem parseSize_eq_ok {value : String} {megabytes : Int} :
    parseSize value = .ok megabytes ↔ Retention.atoi value = some megabytes := by
  unfold parseSize
  split
  · next n h => rw [h, Except.ok.injEq, Option.some.injEq]
  · next h =>
    rw [h]
    constructor
    · intro h
      cases h
    · intro h
      cases h

theorem sizeSetting_eq_some {d : Database} {megabytes : Int} : sizeSetting d = some megabytes ↔
    ∃ p, d.properties.findById "user-default-storage-size" = some p ∧
      parseSize p.value = .ok megabytes := by
  unfold sizeSetting stored
  rw [Option.bind_eq_some_iff]
  constructor
  · rintro ⟨value, hvalue, hatoi⟩
    obtain ⟨p, hp, rfl⟩ := Option.map_eq_some_iff.mp hvalue
    exact ⟨p, hp, parseSize_eq_ok.mpr hatoi⟩
  · rintro ⟨p, hp, hparse⟩
    exact ⟨p.value, Option.map_eq_some_iff.mpr ⟨p, hp, rfl⟩, parseSize_eq_ok.mp hparse⟩

/-- The directory of a storage is there, with what was in it. -/
def withDir (drive : Drive C) (id : String) : Drive C :=
  Function.update drive id (some ((drive id).getD ∅))

theorem createStorageByUser_ok (h : createStorageByUser user w = (.ok (), w')) :
    ∃ megabytes, sizeSetting w.db.toDatabase = some megabytes ∧
      w.db.storages.insert (defaultStorage user megabytes) = some w'.db.storages ∧
      w'.db.toDatabase = w.db.toDatabase ∧ w'.memory.dirs = withDir w.memory.dirs user.id := by
  unfold createStorageByUser at h
  obtain ⟨p, w₁, hread, hparsing⟩ := bind_ok.mp h
  obtain ⟨hfind, hdb₁, hmemory₁⟩ := read_eq_ok hread
  obtain ⟨megabytes, w₂, hnumber, hrest⟩ := bind_ok.mp hparsing
  obtain ⟨hparse, rfl⟩ := ofExcept_eq_ok.mp hnumber
  obtain ⟨u, w₃, hmkdir, hcreate⟩ := bind_ok.mp hrest
  obtain ⟨hdb₃, hmemory₃⟩ := onDrive_eq_ok hmkdir
  obtain ⟨hinsert, hdb, hmemory⟩ := writeStorages_eq_ok (orElse_eq_ok hcreate)
  rw [hdb₃, hdb₁] at hinsert hdb
  refine ⟨megabytes, sizeSetting_eq_some.mpr ⟨p, ?_, hparse⟩, ?_, hdb, ?_⟩
  · cases hp : w.db.properties.findById "user-default-storage-size" with
    | none =>
      rw [hp] at hfind
      cases hfind
    | some q =>
      rw [hp] at hfind
      cases hfind
      rfl
  · unfold StorageRepository.create at hinsert
    split at hinsert
    · next rows hrows => rw [hrows, Except.ok.inj hinsert]
    · cases hinsert
  · rw [hmemory, hmemory₃, hmemory₁]
    rfl

theorem ensureStorage_ok (h : ensureStorage readable user w = (.ok (), w'))
    (hserved : w.served ≠ some 0) :
    w'.db.toDatabase = w.db.toDatabase ∧
      ((w'.db.storages = w.db.storages ∧ w'.memory.dirs = w.memory.dirs ∧
          (HasDefault w.db user.id ∨ readable user.id = false)) ∨
        (¬ HasDefault w.db user.id ∧ readable user.id = true ∧
          w'.memory.dirs = withDir w.memory.dirs user.id ∧
            ∃ megabytes, sizeSetting w.db.toDatabase = some megabytes ∧
              w.db.storages.insert (defaultStorage user megabytes) = some w'.db.storages)) := by
  unfold ensureStorage at h
  obtain ⟨found, w₁, hquery, hrest⟩ := bind_ok.mp h
  rw [query_run, if_neg hserved] at hquery
  cases hquery
  rcases findDefaultOf_cases w.db user.id with ⟨hfound, hnone⟩ | ⟨⟨storage, hfound⟩, hsome⟩
  · rw [hfound] at hrest
    simp only at hrest
    split at hrest
    · next hreadable =>
      obtain ⟨megabytes, hsize, hinsert, hdb, hmemory⟩ := createStorageByUser_ok hrest
      exact ⟨hdb, .inr ⟨hnone, hreadable, hmemory, megabytes, hsize, hinsert⟩⟩
    · next hunreadable =>
      cases hrest
      exact ⟨rfl, .inl ⟨rfl, rfl, .inr (Bool.eq_false_iff.mpr hunreadable)⟩⟩
  · rw [hfound] at hrest
    cases hrest
    exact ⟨rfl, .inl ⟨rfl, rfl, .inl hsome⟩⟩

/-- What the loop over users makes of storages and directories. -/
structure Provides (readable : String → Bool) (users : List User)
    (w w' : World StartDatabase (Disk C)) : Prop where
  same : w'.db.toDatabase = w.db.toDatabase
  rows : ∀ storage, storage ∈ w'.db.storages ↔ storage ∈ w.db.storages ∨
    ∃ user ∈ users, ¬ HasDefault w.db user.id ∧ readable user.id = true ∧
      ∃ megabytes, sizeSetting w.db.toDatabase = some megabytes ∧
        storage = defaultStorage user megabytes
  made : ∀ user ∈ users, ¬ HasDefault w.db user.id → readable user.id = true →
    (sizeSetting w.db.toDatabase).isSome = true ∧
      w'.memory.dirs user.id = some ((w.memory.dirs user.id).getD ∅)
  others : ∀ id, (∀ user ∈ users, user.id = id → HasDefault w.db id ∨ readable id = false) →
    w'.memory.dirs id = w.memory.dirs id

theorem staysOut_ensureStorage (readable : String → Bool) (user : User) :
    StaysOut (ensureStorage readable user : StartWork C Unit) := by
  refine .bind (.query _) fun found => ?_
  split
  · split
    · refine .bind (.statement _) fun p => .bind (.ofExcept _) fun megabytes => ?_
      exact .bind (.onDrive _) fun _ => .orElse (.statement _) (.onDrive _)
    · exact .pure _
  · exact .pure _

theorem hasDefault_of_insert {megabytes : Int} {rows : Table Storage Storage.id} {id : String}
    (h : db.storages.insert (defaultStorage user megabytes) = some rows) (hne : id ≠ user.id) :
    HasDefault { db with storages := rows } id ↔ HasDefault db id := by
  constructor
  · rintro ⟨storage, hmem, howner, hdefault⟩
    rcases (Table.mem_of_insert h).mp hmem with rfl | hmem
    · exact absurd howner.symm hne
    · exact ⟨storage, hmem, howner, hdefault⟩
  · rintro ⟨storage, hmem, howner, hdefault⟩
    exact ⟨storage, (Table.mem_of_insert h).mpr (.inr hmem), howner, hdefault⟩

theorem withDir_of_ne (drive : Drive C) {id other : String} (h : other ≠ id) :
    withDir drive id other = drive other := Function.update_of_ne h _ _

theorem withDir_self (drive : Drive C) (id : String) :
    withDir drive id id = some ((drive id).getD ∅) := Function.update_self _ _ _

/-- A user of the list with the id of the first one is not met again. -/
theorem ne_of_nodup_cons (h : ((user :: users).map User.id).Nodup) {other : User}
    (hother : other ∈ users) : other.id ≠ user.id :=
  fun heq => (List.nodup_cons.mp h).1 (heq ▸ List.mem_map_of_mem hother)

/-- A user that has a storage already, or whose storage cannot be read, is passed over. -/
theorem Provides.pass {w₁ : World StartDatabase (Disk C)} (hloop : Provides readable users w₁ w')
    (hdb : w₁.db.toDatabase = w.db.toDatabase) (hstorages : w₁.db.storages = w.db.storages)
    (hmemory : w₁.memory.dirs = w.memory.dirs)
    (hwhy : HasDefault w.db user.id ∨ readable user.id = false) :
    Provides readable (user :: users) w w' := by
  have hdefault : ∀ id, HasDefault w₁.db id ↔ HasDefault w.db id := fun id => by
    unfold HasDefault
    rw [hstorages]
  refine ⟨hloop.same.trans hdb, fun storage => ?_, fun v hv hnone hreadable => ?_,
    fun id hid => ?_⟩
  · rw [hloop.rows, hstorages, hdb]
    refine or_congr Iff.rfl ⟨?_, ?_⟩
    · rintro ⟨v, hv, hvnone, hrow⟩
      exact ⟨v, List.mem_cons_of_mem _ hv, (hdefault v.id).not.mp hvnone, hrow⟩
    · rintro ⟨v, hv, hvnone, hreadable, hrow⟩
      rcases List.mem_cons.mp hv with rfl | hv
      · rcases hwhy with hhas | hunreadable
        · exact absurd hhas hvnone
        · rw [hunreadable] at hreadable
          cases hreadable
      · exact ⟨v, hv, (hdefault v.id).not.mpr hvnone, hreadable, hrow⟩
  · rcases List.mem_cons.mp hv with rfl | hv
    · rcases hwhy with hhas | hunreadable
      · exact absurd hhas hnone
      · rw [hunreadable] at hreadable
        cases hreadable
    · have hmade := hloop.made v hv ((hdefault v.id).not.mpr hnone) hreadable
      rwa [hdb, hmemory] at hmade
  · rw [hloop.others id fun v hv heq => ?_, hmemory]
    rw [hdefault]
    exact hid v (List.mem_cons_of_mem _ hv) heq

/-- A user without a storage gets one, which changes nothing for the users after. -/
theorem Provides.provide {w₁ : World StartDatabase (Disk C)} {megabytes : Int}
    (hloop : Provides readable users w₁ w') (hnodup : ((user :: users).map User.id).Nodup)
    (hdb : w₁.db.toDatabase = w.db.toDatabase) (hnone : ¬ HasDefault w.db user.id)
    (hreadable : readable user.id = true)
    (hmemory : w₁.memory.dirs = withDir w.memory.dirs user.id)
    (hsize : sizeSetting w.db.toDatabase = some megabytes)
    (hinsert : w.db.storages.insert (defaultStorage user megabytes) = some w₁.db.storages) :
    Provides readable (user :: users) w w' := by
  have hdefault : ∀ v ∈ users, (HasDefault w₁.db v.id ↔ HasDefault w.db v.id) :=
    fun v hv => hasDefault_of_insert hinsert (ne_of_nodup_cons hnodup hv)
  refine ⟨hloop.same.trans hdb, fun storage => ?_, fun v hv hvnone hvreadable => ?_,
    fun id hid => ?_⟩
  · rw [hloop.rows, Table.mem_of_insert hinsert, hdb]
    constructor
    · rintro ((rfl | hmem) | ⟨v, hv, hvnone, hrow⟩)
      · exact .inr ⟨user, List.mem_cons_self, hnone, hreadable, megabytes, hsize, rfl⟩
      · exact .inl hmem
      · exact .inr ⟨v, List.mem_cons_of_mem _ hv, (hdefault v hv).not.mp hvnone, hrow⟩
    · rintro (hmem | ⟨v, hv, hvnone, hvreadable, hrow⟩)
      · exact .inl (.inr hmem)
      · rcases List.mem_cons.mp hv with rfl | hv
        · obtain ⟨megabytes', hsize', rfl⟩ := hrow
          rw [hsize] at hsize'
          obtain rfl := Option.some.inj hsize'
          exact .inl (.inl rfl)
        · exact .inr ⟨v, hv, (hdefault v hv).not.mpr hvnone, hvreadable, hrow⟩
  · rcases List.mem_cons.mp hv with rfl | hv
    · refine ⟨by rw [hsize]; rfl, ?_⟩
      rw [hloop.others v.id fun x hx heq => absurd heq (ne_of_nodup_cons hnodup hx), hmemory,
        withDir_self]
    · have hmade := hloop.made v hv ((hdefault v hv).not.mpr hvnone) hvreadable
      rwa [hdb, hmemory, withDir_of_ne _ (ne_of_nodup_cons hnodup hv)] at hmade
  · have hne : id ≠ user.id := by
      rintro rfl
      rcases hid user List.mem_cons_self rfl with hhas | hunreadable
      · exact hnone hhas
      · rw [hunreadable] at hreadable
        cases hreadable
    rw [hloop.others id fun v hv heq => ?_, hmemory, withDir_of_ne _ hne]
    have hiff := hdefault v hv
    rw [heq] at hiff
    rw [hiff]
    exact hid v (List.mem_cons_of_mem _ hv) heq

theorem each_ensureStorage (h : each (ensureStorage readable) users w = (.ok (), w'))
    (hserved : w'.served ≠ some 0) (hnodup : (users.map User.id).Nodup) :
    Provides readable users w w' := by
  induction users generalizing w with
  | nil =>
    cases h
    refine ⟨rfl, fun storage => ⟨.inl, ?_⟩, fun u hu => absurd hu List.not_mem_nil, fun _ _ => rfl⟩
    rintro (hmem | ⟨u, hu, -⟩)
    · exact hmem
    · exact absurd hu List.not_mem_nil
  | cons user users ih =>
    obtain ⟨u, w₁, hfirst, hrest⟩ := bind_ok.mp h
    have hserved₁ : w₁.served ≠ some 0 := fun hout => by
      have hlater := StaysOut.each (staysOut_ensureStorage readable) users w₁ hout
      rw [hrest] at hlater
      exact hserved hlater
    have hserved₀ : w.served ≠ some 0 := fun hout => by
      have hlater := staysOut_ensureStorage readable user w hout
      rw [hfirst] at hlater
      exact hserved₁ hlater
    have hloop := ih hrest (List.nodup_cons.mp hnodup).2
    obtain ⟨hdb, hkeep | ⟨hnone, hreadable, hmemory, megabytes, hsize, hinsert⟩⟩ :=
      ensureStorage_ok hfirst hserved₀
    · obtain ⟨hstorages, hmemory, hwhy⟩ := hkeep
      exact hloop.pass hdb hstorages hmemory hwhy
    · exact hloop.provide hnodup hdb hnone hreadable hmemory hsize hinsert

/-! ### The second loop -/

omit [EmptyCollection C] in
theorem deleteStorageById_ok {id : String} (hmem : storage ∈ w.db.storages) (hid : storage.id = id)
    (h : deleteStorageById id true w = (.ok (), w')) :
    w'.db.toDatabase = w.db.toDatabase ∧
      w'.db.storages = (w.db.storages.deleteWhere fun storage => storage.id == id) ∧
      w'.memory.dirs = Function.update w.memory.dirs id none := by
  unfold deleteStorageById at h
  obtain ⟨found, w₁, hquery, hrest⟩ := bind_ok.mp h
  rw [query_run] at hquery
  have hfind : w.db.storages.findById id = some storage := Table.findById_eq_some.mpr ⟨hmem, hid⟩
  rw [hfind] at hquery
  split at hquery
  · cases hquery
    cases hrest
  · cases hquery
    obtain ⟨u, w₂, hremove, hdelete⟩ := bind_ok.mp hrest
    obtain ⟨hdb₂, hmemory₂⟩ := onDrive_eq_ok hremove
    obtain ⟨hrows, hdb, hmemory⟩ := writeStorages_eq_ok hdelete
    rw [hdb₂] at hdb hrows
    exact ⟨hdb, (Except.ok.inj hrows).symm, hmemory.trans hmemory₂⟩

theorem withDir_eq_self {drive : Drive C} {id : String} (h : (drive id).isSome = true) :
    withDir drive id = drive := by
  obtain ⟨c, hc⟩ := Option.isSome_iff_exists.mp h
  unfold withDir
  rw [hc, Option.getD_some, ← hc, Function.update_eq_self]

theorem ensureDir_ok {id : String} {u : Unit} (h : ensureDir id w = (.ok u, w')) :
    w'.db = w.db ∧ w'.memory.dirs = withDir w.memory.dirs id := by
  unfold ensureDir at h
  split at h
  · next hthere =>
    cases h
    exact ⟨rfl, (withDir_eq_self hthere).symm⟩
  · exact onDrive_eq_ok h

theorem reviewStorage_ok (hmem : storage ∈ w.db.storages)
    (h : reviewStorage users storage w = (.ok (), w')) :
    w'.db.toDatabase = w.db.toDatabase ∧
      w'.db.storages = (if isLeftOver users storage = true then
        w.db.storages.deleteWhere fun other => other.id == storage.id else w.db.storages) ∧
      w'.memory.dirs = withDir (if isLeftOver users storage = true then
        Function.update w.memory.dirs storage.id none else w.memory.dirs) storage.id := by
  unfold reviewStorage removeLeftOver at h
  obtain ⟨u, w₁, hremove, hdir⟩ := bind_ok.mp h
  obtain ⟨hdb₁, hmemory₁⟩ := ensureDir_ok hdir
  split at hremove
  · next hleft =>
    obtain ⟨hdb, hrows, hmemory⟩ := deleteStorageById_ok hmem rfl hremove
    rw [if_pos hleft, if_pos hleft, hdb₁, hmemory₁, hmemory]
    exact ⟨hdb, hrows, rfl⟩
  · next hleft =>
    cases hremove
    rw [if_neg hleft, if_neg hleft, hdb₁, hmemory₁]
    exact ⟨rfl, rfl, rfl⟩

/-- What the loop over storages makes of them and of their directories. -/
structure Reviews (users : List User) (storages : List Storage)
    (w w' : World StartDatabase (Disk C)) : Prop where
  same : w'.db.toDatabase = w.db.toDatabase
  rows : ∀ storage, storage ∈ w'.db.storages ↔ storage ∈ w.db.storages ∧
    ¬ (storage ∈ storages ∧ isLeftOver users storage = true)
  emptied : ∀ storage ∈ storages, isLeftOver users storage = true →
    w'.memory.dirs storage.id = some ∅
  kept : ∀ storage ∈ storages, isLeftOver users storage = false →
    w'.memory.dirs storage.id = some ((w.memory.dirs storage.id).getD ∅)
  others : ∀ id, (∀ storage ∈ storages, storage.id ≠ id) → w'.memory.dirs id = w.memory.dirs id

theorem each_reviewStorage (h : each (reviewStorage users) storages w = (.ok (), w'))
    (hmem : ∀ storage ∈ storages, storage ∈ w.db.storages)
    (hnodup : (storages.map Storage.id).Nodup) : Reviews users storages w w' := by
  induction storages generalizing w with
  | nil =>
    cases h
    refine ⟨rfl, fun storage => ⟨fun h => ⟨h, ?_⟩, And.left⟩, ?_, ?_, fun _ _ => rfl⟩
    · rintro ⟨hnil, -⟩
      exact List.not_mem_nil hnil
    · exact fun storage hnil => absurd hnil List.not_mem_nil
    · exact fun storage hnil => absurd hnil List.not_mem_nil
  | cons storage storages ih =>
    obtain ⟨u, w₁, hfirst, hrest⟩ := bind_ok.mp h
    obtain ⟨hnew, hnodup⟩ := List.nodup_cons.mp hnodup
    have hne : ∀ other ∈ storages, other.id ≠ storage.id := fun other hother heq =>
      hnew (heq ▸ List.mem_map_of_mem hother)
    obtain ⟨hdb, hrows, hmemory⟩ := reviewStorage_ok (hmem storage List.mem_cons_self) hfirst
    have hmem₁ : ∀ other, other ∈ w₁.db.storages ↔ other ∈ w.db.storages ∧
        ¬ (other.id = storage.id ∧ isLeftOver users storage = true) := by
      intro other
      rw [hrows]
      split
      · next hleft => simp [hleft]
      · next hleft => simp [hleft]
    have hdrive : ∀ id, id ≠ storage.id → w₁.memory.dirs id = w.memory.dirs id := by
      intro id hid
      rw [hmemory, withDir_of_ne _ hid]
      split
      · exact Function.update_of_ne hid _ _
      · rfl
    have hloop := ih hrest (fun other hother => (hmem₁ other).mpr
      ⟨hmem other (List.mem_cons_of_mem _ hother), fun hboth => hne other hother hboth.1⟩) hnodup
    have hlater : w'.memory.dirs storage.id = w₁.memory.dirs storage.id := hloop.others storage.id hne
    refine ⟨hloop.same.trans hdb, fun other => ?_, fun other hother hleft => ?_,
      fun other hother hleft => ?_, fun id hid => ?_⟩
    · rw [hloop.rows, hmem₁]
      constructor
      · rintro ⟨⟨hother, hnot⟩, hrest⟩
        refine ⟨hother, ?_⟩
        rintro ⟨hcons, hleft⟩
        rcases List.mem_cons.mp hcons with rfl | hcons
        · exact hnot ⟨rfl, hleft⟩
        · exact hrest ⟨hcons, hleft⟩
      · rintro ⟨hother, hnot⟩
        refine ⟨⟨hother, ?_⟩, fun hboth => hnot ⟨List.mem_cons_of_mem _ hboth.1, hboth.2⟩⟩
        rintro ⟨hid, hleft⟩
        obtain rfl := Table.eq_of_key hother (hmem storage List.mem_cons_self) hid
        exact hnot ⟨List.mem_cons_self, hleft⟩
    · rcases List.mem_cons.mp hother with rfl | hother
      · rw [hlater, hmemory, withDir_self, if_pos hleft, Function.update_self]
        rfl
      · exact hloop.emptied other hother hleft
    · rcases List.mem_cons.mp hother with rfl | hother
      · rw [hlater, hmemory, withDir_self, if_neg (Bool.eq_false_iff.mp hleft)]
      · rw [hloop.kept other hother hleft, hdrive other.id (hne other hother)]
    · rw [hloop.others id fun other hother => hid other (List.mem_cons_of_mem _ hother)]
      exact hdrive id (hid storage List.mem_cons_self).symm

/-- Both loops, from the storages that the first one leaves. -/
theorem initStorages_ok (h : initStorages readable w = (.ok (), w')) :
    ∃ w₁, Provides readable w.db.users.rows w w₁ ∧
      Reviews w.db.users.rows w₁.db.storages.rows w₁ w' := by
  unfold initStorages at h
  obtain ⟨users, w₁, hread, hrest⟩ := bind_ok.mp h
  obtain ⟨husers, hdb₁, hmemory₁⟩ := read_eq_ok hread
  obtain rfl := Except.ok.inj husers
  obtain ⟨u, w₂, hensure, hrest⟩ := bind_ok.mp hrest
  obtain ⟨storages, w₃, hread₃, hreview⟩ := bind_ok.mp hrest
  obtain ⟨hstorages, hdb₃, hmemory₃⟩ := read_eq_ok hread₃
  obtain rfl := Except.ok.inj hstorages
  have hprovides := each_ensureStorage hensure (served_of_read hread₃) w.db.users.nodup
  have hreviews := each_reviewStorage hreview
    (fun storage hstorage => by rw [hdb₃]; exact hstorage) w₂.db.storages.nodup
  refine ⟨w₂, ?_, ?_⟩
  · obtain ⟨hsame, hrows, hmade, hothers⟩ := hprovides
    rw [hdb₁] at hsame hrows hmade hothers
    rw [hmemory₁] at hmade hothers
    exact ⟨hsame, hrows, hmade, hothers⟩
  · obtain ⟨hsame, hrows, hemptied, hkept, hothers⟩ := hreviews
    rw [hdb₃] at hsame hrows
    rw [hmemory₃] at hkept hothers
    exact ⟨hsame, hrows, hemptied, hkept, hothers⟩

/-! ### What the storages keep -/

section Keeps

variable {I : StartDatabase → Prop}

theorem keeps_createStorageByUser
    (hinsert : ∀ db megabytes rows, I db →
      db.storages.insert (defaultStorage user megabytes) = some rows → I { db with storages := rows }) :
    Keeps I (createStorageByUser user : StartWork C Unit) := by
  unfold createStorageByUser
  refine Keeps.bind (keeps_read _) fun p => Keeps.bind (keeps_ofExcept _) fun megabytes => ?_
  refine Keeps.bind (keeps_onDrive _) fun _ => keeps_orElse ?_ (keeps_onDrive _)
  refine keeps_writeStorages fun db rows hdb h => ?_
  unfold StorageRepository.create at h
  split at h
  · next rows' hrows =>
    obtain rfl := Except.ok.inj h
    exact hinsert db megabytes rows' hdb hrows
  · cases h

omit [EmptyCollection C] in
theorem keeps_deleteStorageById (id : String) (force : Bool)
    (hdelete : ∀ db, I db → I { db with
      storages := db.storages.deleteWhere fun storage => storage.id == id }) :
    Keeps I (deleteStorageById id force : StartWork C Unit) := by
  unfold deleteStorageById
  refine Keeps.bind (keeps_query _) fun found => ?_
  split
  · exact Keeps.pure _
  · exact Keeps.fail _
  · split
    · exact Keeps.fail _
    · refine Keeps.bind (keeps_onDrive _) fun _ => keeps_writeStorages fun db rows hdb h => ?_
      obtain rfl := Except.ok.inj h
      exact hdelete db hdb

theorem keeps_ensureDir (id : String) : Keeps I (ensureDir id : StartWork C Unit) := by
  intro w hw
  unfold ensureDir
  split
  · exact hw
  · exact keeps_onDrive _ w hw

theorem keeps_initStorages
    (hinsert : ∀ db user megabytes rows, I db →
      db.storages.insert (defaultStorage user megabytes) = some rows → I { db with storages := rows })
    (hdelete : ∀ db id, I db → I { db with
      storages := db.storages.deleteWhere fun storage => storage.id == id }) :
    Keeps I (initStorages readable : StartWork C Unit) := by
  unfold initStorages
  refine Keeps.bind (keeps_read _) fun users => Keeps.bind (Keeps.each fun user _ => ?_) fun _ =>
    Keeps.bind (keeps_read _) fun storages => Keeps.each fun storage _ => ?_
  · unfold ensureStorage
    refine Keeps.bind (keeps_query _) fun found => ?_
    split
    · split
      · exact keeps_createStorageByUser fun db => hinsert db user
      · exact Keeps.pure _
    · exact Keeps.pure _
  · unfold reviewStorage removeLeftOver
    refine Keeps.bind ?_ fun _ => keeps_ensureDir storage.id
    split
    · exact keeps_deleteStorageById storage.id true fun db => hdelete db storage.id
    · exact Keeps.pure _

end Keeps

end StorageService

end NextDBM
