import NextDBM.Library.NaturalKeys
import NextDBM.Library.Runs
import NextDBM.Roles.RoleService

/-!
# Coherence of the cached role menus

A call that commits leaves the cache right as long as no digest of its references is that of another
role's reference; a call that ends before its cache write changes nothing. A call that writes the
cache and is then rolled back leaves the cache ahead of the tables.
-/

namespace NextDBM

open Relational Transaction

namespace RoleService

variable {w w' : World RoleDatabase RoleMenus} {role : Role} {id : String} {e : Error}
  {force : Bool} {ids : List String}

/-! ## The references of a role -/

theorem addRef_cases (roleId : String) (refs : List RoleMenuRef) (menu : RoleMenuRef) :
    (∃ ref ∈ refs, ref.id = sign [roleId, menu.menuId]) ∧ addRef roleId refs menu = refs ∨
      (∀ ref ∈ refs, ref.id ≠ sign [roleId, menu.menuId]) ∧ addRef roleId refs menu =
        refs ++ [⟨sign [roleId, menu.menuId], roleId, menu.menuId, menu.checked⟩] := by
  by_cases h : refs.any fun ref => ref.id == sign [roleId, menu.menuId]
  · refine .inl ⟨by simpa using h, ?_⟩
    show (if _ then _ else _) = _
    rw [if_pos h]
  · refine .inr ⟨by simpa using h, ?_⟩
    show (if _ then _ else _) = _
    rw [if_neg h]

/-- The references have distinct ids, and each is that of a menu of the role. -/
theorem foldl_addRef (roleId : String) (menus refs : List RoleMenuRef)
    (hnodup : (refs.map RoleMenuRef.id).Nodup) :
    ((menus.foldl (addRef roleId) refs).map RoleMenuRef.id).Nodup ∧
      ∀ ref ∈ menus.foldl (addRef roleId) refs, ref ∈ refs ∨
        ref.roleId = roleId ∧ ∃ menu ∈ menus, ref.id = sign [roleId, menu.menuId] := by
  induction menus generalizing refs with
  | nil => exact ⟨hnodup, fun ref href => .inl href⟩
  | cons menu menus ih =>
    rw [List.foldl_cons]
    rcases addRef_cases roleId refs menu with ⟨-, heq⟩ | ⟨hnew, heq⟩
    · rw [heq]
      obtain ⟨hnodup', hmem⟩ := ih refs hnodup
      refine ⟨hnodup', fun ref href => ?_⟩
      rcases hmem ref href with h | ⟨hrole, m, hm, hid⟩
      · exact .inl h
      · exact .inr ⟨hrole, m, List.mem_cons_of_mem menu hm, hid⟩
    · have hnodup₁ : ((addRef roleId refs menu).map RoleMenuRef.id).Nodup := by
        rw [heq, List.map_append, List.nodup_append]
        refine ⟨hnodup, List.nodup_singleton _, fun a ha b hb => ?_⟩
        obtain ⟨ref, href, rfl⟩ := List.mem_map.mp ha
        obtain rfl := List.mem_singleton.mp hb
        exact hnew ref href
      obtain ⟨hnodup', hmem⟩ := ih _ hnodup₁
      refine ⟨hnodup', fun ref href => ?_⟩
      rcases hmem ref href with h | ⟨hrole, m, hm, hid⟩
      · rw [heq] at h
        rcases List.mem_append.mp h with h | h
        · exact .inl h
        · obtain rfl := List.mem_singleton.mp h
          exact .inr ⟨rfl, menu, List.mem_cons_self, rfl⟩
      · exact .inr ⟨hrole, m, List.mem_cons_of_mem menu hm, hid⟩

theorem permissionRefs_nodup (role : Role) :
    ((permissionRefs role).map RoleMenuRef.id).Nodup :=
  (foldl_addRef role.id role.menus [] List.nodup_nil).1

theorem of_mem_permissionRefs {ref : RoleMenuRef} (h : ref ∈ permissionRefs role) :
    ref.roleId = role.id ∧ ∃ menu ∈ role.menus, ref.id = sign [role.id, menu.menuId] :=
  ((foldl_addRef role.id role.menus [] List.nodup_nil).2 ref h).resolve_left List.not_mem_nil

/-- The table after the references of a role have been written. -/
def putRefs (role : Role) (db : RoleDatabase) : RoleDatabase :=
  { db with
    roleMenuRefs := ((db.roleMenuRefs.deleteWhere fun ref =>
      ((permissionRefs role).map RoleMenuRef.id).contains ref.id).insertInBatches 100
        (permissionRefs role)).1 }

theorem insert_permissionRefs (role : Role) (db : RoleDatabase) :
    (db.roleMenuRefs.deleteWhere fun ref =>
      ((permissionRefs role).map RoleMenuRef.id).contains ref.id).insertInBatches 100
        (permissionRefs role) = ((putRefs role db).roleMenuRefs, true) := by
  refine Prod.ext rfl ?_
  show (Table.insertInBatches _ 100 (permissionRefs role)).2 = true
  rw [Table.insertInBatches, Table.insertStatements_eq_true]
  refine ⟨permissionRefs_nodup role, fun ref href old hold hid => ?_⟩
  have hdeleted := (Table.mem_deleteWhere.mp hold).2
  have hcontains : ((permissionRefs role).map RoleMenuRef.id).contains old.id = true := by
    rw [List.contains_iff_mem, hid]
    exact List.mem_map_of_mem href
  rw [hcontains] at hdeleted
  cases hdeleted

theorem mem_putRefs {db : RoleDatabase} {ref : RoleMenuRef} :
    ref ∈ (putRefs role db).roleMenuRefs ↔ ref ∈ permissionRefs role ∨
      ref ∈ db.roleMenuRefs ∧ ref.id ∉ (permissionRefs role).map RoleMenuRef.id := by
  rw [Table.mem_of_insertStatements_true (insert_permissionRefs role db), Table.mem_deleteWhere,
    ← Bool.not_eq_true, List.contains_iff_mem]

theorem createRolePermissionRefs_ok : createRolePermissionRefs role w = (.ok (), w') ↔
    Serves w.served 2 ∧ w' = ⟨putRefs role w.db,
      setRoleMenus role.id ((permissionRefs role).map RoleMenuRef.menuId) w.memory,
      spend 2 w.served⟩ := by
  have hdelete : ∀ db : RoleDatabase, RoleMenuRefRepository.deleteByIdIn
      ((permissionRefs role).map RoleMenuRef.id) db = .ok ((), { db with
        roleMenuRefs := db.roleMenuRefs.deleteWhere fun ref =>
          ((permissionRefs role).map RoleMenuRef.id).contains ref.id }) := fun _ => rfl
  have hcreate : ∀ db : RoleDatabase, RoleMenuRefRepository.createInBatches (permissionRefs role)
      { db with
        roleMenuRefs := db.roleMenuRefs.deleteWhere fun ref =>
          ((permissionRefs role).map RoleMenuRef.id).contains ref.id } =
      .ok ((), putRefs role db) := by
    intro db
    unfold RoleMenuRefRepository.createInBatches
    simp only [insert_permissionRefs]
    rfl
  constructor
  · intro h
    obtain ⟨u, w₁, h₁, hrest⟩ := Work.bind_ok.mp h
    obtain ⟨v, w₂, h₂, h₃⟩ := Work.bind_ok.mp hrest
    obtain ⟨hs₁, db₁, hdb₁, rfl⟩ := Work.statement_eq_ok.mp h₁
    obtain ⟨hs₂, db₂, hdb₂, rfl⟩ := Work.statement_eq_ok.mp h₂
    rw [hdelete] at hdb₁
    cases hdb₁
    rw [hcreate] at hdb₂
    cases hdb₂
    cases h₃
    exact ⟨serves_add.mpr ⟨hs₁, hs₂⟩, by simp⟩
  · rintro ⟨hserves, rfl⟩
    obtain ⟨hs₁, hs₂⟩ := serves_add.mp (show Serves w.served (1 + 1) from hserves)
    refine Work.bind_ok.mpr ⟨(), _, Work.statement_eq_ok.mpr ⟨hs₁, _, hdelete w.db, rfl⟩, ?_⟩
    refine Work.bind_ok.mpr ⟨(), _, Work.statement_eq_ok.mpr ⟨hs₂, _, hcreate w.db, rfl⟩, ?_⟩
    simp [Work.touch_run]

theorem createRolePermissionRefs_error (h : createRolePermissionRefs role w = (.error e, w')) :
    ¬ Serves w.served 2 ∧ w'.memory = w.memory := by
  refine ⟨fun hserves => ?_, ?_⟩
  · rw [createRolePermissionRefs_ok.mpr ⟨hserves, rfl⟩] at h
    cases h
  · rcases Work.bind_error.mp h with h₁ | ⟨u, w₁, h₁, hrest⟩
    · exact (Work.statement_error h₁).2
    · rcases Work.bind_error.mp hrest with h₂ | ⟨v, w₂, h₂, h₃⟩
      · exact (Work.statement_error h₂).2.trans (Work.statement_ok h₁).2
      · cases h₃

/-! ## Create -/

theorem insert_ok {db db' : RoleDatabase} {u : Unit} :
    RoleRepository.create role db = .ok (u, db') ↔
      ∃ roles, db.roles.insert role = some roles ∧ db' = { db with roles } := by
  unfold RoleRepository.create
  cases db.roles.insert role with
  | some roles => simp [eq_comm]
  | none => simp

theorem createBody_ok (h : createBody role w = (.ok (), w')) : Serves w.served 3 ∧
    ∃ roles, w.db.roles.insert role = some roles ∧ w' = ⟨putRefs role { w.db with roles },
      setRoleMenus role.id ((permissionRefs role).map RoleMenuRef.menuId) w.memory,
      spend 3 w.served⟩ := by
  obtain ⟨u, w₁, h₁, h₂⟩ := Work.bind_ok.mp h
  obtain ⟨hs₁, db, hdb, rfl⟩ := Work.statement_eq_ok.mp h₁
  obtain ⟨roles, hinsert, rfl⟩ := insert_ok.mp hdb
  obtain ⟨hs₂, rfl⟩ := createRolePermissionRefs_ok.mp h₂
  exact ⟨serves_add.mpr ⟨hs₁, hs₂⟩, roles, hinsert, by simp⟩

theorem createBody_error (h : createBody role w = (.error e, w')) : w'.memory = w.memory := by
  rcases Work.bind_error.mp h with h₁ | ⟨u, w₁, h₁, h₂⟩
  · exact (Work.statement_error h₁).2
  · exact (createRolePermissionRefs_error h₂).2.trans (Work.statement_ok h₁).2

theorem create_ok (h : create role w = (.ok (), w')) : Serves w.served 4 ∧
    ∃ roles, w.db.roles.insert role = some roles ∧ w'.db = putRefs role { w.db with roles } ∧
      w'.memory = setRoleMenus role.id ((permissionRefs role).map RoleMenuRef.menuId) w.memory := by
  obtain ⟨w₁, hbody, hcommit, rfl⟩ := Work.transaction_eq_ok.mp h
  obtain ⟨hs, roles, hinsert, rfl⟩ := createBody_ok hbody
  exact ⟨serves_add.mpr ⟨hs, hcommit⟩, roles, hinsert, rfl, rfl⟩

/-- A create that fails before its cache write, or that only its commit could have failed. -/
theorem create_error (h : create role w = (.error e, w'))
    (hok : (∃ r ∈ w.db.roles, r.id = role.id) ∨ ¬ Serves w.served 3 ∨ Serves w.served 4) :
    w'.db = w.db ∧ w'.memory = w.memory := by
  refine ⟨Work.transaction_error h, ?_⟩
  rcases Work.transaction_failed h with ⟨w₁, hbody, hmemory⟩ | ⟨u, w₁, hbody, hcommit, -⟩
  · exact hmemory.trans (createBody_error hbody)
  · obtain ⟨hs, roles, hinsert, rfl⟩ := createBody_ok hbody
    exfalso
    rcases hok with htaken | hserves | hserves
    · rw [Table.insert_eq_none.mpr htaken] at hinsert
      cases hinsert
    · exact hserves hs
    · exact hcommit (serves_add.mp (show Serves w.served (3 + 1) from hserves)).2

/-! ## Update -/

theorem findById_ok {db db' : RoleDatabase} {r : Role} :
    RoleRepository.findById id db = .ok (r, db') ↔ (r ∈ db.roles ∧ r.id = id) ∧ db' = db := by
  unfold RoleRepository.findById
  rw [← Table.findById_eq_some]
  cases db.roles.findById id with
  | some role => simp [eq_comm]
  | none => simp

/-- The tables after a role has been updated. -/
def putRole (role : Role) (id : String) (db : RoleDatabase) : RoleDatabase :=
  putRefs { role with id }
    { db with
      roles := db.roles.updateById id (RoleRepository.assign role) (RoleRepository.assign_id role)
      roleMenuRefs := db.roleMenuRefs.deleteWhere fun ref => ref.roleId == id }

theorem updateBody_ok (h : updateBody role id force w = (.ok (), w')) :
    (∃ r ∈ w.db.roles, r.id = id ∧ (force = true ∨ r.modifiable = true)) ∧ id ≠ "" ∧
      Serves w.served 5 ∧ w' = ⟨putRole role id w.db,
        setRoleMenus id ((permissionRefs { role with id }).map RoleMenuRef.menuId) w.memory,
        spend 5 w.served⟩ := by
  obtain ⟨r, w₁, h₁, hrest⟩ := Work.bind_ok.mp h
  obtain ⟨hs₁, db, hdb, rfl⟩ := Work.statement_eq_ok.mp h₁
  obtain ⟨⟨hr, hid⟩, rfl⟩ := findById_ok.mp hdb
  by_cases hcheck : (!force && !r.modifiable) = true
  · rw [if_pos hcheck] at hrest
    cases hrest
  · rw [if_neg hcheck] at hrest
    obtain ⟨u, w₂, h₂, hrest⟩ := Work.bind_ok.mp hrest
    obtain ⟨v, w₃, h₃, h₄⟩ := Work.bind_ok.mp hrest
    obtain ⟨hs₂, db₂, hdb₂, rfl⟩ := Work.statement_eq_ok.mp h₂
    obtain ⟨hs₃, db₃, hdb₃, rfl⟩ := Work.statement_eq_ok.mp h₃
    unfold RoleRepository.updateById at hdb₂
    by_cases hempty : id = ""
    · rw [if_pos hempty] at hdb₂
      cases hdb₂
    · rw [if_neg hempty] at hdb₂
      cases hdb₂
      cases hdb₃
      obtain ⟨hs₄, rfl⟩ := createRolePermissionRefs_ok.mp h₄
      simp only [spend_spend, Nat.reduceAdd] at hs₂ hs₃ hs₄ ⊢
      have hs : Serves w.served (1 + 1 + 1 + 2) :=
        serves_add.mpr ⟨serves_add.mpr ⟨serves_add.mpr ⟨hs₁, hs₂⟩, hs₃⟩, hs₄⟩
      refine ⟨⟨r, hr, hid, ?_⟩, hempty, hs, rfl⟩
      cases force with
      | true => exact .inl rfl
      | false => exact .inr (by simpa using hcheck)

theorem updateBody_error (h : updateBody role id force w = (.error e, w')) :
    w'.memory = w.memory := by
  rcases Work.bind_error.mp h with h₁ | ⟨r, w₁, h₁, hrest⟩
  · exact (Work.statement_error h₁).2
  · refine Eq.trans ?_ (Work.statement_ok h₁).2
    by_cases hcheck : (!force && !r.modifiable) = true
    · rw [if_pos hcheck] at hrest
      cases hrest
      rfl
    · rw [if_neg hcheck] at hrest
      rcases Work.bind_error.mp hrest with h₂ | ⟨u, w₂, h₂, hrest⟩
      · exact (Work.statement_error h₂).2
      · refine Eq.trans ?_ (Work.statement_ok h₂).2
        rcases Work.bind_error.mp hrest with h₃ | ⟨v, w₃, h₃, h₄⟩
        · exact (Work.statement_error h₃).2
        · exact (createRolePermissionRefs_error h₄).2.trans (Work.statement_ok h₃).2

theorem updateById_ok (h : updateById role id force w = (.ok (), w')) :
    (∃ r ∈ w.db.roles, r.id = id ∧ (force = true ∨ r.modifiable = true)) ∧ id ≠ "" ∧
      Serves w.served 6 ∧ w'.db = putRole role id w.db ∧ w'.memory =
        setRoleMenus id ((permissionRefs { role with id }).map RoleMenuRef.menuId) w.memory := by
  obtain ⟨w₁, hbody, hcommit, rfl⟩ := Work.transaction_eq_ok.mp h
  obtain ⟨hrole, hid, hs, rfl⟩ := updateBody_ok hbody
  exact ⟨hrole, hid, serves_add.mpr ⟨hs, hcommit⟩, rfl, rfl⟩

theorem updateById_error (h : updateById role id force w = (.error e, w'))
    (hok : (∀ r ∈ w.db.roles, r.id = id → force = false ∧ r.modifiable = false) ∨ id = "" ∨
      ¬ Serves w.served 5 ∨ Serves w.served 6) : w'.db = w.db ∧ w'.memory = w.memory := by
  refine ⟨Work.transaction_error h, ?_⟩
  rcases Work.transaction_failed h with ⟨w₁, hbody, hmemory⟩ | ⟨u, w₁, hbody, hcommit, -⟩
  · exact hmemory.trans (updateBody_error hbody)
  · obtain ⟨⟨r, hr, hid, hmodifiable⟩, hne, hs, rfl⟩ := updateBody_ok hbody
    exfalso
    rcases hok with hnone | hempty | hserves | hserves
    · obtain ⟨hforce, hmod⟩ := hnone r hr hid
      rw [hforce, hmod] at hmodifiable
      simp at hmodifiable
    · exact hne hempty
    · exact hserves hs
    · exact hcommit (serves_add.mp (show Serves w.served (5 + 1) from hserves)).2

/-! ## Delete -/

/-- The tables after a role has been deleted. -/
def dropRole (id : String) (db : RoleDatabase) : RoleDatabase :=
  { roles := db.roles.deleteWhere fun role => role.id == id
    roleMenuRefs := db.roleMenuRefs.deleteWhere fun ref => ref.roleId == id
    userRoleRefs := db.userRoleRefs.deleteWhere fun ref => ref.roleId == id }

theorem checkDeletable_ok : checkDeletable id force w = (.ok (), w') ↔
    Serves w.served (RoleState.deleteCost force - 3) ∧ (force = true ∨ w.db.Deletable id) ∧
      w' = { w with served := spend (RoleState.deleteCost force - 3) w.served } := by
  unfold checkDeletable
  cases force with
  | true =>
    have hspend : spend 0 w.served = w.served := by cases w.served <;> rfl
    constructor
    · intro h
      cases h
      exact ⟨serves_zero _, .inl rfl, by rw [show RoleState.deleteCost true - 3 = 0 from rfl, hspend]⟩
    · rintro ⟨-, -, rfl⟩
      rw [show RoleState.deleteCost true - 3 = 0 from rfl, hspend]
      rfl
  | false =>
    show (Work.statement databaseFault (RoleRepository.findById id) >>= fun role =>
      if !role.deletable then Work.fail (.text ("prohibit to delete " ++ role.name))
      else pure ()) w = (.ok (), w') ↔ Serves w.served 1 ∧ _
    constructor
    · intro h
      obtain ⟨r, w₁, h₁, h₂⟩ := Work.bind_ok.mp h
      obtain ⟨hs, db, hdb, rfl⟩ := Work.statement_eq_ok.mp h₁
      obtain ⟨⟨hr, hid⟩, rfl⟩ := findById_ok.mp hdb
      by_cases hdel : r.deletable = true
      · rw [hdel] at h₂
        cases h₂
        exact ⟨hs, .inr ⟨r, hr, hid, hdel⟩, rfl⟩
      · rw [Bool.not_eq_true] at hdel
        rw [hdel] at h₂
        cases h₂
    · rintro ⟨hs, hrole, rfl⟩
      obtain ⟨r, hr, hid, hdel⟩ := hrole.resolve_left nofun
      refine Work.bind_ok.mpr ⟨r, _, Work.statement_eq_ok.mpr
        ⟨hs, w.db, findById_ok.mpr ⟨⟨hr, hid⟩, rfl⟩, rfl⟩, ?_⟩
      rw [hdel]
      rfl

theorem checkDeletable_memory (force : Bool) (id : String) (w : World RoleDatabase RoleMenus) :
    (checkDeletable id force w).2.memory = w.memory := by
  unfold checkDeletable
  cases force with
  | true => rfl
  | false =>
    rcases h : Work.statement databaseFault (RoleRepository.findById id) w with ⟨r, w₁⟩
    show ((Work.statement databaseFault (RoleRepository.findById id) >>= fun role =>
      if !role.deletable then Work.fail (.text ("prohibit to delete " ++ role.name))
      else pure () : RoleWork Unit) w).2.memory = _
    cases r with
    | ok role =>
      rw [Work.bind_run_ok h]
      split
      · exact (Work.statement_ok h).2
      · exact (Work.statement_ok h).2
    | error e =>
      rw [Work.bind_run_error h]
      exact (Work.statement_error h).2

theorem deleteOne_ok : deleteOne force id w = (.ok (), w') ↔
    Serves w.served (RoleState.deleteCost force) ∧ (force = true ∨ w.db.Deletable id) ∧
      w' = ⟨dropRole id w.db, removeRole id w.memory,
        spend (RoleState.deleteCost force) w.served⟩ := by
  have hcost : RoleState.deleteCost force = RoleState.deleteCost force - 3 + 1 + 1 + 1 := by
    cases force <;> rfl
  constructor
  · intro h
    obtain ⟨u₀, w₀, h₀, hrest⟩ := Work.bind_ok.mp h
    obtain ⟨u₁, w₁, h₁, hrest⟩ := Work.bind_ok.mp hrest
    obtain ⟨u₂, w₂, h₂, hrest⟩ := Work.bind_ok.mp hrest
    obtain ⟨u₃, w₃, h₃, h₄⟩ := Work.bind_ok.mp hrest
    obtain ⟨hs₀, hcheck, rfl⟩ := checkDeletable_ok.mp h₀
    obtain ⟨hs₁, db₁, hdb₁, rfl⟩ := Work.statement_eq_ok.mp h₁
    obtain ⟨hs₂, db₂, hdb₂, rfl⟩ := Work.statement_eq_ok.mp h₂
    obtain ⟨hs₃, db₃, hdb₃, rfl⟩ := Work.statement_eq_ok.mp h₃
    cases hdb₁
    cases hdb₂
    cases hdb₃
    cases h₄
    simp only [spend_spend] at hs₁ hs₂ hs₃ ⊢
    have hs : Serves w.served (RoleState.deleteCost force - 3 + 1 + 1 + 1) :=
      serves_add.mpr ⟨serves_add.mpr ⟨serves_add.mpr ⟨hs₀, hs₁⟩, hs₂⟩, hs₃⟩
    rw [← hcost] at hs ⊢
    exact ⟨hs, hcheck, rfl⟩
  · rintro ⟨hs, hcheck, rfl⟩
    rw [hcost] at hs ⊢
    obtain ⟨hs, hs₃⟩ := serves_add.mp hs
    obtain ⟨hs, hs₂⟩ := serves_add.mp hs
    obtain ⟨hs₀, hs₁⟩ := serves_add.mp hs
    rw [← spend_spend] at hs₂ hs₃
    rw [← spend_spend (m := RoleState.deleteCost force - 3)] at hs₃
    refine Work.bind_ok.mpr ⟨(), _, checkDeletable_ok.mpr ⟨hs₀, hcheck, rfl⟩, ?_⟩
    refine Work.bind_ok.mpr ⟨(), _, Work.statement_eq_ok.mpr ⟨hs₁, _, rfl, rfl⟩, ?_⟩
    refine Work.bind_ok.mpr ⟨(), _, Work.statement_eq_ok.mpr ⟨hs₂, _, rfl, rfl⟩, ?_⟩
    refine Work.bind_ok.mpr ⟨(), _, Work.statement_eq_ok.mpr ⟨hs₃, _, rfl, rfl⟩, ?_⟩
    simp [Work.touch_run, dropRole]

theorem deleteOne_error (h : deleteOne force id w = (.error e, w')) : w'.memory = w.memory := by
  have hcheck := checkDeletable_memory force id w
  rcases Work.bind_error.mp h with h₀ | ⟨u₀, w₀, h₀, hrest⟩
  · rw [h₀] at hcheck
    exact hcheck
  · rw [h₀] at hcheck
    refine Eq.trans ?_ hcheck
    rcases Work.bind_error.mp hrest with h₁ | ⟨u₁, w₁, h₁, hrest⟩
    · exact (Work.statement_error h₁).2
    · refine Eq.trans ?_ (Work.statement_ok h₁).2
      rcases Work.bind_error.mp hrest with h₂ | ⟨u₂, w₂, h₂, hrest⟩
      · exact (Work.statement_error h₂).2
      · refine Eq.trans ?_ (Work.statement_ok h₂).2
        rcases Work.bind_error.mp hrest with h₃ | ⟨u₃, w₃, h₃, h₄⟩
        · exact (Work.statement_error h₃).2
        · cases h₄

theorem deletable_dropRole {db : RoleDatabase} {id' : String} (hne : id' ≠ id)
    (h : db.Deletable id') : (dropRole id db).Deletable id' := by
  obtain ⟨r, hr, hid, hdel⟩ := h
  refine ⟨r, Table.mem_deleteWhere.mpr ⟨hr, beq_false_of_ne ?_⟩, hid, hdel⟩
  rw [hid]
  exact hne

/-- The loop goes through when every statement is served and every check passes. -/
theorem each_deleteOne_run (hserves : Serves w.served (RoleState.deleteCost force * ids.length))
    (hcheck : force = true ∨ ids.Nodup ∧ ∀ id ∈ ids, w.db.Deletable id) :
    ∃ w', Work.each (deleteOne force) ids w = (.ok (), w') ∧
      w'.served = spend (RoleState.deleteCost force * ids.length) w.served := by
  induction ids generalizing w with
  | nil =>
    refine ⟨w, rfl, ?_⟩
    cases w.served <;> rfl
  | cons id ids ih =>
    rw [List.length_cons, Nat.mul_add, Nat.mul_one, Nat.add_comm] at hserves
    obtain ⟨hfirst, hrest⟩ := serves_add.mp hserves
    have hcheck₁ : force = true ∨ w.db.Deletable id :=
      hcheck.imp_right fun h => h.2 id List.mem_cons_self
    have hcheck₂ : force = true ∨ ids.Nodup ∧ ∀ i ∈ ids, (dropRole id w.db).Deletable i := by
      refine hcheck.imp_right fun ⟨hnodup, hdel⟩ => ?_
      obtain ⟨hnotMem, hnodup'⟩ := List.nodup_cons.mp hnodup
      refine ⟨hnodup', fun i hi => deletable_dropRole ?_ (hdel i (List.mem_cons_of_mem id hi))⟩
      exact fun h => hnotMem (h ▸ hi)
    have hone := deleteOne_ok.mpr ⟨hfirst, hcheck₁, rfl⟩
    obtain ⟨w', hloop, hserved⟩ := ih (w := ⟨dropRole id w.db, removeRole id w.memory,
      spend (RoleState.deleteCost force) w.served⟩) hrest hcheck₂
    refine ⟨w', Work.bind_ok.mpr ⟨(), _, hone, hloop⟩, ?_⟩
    rw [hserved, spend_spend, List.length_cons, Nat.mul_add, Nat.mul_one, Nat.add_comm]

/-- A deletion that stops at its first round, or that only its commit could have failed. -/
theorem deleteByIds_error (h : deleteByIds ids force w = (.error e, w'))
    (hok : (∀ id ∈ ids.head?, ¬ Serves w.served (RoleState.deleteCost force) ∨
        force = false ∧ ¬ w.db.Deletable id) ∨
      Serves w.served (RoleState.deleteCost force * ids.length + 1) ∧
        (force = true ∨ ids.Nodup ∧ ∀ id ∈ ids, w.db.Deletable id)) :
    w'.db = w.db ∧ w'.memory = w.memory := by
  refine ⟨Work.transaction_error h, ?_⟩
  rcases hok with hfirst | ⟨hserves, hcheck⟩
  · have hbody : (Work.each (deleteOne force) ids w).2.memory = w.memory := by
      cases ids with
      | nil => rfl
      | cons id ids =>
        have hnot : ∀ u w', deleteOne force id w ≠ (.ok u, w') := by
          intro u w' hok
          obtain ⟨hs, hcheck, -⟩ := deleteOne_ok.mp hok
          rcases hfirst id rfl with hserves | ⟨rfl, hdel⟩
          · exact hserves hs
          · exact hdel (hcheck.resolve_left nofun)
        rcases hrun : deleteOne force id w with ⟨r, w₁⟩
        cases r with
        | ok u => exact absurd hrun (hnot u w₁)
        | error e' =>
          show ((deleteOne force id >>= fun _ => Work.each (deleteOne force) ids) w).2.memory = _
          rw [Work.bind_run_error hrun]
          exact deleteOne_error hrun
    rcases Work.transaction_failed h with ⟨w₁, hrun, hmemory⟩ | ⟨u, w₁, hrun, -, hmemory⟩
    · rw [hrun] at hbody
      exact hmemory.trans hbody
    · rw [hrun] at hbody
      exact hmemory.trans hbody
  · -- every statement and the commit are served, so the call cannot have failed
    obtain ⟨hloop, hcommit⟩ := serves_add.mp hserves
    obtain ⟨w₁, hrun, hserved⟩ := each_deleteOne_run hloop hcheck
    have hcommitted : deleteByIds ids force w = (.ok (), { w₁ with served := spend 1 w₁.served }) :=
      Work.transaction_eq_ok.mpr ⟨w₁, hrun, hserved ▸ hcommit, rfl⟩
    rw [hcommitted] at h
    cases h

end RoleService

/-! ## Coherence -/

namespace RoleState

open RoleService

variable {db : RoleDatabase} {m : RoleMenus} {role : Role} {id : String} {s t : RoleState}

/-- Every reference is that of an existing role. -/
def Owned (db : RoleDatabase) : Prop :=
  ∀ ref ∈ db.roleMenuRefs, ∃ role ∈ db.roles, role.id = ref.roleId

/-- What a run keeps. -/
structure Inv (s : RoleState) : Prop where
  owned : Owned s.db
  coherent : s.Coherent

theorem getMenuListByRole_set_self (role : String) (items : List String) (m : RoleMenus) :
    getMenuListByRole (setRoleMenus role items m) role = items := by
  simp [getMenuListByRole, setRoleMenus]

theorem getMenuListByRole_set_of_ne {role id : String} (items : List String) (m : RoleMenus)
    (h : id ≠ role) : getMenuListByRole (setRoleMenus role items m) id = getMenuListByRole m id := by
  simp [getMenuListByRole, setRoleMenus, h]

/-- Writing the references of one role: the menus of that role are the new ones, those of the other
roles stay, when no id of theirs is computed. -/
theorem menus_putRefs
    (hown : ∀ ref ∈ db.roleMenuRefs, ref.roleId ≠ role.id)
    (hother : ∀ ref ∈ db.roleMenuRefs, ∀ menu ∈ role.menus, ref.id ≠ sign [role.id, menu.menuId])
    (id menuId : String) :
    (∃ ref ∈ (putRefs role db).roleMenuRefs, ref.roleId = id ∧ ref.menuId = menuId) ↔
      if id = role.id then menuId ∈ (permissionRefs role).map RoleMenuRef.menuId
      else ∃ ref ∈ db.roleMenuRefs, ref.roleId = id ∧ ref.menuId = menuId := by
  have hfree : ∀ ref ∈ db.roleMenuRefs, ref.id ∉ (permissionRefs role).map RoleMenuRef.id := by
    intro ref href hmem
    obtain ⟨new, hnew, hid⟩ := List.mem_map.mp hmem
    obtain ⟨-, menu, hmenu, hsign⟩ := of_mem_permissionRefs hnew
    exact hother ref href menu hmenu (hid ▸ hsign)
  by_cases hid : id = role.id
  · rw [if_pos hid, List.mem_map]
    constructor
    · rintro ⟨ref, href, hrole, hmenu⟩
      rcases mem_putRefs.mp href with hnew | ⟨hold, -⟩
      · exact ⟨ref, hnew, hmenu⟩
      · exact absurd (hrole.trans hid) (hown ref hold)
    · rintro ⟨ref, hnew, hmenu⟩
      exact ⟨ref, mem_putRefs.mpr (.inl hnew), (of_mem_permissionRefs hnew).1.trans hid.symm, hmenu⟩
  · rw [if_neg hid]
    constructor
    · rintro ⟨ref, href, hrole, hmenu⟩
      rcases mem_putRefs.mp href with hnew | ⟨hold, -⟩
      · exact absurd (hrole.symm.trans (of_mem_permissionRefs hnew).1) hid
      · exact ⟨ref, hold, hrole, hmenu⟩
    · rintro ⟨ref, hold, hrole, hmenu⟩
      exact ⟨ref, mem_putRefs.mpr (.inr ⟨hold, hfree ref hold⟩), hrole, hmenu⟩

theorem owned_putRefs (h : Owned db) (hrole : ∃ r ∈ db.roles, r.id = role.id) :
    Owned (putRefs role db) := by
  intro ref href
  show ∃ r ∈ db.roles, r.id = ref.roleId
  rcases mem_putRefs.mp href with hnew | ⟨hold, -⟩
  · rw [(of_mem_permissionRefs hnew).1]
    exact hrole
  · exact h ref hold

/-- Writing the references and the cache of a role whose old references are gone keeps coherence. -/
theorem coherent_putRefs
    (hmenus : ∀ r ∈ db.roles, r.id ≠ role.id → ∀ menuId,
      menuId ∈ getMenuListByRole m r.id ↔
        ∃ ref ∈ db.roleMenuRefs, ref.roleId = r.id ∧ ref.menuId = menuId)
    (hexist : ∀ id, m id ≠ none → id = role.id ∨ ∃ r ∈ db.roles, r.id = id)
    (hrole : ∃ r ∈ db.roles, r.id = role.id)
    (hown : ∀ ref ∈ db.roleMenuRefs, ref.roleId ≠ role.id)
    (hother : ∀ ref ∈ db.roleMenuRefs, ∀ menu ∈ role.menus, ref.id ≠ sign [role.id, menu.menuId]) :
    Coherent ⟨putRefs role db,
      setRoleMenus role.id ((permissionRefs role).map RoleMenuRef.menuId) m⟩ := by
  constructor
  · intro r hr menuId
    rw [menus_putRefs hown hother]
    by_cases hid : r.id = role.id
    · rw [if_pos hid, hid]
      show menuId ∈ getMenuListByRole (setRoleMenus role.id _ m) role.id ↔ _
      rw [getMenuListByRole_set_self]
    · rw [if_neg hid]
      show menuId ∈ getMenuListByRole (setRoleMenus role.id _ m) r.id ↔ _
      rw [getMenuListByRole_set_of_ne _ _ hid]
      exact hmenus r hr hid menuId
  · intro id hid
    show ∃ r ∈ db.roles, r.id = id
    by_cases heq : id = role.id
    · rw [heq]
      exact hrole
    · have hm : m id ≠ none := by
        have : setRoleMenus role.id ((permissionRefs role).map RoleMenuRef.menuId) m id = m id :=
          if_neg heq
        rw [← this]
        exact hid
      exact (hexist id hm).resolve_left heq

/-- The roles of an update: the same ids, and the other roles as they were. -/
theorem mem_updateRoles {o r : Role}
    (h : r ∈ db.roles.updateById id (RoleRepository.assign o) (RoleRepository.assign_id o))
    (hne : r.id ≠ id) : r ∈ db.roles := by
  rcases Table.mem_updateById _ h with hr | ⟨r', -, hid, rfl⟩
  · exact hr
  · exact absurd hid hne

theorem owned_deleteRefs {roles : Table Role Role.id} (h : Owned db)
    (hroles : ∀ r ∈ db.roles, ∃ r' ∈ roles, r'.id = r.id) (id : String) :
    Owned { db with
      roles
      roleMenuRefs := db.roleMenuRefs.deleteWhere fun ref => ref.roleId == id } := by
  intro ref href
  obtain ⟨r, hr, hid⟩ := h ref (Table.mem_deleteWhere.mp href).1
  obtain ⟨r', hr', hid'⟩ := hroles r hr
  exact ⟨r', hr', hid'.trans hid⟩

theorem owned_create {roles : Table Role Role.id} (h : Owned db)
    (hinsert : db.roles.insert role = some roles) : Owned (putRefs role { db with roles }) := by
  refine owned_putRefs (fun ref href => ?_) ⟨role, (Table.mem_of_insert hinsert).mpr (.inl rfl), rfl⟩
  obtain ⟨r, hr, hid⟩ := h ref href
  exact ⟨r, (Table.mem_of_insert hinsert).mpr (.inr hr), hid⟩

theorem owned_update (h : Owned db) (hrole : ∃ r ∈ db.roles, r.id = id) :
    Owned (putRole role id db) := by
  refine owned_putRefs (owned_deleteRefs h (fun r hr => ?_) id) ?_
  · exact Table.exists_mem_updateById hr _ _ _
  · obtain ⟨r, hr, hid⟩ := hrole
    obtain ⟨r', hr', hid'⟩ := Table.exists_mem_updateById hr id (RoleRepository.assign role)
      (RoleRepository.assign_id role)
    exact ⟨r', hr', hid'.trans hid⟩

/-- A committed create. -/
theorem inv_create {roles : Table Role Role.id} (h : s.Inv)
    (hinsert : s.db.roles.insert role = some roles) (hcollision : s.NoCollision role) :
    Inv ⟨putRefs role { s.db with roles },
      setRoleMenus role.id ((permissionRefs role).map RoleMenuRef.menuId) s.roleMenus⟩ := by
  have hown : ∀ ref ∈ s.db.roleMenuRefs, ref.roleId ≠ role.id := by
    intro ref href hid
    obtain ⟨r, hr, hrid⟩ := h.owned ref href
    rw [Table.insert_eq_none.mpr ⟨r, hr, hrid.trans hid⟩] at hinsert
    cases hinsert
  refine ⟨owned_create h.owned hinsert, coherent_putRefs ?_ ?_ ?_ hown ?_⟩
  · intro r hr hne menuId
    rcases (Table.mem_of_insert hinsert).mp hr with rfl | hr
    · exact absurd rfl hne
    · exact h.coherent.menus r hr menuId
  · intro id hid
    obtain ⟨r, hr, hrid⟩ := h.coherent.exist id hid
    exact .inr ⟨r, (Table.mem_of_insert hinsert).mpr (.inr hr), hrid⟩
  · exact ⟨role, (Table.mem_of_insert hinsert).mpr (.inl rfl), rfl⟩
  · exact fun ref href => hcollision ref href (hown ref href)

/-- A committed update. -/
theorem inv_update (h : s.Inv) (hrole : ∃ r ∈ s.db.roles, r.id = id)
    (hcollision : s.NoCollision { role with id }) :
    Inv ⟨putRole role id s.db,
      setRoleMenus id ((permissionRefs { role with id }).map RoleMenuRef.menuId) s.roleMenus⟩ := by
  have hown : ∀ ref ∈ s.db.roleMenuRefs.deleteWhere fun ref => ref.roleId == id,
      ref.roleId ≠ id := by
    intro ref href
    exact ne_of_beq_false (Table.mem_deleteWhere.mp href).2
  have hroles : ∀ r ∈ s.db.roles, ∃ r' ∈ s.db.roles.updateById id (RoleRepository.assign role)
      (RoleRepository.assign_id role), r'.id = r.id :=
    fun r hr => Table.exists_mem_updateById hr _ _ _
  refine ⟨owned_update h.owned hrole, coherent_putRefs ?_ ?_ ?_ hown ?_⟩
  · intro r hr hne menuId
    rw [h.coherent.menus r (mem_updateRoles hr hne) menuId]
    refine exists_congr fun ref => ?_
    show _ ↔ ref ∈ s.db.roleMenuRefs.deleteWhere _ ∧ _
    rw [Table.mem_deleteWhere]
    constructor
    · rintro ⟨href, hrid, hmenu⟩
      exact ⟨⟨href, beq_false_of_ne (hrid ▸ hne)⟩, hrid, hmenu⟩
    · rintro ⟨⟨href, -⟩, hrid, hmenu⟩
      exact ⟨href, hrid, hmenu⟩
  · intro i hi
    obtain ⟨r, hr, hrid⟩ := h.coherent.exist i hi
    obtain ⟨r', hr', hid'⟩ := hroles r hr
    exact .inr ⟨r', hr', hid'.trans hrid⟩
  · obtain ⟨r, hr, hrid⟩ := hrole
    obtain ⟨r', hr', hid'⟩ := hroles r hr
    exact ⟨r', hr', hid'.trans hrid⟩
  · intro ref href
    exact hcollision ref (Table.mem_deleteWhere.mp href).1 (hown ref href)

theorem owned_dropRole (h : Owned db) (id : String) : Owned (dropRole id db) := by
  intro ref href
  obtain ⟨href, hne⟩ := Table.mem_deleteWhere.mp href
  obtain ⟨r, hr, hid⟩ := h ref href
  exact ⟨r, Table.mem_deleteWhere.mpr ⟨hr, beq_false_of_ne (hid ▸ ne_of_beq_false hne)⟩, hid⟩

/-- A round of a committed deletion. -/
theorem inv_deleteOne (h : s.Inv) (id : String) :
    Inv ⟨dropRole id s.db, removeRole id s.roleMenus⟩ := by
  have hrole : ∀ r ∈ s.db.roles, r.id ≠ id → r ∈ (dropRole id s.db).roles :=
    fun r hr hne => Table.mem_deleteWhere.mpr ⟨hr, beq_false_of_ne hne⟩
  refine ⟨owned_dropRole h.owned id, fun r hr menuId => ?_, fun i hi => ?_⟩
  · obtain ⟨hr, hne⟩ := Table.mem_deleteWhere.mp hr
    have hmenus : getMenuListByRole (removeRole id s.roleMenus) r.id =
        getMenuListByRole s.roleMenus r.id := by
      simp [getMenuListByRole, removeRole, ne_of_beq_false hne]
    show menuId ∈ getMenuListByRole (removeRole id s.roleMenus) r.id ↔ _
    rw [hmenus, h.coherent.menus r hr menuId]
    refine exists_congr fun ref => ?_
    show _ ↔ ref ∈ s.db.roleMenuRefs.deleteWhere _ ∧ _
    rw [Table.mem_deleteWhere]
    constructor
    · rintro ⟨href, hrid, hmenu⟩
      exact ⟨⟨href, hrid ▸ hne⟩, hrid, hmenu⟩
    · rintro ⟨⟨href, -⟩, hrid, hmenu⟩
      exact ⟨href, hrid, hmenu⟩
  · have hne : i ≠ id := by
      intro heq
      exact hi (if_pos heq)
    have hcached : s.roleMenus i ≠ none := by
      have heq : removeRole id s.roleMenus i = s.roleMenus i := if_neg hne
      rw [← heq]
      exact hi
    obtain ⟨r, hr, hid⟩ := h.coherent.exist i hcached
    exact ⟨r, hrole r hr (hid ▸ hne), hid⟩

theorem inv_deleteByIds {w w' : World RoleDatabase RoleMenus} {ids : List String} {force : Bool}
    (h : Inv ⟨w.db, w.memory⟩) (hrun : Work.each (deleteOne force) ids w = (.ok (), w')) :
    Inv ⟨w'.db, w'.memory⟩ := by
  refine Work.each_ok_keeps (I := fun w => Inv ⟨w.db, w.memory⟩) (fun id _ w w₁ hw hone => ?_) h hrun
  obtain ⟨-, -, rfl⟩ := deleteOne_ok.mp hone
  exact inv_deleteOne hw id

theorem owned_each_deleteOne {w w' : World RoleDatabase RoleMenus} {ids : List String}
    {force : Bool} (h : Owned w.db) (hrun : Work.each (deleteOne force) ids w = (.ok (), w')) :
    Owned w'.db := by
  refine Work.each_ok_keeps (I := fun w => Owned w.db) (fun id _ w w₁ hw hone => ?_) h hrun
  obtain ⟨-, -, rfl⟩ := deleteOne_ok.mp hone
  exact owned_dropRole hw id

/-! ## Starting -/

section Start

variable {w w' : World RoleDatabase RoleMenus}

/-- What the default roles keep, on a database that does not fail. -/
structure Starting (w : World RoleDatabase RoleMenus) : Prop where
  served : w.served = none
  owned : Owned w.db
  exist : ∀ id, w.memory id ≠ none → ∃ role ∈ w.db.roles, role.id = id

theorem create_run {roles : Table Role Role.id} (hw : w.served = none)
    (hinsert : w.db.roles.insert role = some roles) : ∃ w', create role w = (.ok (), w') := by
  have hbody : createBody role w = (.ok (), _) :=
    Work.bind_ok.mpr ⟨(), _, Work.statement_eq_ok.mpr
      ⟨hw ▸ serves_none 1, _, insert_ok.mpr ⟨roles, hinsert, rfl⟩, rfl⟩,
      createRolePermissionRefs_ok.mpr ⟨by rw [hw]; exact serves_none 2, rfl⟩⟩
  exact ⟨_, Work.transaction_eq_ok.mpr ⟨_, hbody, by rw [hw]; exact serves_none 1, rfl⟩⟩

theorem update_run {r : Role} (hw : w.served = none) (hr : r ∈ w.db.roles) (hid : r.id = id)
    (hne : id ≠ "") : ∃ w', updateById role id true w = (.ok (), w') := by
  have hbody : ∃ w₁, updateBody role id true w = (.ok (), w₁) ∧ w₁.served = none := by
    refine ⟨⟨putRole role id w.db, setRoleMenus id
      ((permissionRefs { role with id }).map RoleMenuRef.menuId) w.memory, none⟩, ?_, rfl⟩
    refine Work.bind_ok.mpr ⟨r, w, Work.statement_run (findById_ok.mpr ⟨⟨hr, hid⟩, rfl⟩) hw, ?_⟩
    refine Work.bind_ok.mpr ⟨(), _, Work.statement_run (if_neg hne) hw, ?_⟩
    refine Work.bind_ok.mpr ⟨(), _, Work.statement_run rfl hw, ?_⟩
    refine createRolePermissionRefs_ok.mpr ⟨by rw [hw]; exact serves_none 2, ?_⟩
    simp only [hw, spend_none]
    rfl
  obtain ⟨w₁, hbody, hserved⟩ := hbody
  exact ⟨_, Work.transaction_run hbody hserved⟩

theorem served_of_create (hw : w.served = none) (h : create role w = (.ok (), w')) :
    w'.served = none := by
  obtain ⟨w₁, hbody, -, rfl⟩ := Work.transaction_eq_ok.mp h
  obtain ⟨-, roles, -, rfl⟩ := createBody_ok hbody
  simp [hw]

theorem served_of_update (hw : w.served = none) (h : updateById role id true w = (.ok (), w')) :
    w'.served = none := by
  obtain ⟨w₁, hbody, -, rfl⟩ := Work.transaction_eq_ok.mp h
  obtain ⟨-, -, -, rfl⟩ := updateBody_ok hbody
  simp [hw]

/-- The cache of a role is set to its new menus, so a cached role exists if it did before. -/
theorem exist_set {items : List String} {roles : Table Role Role.id}
    (hexist : ∀ i, m i ≠ none → ∃ r ∈ roles, r.id = i) (hid : ∃ r ∈ roles, r.id = id) :
    ∀ i, setRoleMenus id items m i ≠ none → ∃ r ∈ roles, r.id = i := by
  intro i hi
  by_cases heq : i = id
  · rw [heq]
    exact hid
  · refine hexist i ?_
    have hm : setRoleMenus id items m i = m i := if_neg heq
    rw [← hm]
    exact hi

theorem createDefaultRole_run (hw : Starting w) (hne : role.id ≠ "") :
    ∃ w', createDefaultRole role w = (.ok (), w') ∧ Starting w' := by
  have hread : (Work.statement databaseFault fun db => .ok (RoleRepository.existsById role.id db, db) :
      RoleWork Bool) w = (.ok (RoleRepository.existsById role.id w.db), w) :=
    Work.statement_run rfl hw.served
  unfold createDefaultRole
  rw [Work.bind_run_ok hread]
  by_cases hexist : RoleRepository.existsById role.id w.db = true
  · rw [if_pos hexist]
    obtain ⟨r, hr, hid⟩ := List.any_eq_true.mp hexist
    have hid' : r.id = role.id := eq_of_beq hid
    obtain ⟨w', h⟩ := @update_run role _ _ _ hw.served hr hid' hne
    obtain ⟨hrole, -, -, hdb, hmemory⟩ := updateById_ok h
    refine ⟨w', h, served_of_update hw.served h, ?_, ?_⟩
    · rw [hdb]
      exact owned_update hw.owned ⟨r, hr, hid'⟩
    · rw [hdb, hmemory]
      refine exist_set (fun i hi => ?_) ?_
      · obtain ⟨r₁, hr₁, hid₁⟩ := hw.exist i hi
        obtain ⟨r₂, hr₂, hid₂⟩ := Table.exists_mem_updateById hr₁ role.id
          (RoleRepository.assign role) (RoleRepository.assign_id role)
        exact ⟨r₂, hr₂, hid₂.trans hid₁⟩
      · obtain ⟨r₂, hr₂, hid₂⟩ := Table.exists_mem_updateById hr role.id
          (RoleRepository.assign role) (RoleRepository.assign_id role)
        exact ⟨r₂, hr₂, hid₂.trans hid'⟩
  · rw [if_neg hexist]
    cases hinsert : w.db.roles.insert role with
    | none =>
      obtain ⟨r, hr, hid⟩ := Table.insert_eq_none.mp hinsert
      have hany : RoleRepository.existsById role.id w.db = true :=
        List.any_eq_true.mpr ⟨r, hr, beq_iff_eq.mpr hid⟩
      exact absurd hany hexist
    | some roles =>
      obtain ⟨w', h⟩ := create_run hw.served hinsert
      obtain ⟨-, roles', hinsert', hdb, hmemory⟩ := create_ok h
      obtain rfl : roles = roles' := Option.some.inj (hinsert.symm.trans hinsert')
      have hmem := fun r => Table.mem_of_insert (b := r) hinsert
      refine ⟨w', h, served_of_create hw.served h, ?_, ?_⟩
      · rw [hdb]
        exact owned_create hw.owned hinsert
      · rw [hdb, hmemory]
        refine exist_set (fun i hi => ?_) ⟨role, (hmem role).mpr (.inl rfl), rfl⟩
        obtain ⟨r, hr, hid⟩ := hw.exist i hi
        exact ⟨r, (hmem r).mpr (.inr hr), hid⟩

theorem each_createDefaultRole_run {roles : List Role} (hw : Starting w)
    (hne : ∀ role ∈ roles, role.id ≠ "") :
    ∃ w', Work.each createDefaultRole roles w = (.ok (), w') ∧ Starting w' := by
  induction roles generalizing w with
  | nil => exact ⟨w, rfl, hw⟩
  | cons role roles ih =>
    obtain ⟨w₁, hone, hw₁⟩ := createDefaultRole_run hw (hne role List.mem_cons_self)
    obtain ⟨w', hrest, hw'⟩ := ih hw₁ fun r hr => hne r (List.mem_cons_of_mem role hr)
    exact ⟨w', Work.bind_ok.mpr ⟨(), w₁, hone, hrest⟩, hw'⟩

theorem defaultRoles_ne : ∀ role ∈ defaultRoles, role.id ≠ "" := by
  intro role hrole
  simp only [defaultRoles, List.mem_cons, List.not_mem_nil, or_false] at hrole
  rcases hrole with rfl | rfl | rfl <;> simp

/-- The menus that `Init` loads for a role. -/
def storedMenus (db : RoleDatabase) (id : String) : List String :=
  (RoleMenuRefRepository.findByRoleId id db).map RoleMenuRef.menuId

theorem mem_storedMenus {menuId : String} : menuId ∈ storedMenus db id ↔
    ∃ ref ∈ db.roleMenuRefs, ref.roleId = id ∧ ref.menuId = menuId := by
  unfold storedMenus RoleMenuRefRepository.findByRoleId
  rw [List.mem_map]
  refine exists_congr fun ref => ?_
  rw [Table.mem_select, beq_iff_eq, and_assoc]

/-- The last loop of `Init` sets the menus of every role and reads only. -/
theorem each_loadRole_run {roles : List Role} (hw : w.served = none) :
    ∃ memory, Work.each loadRole roles w = (.ok (), { w with memory }) ∧
      (∀ role ∈ roles, memory role.id = some (storedMenus w.db role.id)) ∧
      ∀ id, (∀ role ∈ roles, role.id ≠ id) → memory id = w.memory id := by
  induction roles generalizing w with
  | nil => exact ⟨w.memory, rfl, nofun, fun _ _ => rfl⟩
  | cons role roles ih =>
    have hone : loadRole role w =
        (.ok (), { w with memory := setRoleMenus role.id (storedMenus w.db role.id) w.memory }) :=
      (Work.bind_run_ok (Work.statement_run rfl hw)).trans rfl
    obtain ⟨memory, hrest, hset, hkeep⟩ :=
      ih (w := { w with memory := setRoleMenus role.id (storedMenus w.db role.id) w.memory }) hw
    refine ⟨memory, Work.bind_ok.mpr ⟨(), _, hone, hrest⟩, fun r hr => ?_, fun id hid => ?_⟩
    · by_cases hlater : ∃ r' ∈ roles, r'.id = r.id
      · obtain ⟨r', hr', hid⟩ := hlater
        rw [← hid]
        exact hset r' hr'
      · rcases List.mem_cons.mp hr with rfl | hr
        · rw [hkeep r.id fun r' hr' hid => hlater ⟨r', hr', hid⟩]
          exact if_pos rfl
        · exact absurd ⟨r, hr, rfl⟩ hlater
    · rw [hkeep id fun r hr => hid r (List.mem_cons_of_mem role hr)]
      exact if_neg (hid role List.mem_cons_self).symm

/-- A start builds the cache from the tables. -/
theorem inv_start (h : Owned s.db) : Inv (s.step .start) := by
  have hw : Starting ⟨s.db, fun _ => none, none⟩ := ⟨rfl, h, fun _ hid => absurd rfl hid⟩
  obtain ⟨w₁, hdefault, hw₁⟩ := each_createDefaultRole_run hw defaultRoles_ne
  obtain ⟨memory, hload, hset, hkeep⟩ := @each_loadRole_run w₁ w₁.db.roles.rows hw₁.served
  have hinit : init ⟨s.db, fun _ => none, none⟩ = (.ok (), { w₁ with memory }) := by
    refine (Work.bind_run_ok hdefault).trans ?_
    exact (Work.bind_run_ok (Work.statement_run rfl hw₁.served)).trans hload
  have hstep : s.step .start = ⟨w₁.db, memory⟩ := by
    rw [RoleState.step, RoleState.run, hinit]
  rw [hstep]
  refine ⟨hw₁.owned, fun role hrole menuId => ?_, fun id hid => ?_⟩
  · show menuId ∈ (memory role.id).getD [] ↔ _
    rw [hset role hrole, Option.getD_some, mem_storedMenus]
  · by_contra hnone
    have hno : ∀ role ∈ w₁.db.roles.rows, role.id ≠ id := fun role hrole heq =>
      hnone ⟨role, hrole, heq⟩
    refine hnone (hw₁.exist id ?_)
    rw [← hkeep id hno]
    exact hid

end Start

/-! ## Runs -/

variable {c : RoleCall}

/-- No call leaves a reference without its role, whatever the database does. -/
theorem owned_step (h : Owned s.db) : Owned (s.step c).db := by
  cases c with
  | create role served =>
    show Owned (RoleService.create role ⟨s.db, s.roleMenus, served⟩).2.db
    rcases hrun : RoleService.create role ⟨s.db, s.roleMenus, served⟩ with ⟨r, w'⟩
    cases r with
    | ok u =>
      obtain ⟨-, roles, hinsert, hdb, -⟩ := create_ok hrun
      show Owned w'.db
      rw [hdb]
      exact owned_create h hinsert
    | error e =>
      show Owned w'.db
      rw [Work.transaction_error hrun]
      exact h
  | updateById role id force served =>
    show Owned (RoleService.updateById role id force ⟨s.db, s.roleMenus, served⟩).2.db
    rcases hrun : RoleService.updateById role id force ⟨s.db, s.roleMenus, served⟩ with ⟨r, w'⟩
    cases r with
    | ok u =>
      obtain ⟨⟨r, hr, hid, -⟩, -, -, hdb, -⟩ := updateById_ok hrun
      show Owned w'.db
      rw [hdb]
      exact owned_update h ⟨r, hr, hid⟩
    | error e =>
      show Owned w'.db
      rw [Work.transaction_error hrun]
      exact h
  | deleteByIds ids force served =>
    show Owned (RoleService.deleteByIds ids force ⟨s.db, s.roleMenus, served⟩).2.db
    rcases hrun : RoleService.deleteByIds ids force ⟨s.db, s.roleMenus, served⟩ with ⟨r, w'⟩
    cases r with
    | ok u =>
      obtain ⟨w₁, hbody, -, rfl⟩ := Work.transaction_eq_ok.mp hrun
      show Owned w₁.db
      exact owned_each_deleteOne (w := ⟨s.db, s.roleMenus, served⟩) h hbody
    | error e =>
      show Owned w'.db
      rw [Work.transaction_error hrun]
      exact h
  | start => exact (inv_start h).owned

/-- **One step**: a call that meets the condition keeps coherence. -/
theorem inv_step (h : s.Inv) (hok : s.Ok c) : (s.step c).Inv := by
  cases c with
  | create role served =>
    show Inv ⟨(RoleService.create role ⟨s.db, s.roleMenus, served⟩).2.db,
      (RoleService.create role ⟨s.db, s.roleMenus, served⟩).2.memory⟩
    rcases hrun : RoleService.create role ⟨s.db, s.roleMenus, served⟩ with ⟨r, w'⟩
    cases r with
    | ok u =>
      obtain ⟨hserves, roles, hinsert, hdb, hmemory⟩ := create_ok hrun
      have hcollision : s.NoCollision role := by
        rcases hok with htaken | hnot | ⟨-, hcollision⟩
        · rw [Table.insert_eq_none.mpr htaken] at hinsert
          cases hinsert
        · exact absurd (serves_add.mp (show Serves served (3 + 1) from hserves)).1 hnot
        · exact hcollision
      show Inv ⟨w'.db, w'.memory⟩
      rw [hdb, hmemory]
      exact inv_create h hinsert hcollision
    | error e =>
      obtain ⟨hdb, hmemory⟩ := create_error hrun (hok.imp_right fun h => h.imp_right And.left)
      show Inv ⟨w'.db, w'.memory⟩
      rw [hdb, hmemory]
      exact h
  | updateById role id force served =>
    show Inv ⟨(RoleService.updateById role id force ⟨s.db, s.roleMenus, served⟩).2.db,
      (RoleService.updateById role id force ⟨s.db, s.roleMenus, served⟩).2.memory⟩
    rcases hrun : RoleService.updateById role id force ⟨s.db, s.roleMenus, served⟩ with ⟨r, w'⟩
    cases r with
    | ok u =>
      obtain ⟨⟨r, hr, hid, hforce⟩, hne, hserves, hdb, hmemory⟩ := updateById_ok hrun
      have hcollision : s.NoCollision { role with id } := by
        rcases hok with hnone | hempty | hnot | ⟨-, hcollision⟩
        · obtain ⟨rfl, hmod⟩ := hnone r hr hid
          rw [hmod] at hforce
          simp at hforce
        · exact absurd hempty hne
        · exact absurd (serves_add.mp (show Serves served (5 + 1) from hserves)).1 hnot
        · exact hcollision
      show Inv ⟨w'.db, w'.memory⟩
      rw [hdb, hmemory]
      exact inv_update h ⟨r, hr, hid⟩ hcollision
    | error e =>
      obtain ⟨hdb, hmemory⟩ := updateById_error hrun
        (hok.imp_right fun h => h.imp_right fun h => h.imp_right And.left)
      show Inv ⟨w'.db, w'.memory⟩
      rw [hdb, hmemory]
      exact h
  | deleteByIds ids force served =>
    show Inv ⟨(RoleService.deleteByIds ids force ⟨s.db, s.roleMenus, served⟩).2.db,
      (RoleService.deleteByIds ids force ⟨s.db, s.roleMenus, served⟩).2.memory⟩
    rcases hrun : RoleService.deleteByIds ids force ⟨s.db, s.roleMenus, served⟩ with ⟨r, w'⟩
    cases r with
    | ok u =>
      obtain ⟨w₁, hbody, -, rfl⟩ := Work.transaction_eq_ok.mp hrun
      show Inv ⟨w₁.db, w₁.memory⟩
      exact inv_deleteByIds (w := ⟨s.db, s.roleMenus, served⟩) h hbody
    | error e =>
      obtain ⟨hdb, hmemory⟩ := deleteByIds_error hrun hok
      show Inv ⟨w'.db, w'.memory⟩
      rw [hdb, hmemory]
      exact h
  | start => exact inv_start h.owned

/-- A run of calls. -/
abbrev Reaches (ok : RoleState → RoleCall → Prop) : RoleState → RoleState → Prop :=
  Transition.Reaches (fun s c => some (step s c)) ok

theorem owned_of_reaches (h : Reaches Transition.Any {} s) : Owned s.db := by
  have hstep : ∀ s c t, Owned s.db → Transition.Any s c → some (step s c) = some t →
      Owned t.db := by
    intro s c t hs _ hst
    obtain rfl := Option.some.inj hst
    exact owned_step hs
  exact Transition.Reaches.invariant (I := fun s => Owned s.db) hstep h
    fun ref href => absurd href List.not_mem_nil

/-- **Coherence of the role menus.** From every start of the server, whatever happened before it, the
cache holds what the tables hold as long as every call meets the condition. -/
theorem coherent_of_reaches {s₀ : RoleState} (h₀ : Reaches Transition.Any {} s₀)
    (h : Reaches Ok (s₀.step .start) s) : s.Coherent := by
  have hstep : ∀ s c t, Inv s → Ok s c → some (step s c) = some t → Inv t := by
    intro s c t hs hok hst
    obtain rfl := Option.some.inj hst
    exact inv_step hs hok
  exact (Transition.Reaches.invariant (I := Inv) hstep h (inv_start (owned_of_reaches h₀))).coherent

/-! ## Two runs -/

def opsRole : Role := { id := "r1", name := "ops", type := "new", deletable := true, modifiable := true }

/-- After a start: create a role, fail to delete it, delete it. -/
theorem opsRun_reaches : Reaches Ok (({} : RoleState).step .start)
    (((({} : RoleState).step .start).step (.create opsRole none)).step
      (.deleteByIds ["r1"] true (some 4))) := by
  have hcreate : Ok (({} : RoleState).step .start) (.create opsRole none) :=
    .inr (.inr ⟨serves_none 4, fun _ _ _ _ hmenu => absurd hmenu List.not_mem_nil⟩)
  have hdelete : Ok ((({} : RoleState).step .start).step (.create opsRole none))
      (.deleteByIds ["r1"] true (some 4)) := .inr ⟨by decide, .inl rfl⟩
  exact .head hcreate rfl (.head hdelete rfl (.refl _))

theorem coherent_of_reaches_opsRun :
    (((({} : RoleState).step .start).step (.create opsRole none)).step
      (.deleteByIds ["r1"] true (some 4))).Coherent :=
  coherent_of_reaches (.refl _) opsRun_reaches

/-- A role with a menu and a protected role are created, then both are to be deleted. -/
def protectedRun : RoleState :=
  ((({} : RoleState).step (.create { opsRole with menus := [{ menuId := "dashboard" }] } none)).step
    (.create { id := "system-administrator", name := "系统管理员", type := "default" } none)).step
    (.deleteByIds ["r1", "system-administrator"] false none)

/-- The deletion is rolled back, but the menus of the first role are gone from the cache. -/
theorem not_coherent_protectedRun : ¬ ∀ s, Reaches Transition.Any {} s → s.Coherent := by
  intro h
  have hreaches : Reaches Transition.Any {} protectedRun :=
    .head (a := .create { opsRole with menus := [{ menuId := "dashboard" }] } none) trivial rfl
      (.head (a := .create { id := "system-administrator", name := "系统管理员", type := "default" }
        none) trivial rfl
        (.head (a := .deleteByIds ["r1", "system-administrator"] false none) trivial rfl (.refl _)))
  have hrows : (protectedRun.db.roles.rows.any fun role => role.id == "r1") = true ∧
      (protectedRun.db.roleMenuRefs.rows.any fun ref =>
        ref.roleId == "r1" && ref.menuId == "dashboard") = true ∧
      RoleService.getMenuListByRole protectedRun.roleMenus "r1" = [] := by
    decide
  obtain ⟨hrole, href, hcache⟩ := hrows
  obtain ⟨role, hrole, hid⟩ := List.any_eq_true.mp hrole
  obtain ⟨ref, href, hmenu⟩ := List.any_eq_true.mp href
  rw [beq_iff_eq] at hid
  rw [Bool.and_eq_true, beq_iff_eq, beq_iff_eq] at hmenu
  have hmem := ((h _ hreaches).menus role hrole "dashboard").mpr
    ⟨ref, href, hmenu.1.trans hid.symm, hmenu.2⟩
  rw [hid, hcache] at hmem
  exact List.not_mem_nil hmem

end RoleState

end NextDBM
