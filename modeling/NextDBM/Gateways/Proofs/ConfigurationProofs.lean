import NextDBM.Gateways.Configuration

/-!
# Proofs: gateways in memory are copies of rows

A call either leaves a gateway in memory and its row alone, or makes a copy of a row that is in the table
after the call; an update does so exactly when its body covers the row (`held_assign_iff`).
-/

namespace NextDBM

open Relational Transition

section Copies

variable {m r : AccessGateway} {manager : GatewayManager} {rows : GatewayRows} {g : HeldGateway}
  {id : String}

theorem mem_add : g ∈ manager.add m ↔ g = m.held ∨ g ∈ manager ∧ g.id ≠ m.id := Table.mem_put

theorem mem_del : g ∈ manager.del id ↔ g ∈ manager ∧ g.id ≠ id := by
  unfold GatewayManager.del
  rw [Table.mem_deleteWhere, beq_eq_false_iff_ne]

/-- An empty field keeps the column; the other ones are written. -/
theorem nonZero_eq_left_iff {new old : String} : nonZero new old = new ↔ (new = "" → old = "") := by
  unfold nonZero
  by_cases hnew : new = ""
  · rw [if_pos hnew, hnew]
    exact ⟨fun h _ => h, fun h => h rfl⟩
  · rw [if_neg hnew]
    exact iff_of_true rfl fun h => absurd h hnew

theorem port_eq_left_iff {new old : Int} :
    (if new = 0 then old else new) = new ↔ (new = 0 → old = 0) := by
  by_cases hnew : new = 0
  · rw [if_pos hnew, hnew]
    exact ⟨fun h _ => h, fun h => h rfl⟩
  · rw [if_neg hnew]
    exact iff_of_true rfl fun h => absurd h hnew

/-- The copy of a body is the copy of the row that it leaves exactly when the body covers the row. -/
theorem held_assign_iff (item r : AccessGateway) :
    (GatewayRepository.assign item r).held = { item with id := r.id : AccessGateway }.held ↔
      item.Covers r := by
  have hfields : (GatewayRepository.assign item r).held =
      { item with id := r.id : AccessGateway }.held ↔
      nonZero item.gatewayType r.gatewayType = item.gatewayType ∧ nonZero item.ip r.ip = item.ip ∧
      (if item.port = 0 then r.port else item.port) = item.port ∧
      nonZero item.username r.username = item.username ∧
      nonZero item.password r.password = item.password ∧
      nonZero item.privateKey r.privateKey = item.privateKey ∧
      nonZero item.passphrase r.passphrase = item.passphrase := by
    unfold AccessGateway.held GatewayRepository.assign
    rw [HeldGateway.mk.injEq]
    exact and_iff_right rfl
  rw [hfields]
  simp only [nonZero_eq_left_iff, port_eq_left_iff]
  constructor
  · rintro ⟨htype, hip, hport, husername, hpassword, hkey, hpassphrase⟩
    exact ⟨htype, hip, hport, husername, hpassword, hkey, hpassphrase⟩
  · intro h
    exact ⟨h.gatewayType, h.ip, h.port, h.username, h.password, h.privateKey, h.passphrase⟩

/-- The row of an id after an update. -/
theorem mem_updated_iff {item r' : AccessGateway} (hid : r'.id = id) :
    r' ∈ rows.updateById id (GatewayRepository.assign item) (GatewayRepository.assign_id item) ↔
      ∃ r ∈ rows, r.id = id ∧ r' = GatewayRepository.assign item r := by
  constructor
  · intro h
    exact Table.exists_of_mem_updateById (GatewayRepository.assign_id item) h hid
  · rintro ⟨r, hr, hrid, rfl⟩
    exact List.mem_map.mpr ⟨r, hr, if_pos hrid⟩

end Copies

namespace GatewaySystem

variable {s t : GatewaySystem} {m item : AccessGateway} {id uuid : String} {served : Bool}

theorem mem_reLoad {g : HeldGateway} :
    g ∈ (s.reLoad m).manager ↔ g = m.held ∨ g ∈ s.manager ∧ g.id ≠ m.id := by
  show g ∈ (s.manager.del m.id).add m ↔ _
  rw [mem_add, mem_del]
  constructor
  · rintro (h | ⟨h, -⟩)
    · exact .inl h
    · exact .inr h
  · rintro (h | h)
    · exact .inl h
    · exact .inr ⟨h, h.2⟩

/-- A reload of a row keeps the copies of the other ids. -/
theorem Coherent.reLoad (hrow : ∃ r ∈ s.rows, r.held = m.held)
    (h : ∀ g ∈ s.manager, g.id ≠ m.id → ∃ r ∈ s.rows, r.held = g) : (s.reLoad m).Coherent := by
  intro g hg
  rcases mem_reLoad.mp hg with rfl | ⟨hg, hne⟩
  · exact hrow
  · exact h g hg hne

theorem Coherent.create (h : s.Coherent) : (s.create item uuid served).Coherent := by
  unfold GatewaySystem.create GatewayRepository.create
  dsimp only
  split
  · exact h
  · cases hinsert : s.rows.insert { item with id := uuid } with
    | none => exact h
    | some rows =>
      refine Coherent.reLoad ⟨_, (Table.mem_of_insert hinsert).mpr (.inl rfl), rfl⟩ fun g hg _ => ?_
      obtain ⟨r, hr, hheld⟩ := h g hg
      exact ⟨r, (Table.mem_of_insert hinsert).mpr (.inr hr), hheld⟩

theorem Coherent.update (h : s.Coherent) (hok : s.CoversRow (.update id item served)) :
    (s.update id item served).Coherent := by
  unfold GatewaySystem.update GatewayRepository.updateById
  by_cases hserved : served = true
  · rw [hserved, Bool.not_true, if_neg Bool.false_ne_true]
    by_cases hid : id = ""
    · rw [if_pos hid]
      exact h
    · rw [if_neg hid]
      obtain ⟨r, hr, hrid, hcovers⟩ := hok hserved hid
      refine Coherent.reLoad ?_ fun g hg hne => ?_
      · have hrid' : (GatewayRepository.assign item r).id = id := hrid
        refine ⟨_, (mem_updated_iff hrid').mpr ⟨r, hr, hrid, rfl⟩, ?_⟩
        rw [(held_assign_iff item r).mpr hcovers, hrid]
      · obtain ⟨r', hr', hheld⟩ := h g hg
        have hne' : r'.id ≠ id := fun heq => hne (by rw [← hheld]; exact heq)
        exact ⟨r', Table.mem_updateById_of_ne hr' hne' _ (GatewayRepository.assign_id item), hheld⟩
  · rw [Bool.not_eq_true] at hserved
    rw [hserved, Bool.not_false, if_pos rfl]
    exact h

theorem Coherent.deleteParts {served : Nat → Bool} (h : s.Coherent) (parts : List (String × Nat)) :
    (GatewaySystem.deleteParts served s parts).Coherent := by
  induction parts generalizing s with
  | nil => exact h
  | cons part parts ih =>
    obtain ⟨id, i⟩ := part
    unfold GatewaySystem.deleteParts
    split
    · exact h
    · refine ih fun g hg => ?_
      obtain ⟨hg, hne⟩ := mem_del.mp hg
      obtain ⟨r, hr, hheld⟩ := h g hg
      refine ⟨r, Table.mem_deleteWhere.mpr ⟨hr, beq_eq_false_iff_ne.mpr fun heq => hne ?_⟩, hheld⟩
      rw [← hheld]
      exact heq

theorem Coherent.getGatewayById (h : s.Coherent) : (s.getGatewayById id served).Coherent := by
  unfold GatewaySystem.getGatewayById
  split
  · exact h
  · cases hfind : s.rows.findById id with
    | none => exact h
    | some r =>
      exact Coherent.reLoad ⟨r, (Table.findById_eq_some.mp hfind).1, rfl⟩ fun g hg _ => h g hg

theorem Coherent.loadAll (h : s.Coherent) : (s.loadAll served).Coherent := by
  have hfold : ∀ rs : List AccessGateway, (∀ r ∈ rs, r ∈ s.rows) → ∀ u : GatewaySystem,
      u.rows = s.rows → u.Coherent → (rs.foldl GatewaySystem.reLoad u).Coherent := by
    intro rs
    induction rs with
    | nil => exact fun _ u _ hu => hu
    | cons r rs ih =>
      intro hrs u hrows hu
      obtain ⟨hr, hrs⟩ := List.forall_mem_cons.mp hrs
      exact ih hrs (u.reLoad r) hrows
        (Coherent.reLoad ⟨r, hrows ▸ hr, rfl⟩ fun g hg _ => hu g hg)
  unfold GatewaySystem.loadAll
  split
  · exact hfold s.rows.rows (fun _ hr => hr) s rfl h
  · exact h

theorem Coherent.call {c : GatewayCall} (h : s.Coherent) (hok : s.CoversRow c) :
    (s.call c).Coherent := by
  cases c with
  | create item uuid served => exact h.create
  | update id item served => exact h.update hok
  | delete id served => exact h.deleteParts _
  | getGatewayById id served => exact h.getGatewayById
  | loadAll served => exact h.loadAll

/-- **Coherence.** In every run whose updates are of rows and cover them, every gateway in memory is the
copy of a row. -/
theorem held_coherent_of_reaches {rows : GatewayRows} (h : Reaches step CoversRow { rows } s) :
    s.Coherent := by
  refine h.invariant (fun s c t hs hok hstep => ?_) fun g hg => absurd hg List.not_mem_nil
  obtain rfl := Option.some.inj hstep
  exact hs.call hok

/-- The condition is exact: any other update that is served leaves a gateway in memory that is the copy
of no row. -/
theorem not_coherent_update (hok : ¬ s.CoversRow (.update id item served)) :
    ¬ (s.call (.update id item served)).Coherent := by
  intro h
  refine hok fun hserved hid => ?_
  have hcall : s.call (.update id item served) =
      GatewaySystem.reLoad ⟨s.rows.updateById id (GatewayRepository.assign item)
        (GatewayRepository.assign_id item), s.manager⟩ { item with id } := by
    show s.update id item served = _
    unfold GatewaySystem.update GatewayRepository.updateById
    rw [hserved, Bool.not_true, if_neg Bool.false_ne_true, if_neg hid]
  rw [hcall] at h
  obtain ⟨r', hr', hheld⟩ := h _ (mem_reLoad.mpr (.inl rfl))
  have hid' : r'.id = id := congrArg HeldGateway.id hheld
  obtain ⟨r, hr, hrid, rfl⟩ := (mem_updated_iff hid').mp hr'
  refine ⟨r, hr, hrid, (held_assign_iff item r).mp ?_⟩
  rw [hheld, hrid]

/-- A gateway is created, its row gets another address, it is opened, and it is deleted. -/
def editedRun : List GatewayCall :=
  [.create { name := "dmz", ip := "10.0.0.1", port := 22, username := "root" } "g1" true,
    .update "g1" { name := "dmz", ip := "10.0.0.2", port := 22, username := "root" } true,
    .getGatewayById "g1" true, .create { ip := "10.0.0.3" } "g2" true, .delete "g1,g3" fun _ => true]

theorem coherent_editedRun : ∃ s, exec step { rows := ∅ } editedRun = some s ∧
    s.manager.rows.map HeldGateway.ip = ["10.0.0.3"] ∧ s.Coherent := by
  obtain ⟨s, hrun, hheld⟩ : ∃ s, exec step { rows := ∅ } editedRun = some s ∧
      s.manager.rows.map HeldGateway.ip = ["10.0.0.3"] := ⟨_, rfl, by decide⟩
  refine ⟨s, hrun, hheld, held_coherent_of_reaches (reaches_of_exec hrun ?_)⟩
  refine ⟨trivial, fun s₁ h₁ => ?_⟩
  obtain rfl := Option.some.inj h₁
  refine ⟨fun _ _ => ?_, fun s₂ h₂ => ⟨trivial, fun s₃ h₃ => ⟨trivial, fun s₄ h₄ => ?_⟩⟩⟩
  · refine ⟨_, List.mem_singleton_self _, rfl, ?_⟩
    constructor <;> decide
  · exact ⟨trivial, fun _ _ => trivial⟩

/-- The password of a gateway is removed, which the row keeps. -/
def clearedRun : List GatewayCall :=
  [.create { ip := "10.0.0.1", port := 22, username := "root", password := "old" } "g1" true,
    .update "g1" { ip := "10.0.0.1", port := 22, username := "root", privateKey := "key" } true]

theorem not_coherent_clearedRun : ∃ s, Reaches step Any { rows := ∅ } s ∧ ¬ s.Coherent := by
  obtain ⟨s, hrun, hheld, hrows⟩ : ∃ s, exec step { rows := ∅ } clearedRun = some s ∧
      s.manager.rows.map HeldGateway.password = [""] ∧
      s.rows.rows.map AccessGateway.password = ["old"] := ⟨_, rfl, by decide, by decide⟩
  refine ⟨s, reaches_of_exec hrun (allOk_any _ _), fun h => ?_⟩
  obtain ⟨g, hg, hpassword⟩ := List.mem_map.mp (hheld ▸ List.mem_singleton_self "")
  obtain ⟨r, hr, rfl⟩ := h g hg
  have hold : r.password ∈ s.rows.rows.map AccessGateway.password := List.mem_map_of_mem hr
  rw [hrows, List.mem_singleton] at hold
  exact absurd (hold.symm.trans hpassword) (by decide)

end GatewaySystem

end NextDBM
