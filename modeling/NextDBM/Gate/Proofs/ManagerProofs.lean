import NextDBM.Gate.Manager
import NextDBM.Library.Runs

/-!
# Coherence of the access rules in memory

After every action the sorted values are those of the map in memory, so coherence is that the map
mirrors the table. Creating, deleting and starting keep the mirror; an update keeps it when the stored
row takes over every field of the request body, an import when it commits or adds nothing.
-/

namespace NextDBM

open Relational Transaction

/-! ## The map and its sorted values -/

namespace Manager

variable {m : Manager} {s t : Security}

/-- The values are those of the map. -/
def Loaded (m : Manager) : Prop := m.values = loadData m.securities.rows

theorem loaded_add (m : Manager) (s : Security) : (m.add s).Loaded := rfl

theorem loaded_del (m : Manager) (id : String) : (m.del id).Loaded := rfl

theorem mem_add : t ∈ (m.add s).securities ↔ t = s ∨ t ∈ m.securities ∧ t.id ≠ s.id := Table.mem_put

theorem mem_del {id : String} : t ∈ (m.del id).securities ↔ t ∈ m.securities ∧ t.id ≠ id := by
  show t ∈ m.securities.deleteWhere _ ↔ _
  simp

theorem loadData_perm (l : List Security) : (loadData l).Perm l := List.perm_insertionSort _ l

theorem loadData_sorted (l : List Security) :
    (loadData l).Pairwise fun s t => s.priority ≤ t.priority := by
  have htotal : Std.Total fun s t : Security => s.priority ≤ t.priority :=
    ⟨fun s t => le_total s.priority t.priority⟩
  have htrans : IsTrans Security fun s t => s.priority ≤ t.priority :=
    ⟨fun _ _ _ => le_trans⟩
  exact List.pairwise_insertionSort _ l

end Manager

/-- The map holds the rules of the table. -/
def Mirrors (rules : AccessRules) (m : Manager) : Prop :=
  ∀ s, s ∈ m.securities ↔ ∃ r ∈ rules, r.security = s

theorem security_nodup (rules : AccessRules) :
    (rules.rows.map AccessSecurity.security).Nodup := by
  apply List.Nodup.of_map Security.id
  rw [List.map_map]
  exact rules.nodup

theorem coherent_iff_mirrors {s : RuleState} (h : s.manager.Loaded) :
    s.Coherent ↔ Mirrors s.rules s.manager := by
  have hvalues : s.manager.values.Perm s.manager.securities.rows := by
    rw [h]
    exact Manager.loadData_perm _
  have hsorted : s.manager.values.Pairwise fun r r' => r.priority ≤ r'.priority := by
    rw [h]
    exact Manager.loadData_sorted _
  have hnodup : s.manager.securities.rows.Nodup := .of_map _ s.manager.securities.nodup
  have hmem : s.manager.securities.rows.Perm (s.rules.rows.map AccessSecurity.security) ↔
      Mirrors s.rules s.manager := by
    rw [List.perm_ext_iff_of_nodup hnodup (security_nodup s.rules)]
    refine forall_congr' fun x => iff_congr Iff.rfl ?_
    rw [List.mem_map]
    rfl
  rw [← hmem]
  constructor
  · rintro ⟨hperm, -⟩
    exact hvalues.symm.trans hperm
  · intro hperm
    exact ⟨hvalues.trans hperm, hsorted⟩

/-! ## Single writes -/

section Writes

variable {rules rules' : AccessRules} {m : Manager} {o r : AccessSecurity} {id : String}

theorem Mirrors.empty : Mirrors ∅ {} := by
  intro s
  simp [Table.mem_def]

theorem Mirrors.create (h : Mirrors rules m) (hinsert : rules.insert o = some rules') :
    Mirrors rules' (m.add o.security) := by
  intro s
  rw [Manager.mem_add, h s]
  constructor
  · rintro (rfl | ⟨⟨r, hr, rfl⟩, -⟩)
    · exact ⟨o, (Table.mem_of_insert hinsert).mpr (.inl rfl), rfl⟩
    · exact ⟨r, (Table.mem_of_insert hinsert).mpr (.inr hr), rfl⟩
  · rintro ⟨r, hr, rfl⟩
    rcases (Table.mem_of_insert hinsert).mp hr with rfl | hr
    · exact .inl rfl
    · refine .inr ⟨⟨r, hr, rfl⟩, fun hid => ?_⟩
      have hnone := Table.insert_eq_none.mpr ⟨r, hr, hid⟩
      rw [hnone] at hinsert
      cases hinsert

theorem Mirrors.delete (h : Mirrors rules m) (id : String) :
    Mirrors (rules.deleteWhere fun r => r.id == id) (m.del id) := by
  intro s
  rw [Manager.mem_del, h s]
  constructor
  · rintro ⟨⟨r, hr, rfl⟩, hid⟩
    exact ⟨r, Table.mem_deleteWhere.mpr ⟨hr, beq_false_of_ne hid⟩, rfl⟩
  · rintro ⟨r, hr, rfl⟩
    obtain ⟨hr, hid⟩ := Table.mem_deleteWhere.mp hr
    exact ⟨⟨r, hr, rfl⟩, ne_of_beq_false hid⟩

/-- The stored row has the values of the body exactly when the body's empty fields are empty in it. -/
theorem assign_security : (SecurityRepository.assign o r).security = { o with id := r.id }.security ↔
    (o.rule = "" → r.rule = "") ∧ (o.ip = "" → r.ip = "") ∧ (o.priority = 0 → r.priority = 0) := by
  have htext : ∀ new old : String, nonZero new old = new ↔ (new = "" → old = "") := by
    intro new old
    by_cases hnew : new = ""
    · simp [hnew]
    · simp [nonZero_of_ne hnew, hnew]
  have hint : ∀ new old : Int, (if new = 0 then old else new) = new ↔ (new = 0 → old = 0) := by
    intro new old
    by_cases hnew : new = 0
    · simp [hnew]
    · simp [hnew]
  rw [← htext, ← htext, ← hint]
  simp only [AccessSecurity.security, SecurityRepository.assign, Security.mk.injEq, true_and]

theorem Mirrors.update (h : Mirrors rules m) (o : AccessSecurity) (id : String) :
    Mirrors (rules.updateById id (SecurityRepository.assign o) (SecurityRepository.assign_id o))
        ((m.del id).add { o with id }.security) ↔
      ∃ r ∈ rules, r.id = id ∧ (o.rule = "" → r.rule = "") ∧ (o.ip = "" → r.ip = "") ∧
        (o.priority = 0 → r.priority = 0) := by
  constructor
  · intro hafter
    obtain ⟨r', hr', hsec⟩ := (hafter { o with id }.security).mp (Manager.mem_add.mpr (.inl rfl))
    obtain ⟨r, hr, hrr'⟩ := Table.mem_modify.mp hr'
    have hid' : r'.id = id := congrArg Security.id hsec
    have hid : r.id = id := by
      by_contra hne
      rw [if_neg hne] at hrr'
      exact hne (hrr' ▸ hid')
    rw [if_pos hid] at hrr'
    refine ⟨r, hr, hid, assign_security.mp ?_⟩
    rw [hrr', hsec, hid]
  · rintro ⟨r, hr, rfl, hfields⟩ s
    have hsec := assign_security.mpr hfields
    rw [Manager.mem_add, Manager.mem_del, h s]
    constructor
    · rintro (rfl | ⟨⟨⟨r', hr', rfl⟩, hne⟩, -⟩)
      · exact ⟨_, Table.mem_modify.mpr ⟨r, hr, if_pos rfl⟩, hsec⟩
      · exact ⟨r', Table.mem_modify.mpr ⟨r', hr', if_neg hne⟩, rfl⟩
    · rintro ⟨r', hr', rfl⟩
      obtain ⟨r₀, hr₀, heq⟩ := Table.mem_modify.mp hr'
      by_cases hid : r₀.id = r.id
      · obtain rfl := Table.eq_of_key hr₀ hr hid
        rw [if_pos rfl] at heq
        exact .inl (heq ▸ hsec)
      · rw [if_neg hid] at heq
        subst heq
        exact .inr ⟨⟨⟨r₀, hr₀, rfl⟩, hid⟩, hid⟩

end Writes

/-! ## Work on the table and the manager -/

section Works

variable {w w' : World AccessRules Manager} {o item : AccessSecurity} {items : List AccessSecurity}
  {id : String} {e : Error}

/-- What a piece of work keeps. -/
def Mirrored (w : World AccessRules Manager) : Prop := w.memory.Loaded ∧ Mirrors w.db w.memory

theorem create_eq_ok {rules : AccessRules} {o : AccessSecurity} {u : Unit} {rules' : AccessRules} :
    SecurityRepository.create o rules = .ok (u, rules') ↔ rules.insert o = some rules' := by
  unfold SecurityRepository.create
  cases rules.insert o with
  | some r => simp
  | none => simp

/-- The round of an import goes through when the statement is served and the id is new. -/
theorem importSecurity_ok : BackupService.importSecurity o w = (.ok (), w') ↔
    Serves w.served 1 ∧ ∃ rules, w.db.insert o = some rules ∧
      w' = ⟨rules, w.memory.add o.security, spend 1 w.served⟩ := by
  unfold BackupService.importSecurity
  rw [Work.bind_ok]
  constructor
  · rintro ⟨u, w₁, hcreate, htouch⟩
    obtain ⟨hserves, rules, hinsert, rfl⟩ := Work.statement_eq_ok.mp hcreate
    cases htouch
    exact ⟨hserves, rules, create_eq_ok.mp hinsert, rfl⟩
  · rintro ⟨hserves, rules, hinsert, rfl⟩
    exact ⟨(), _, Work.statement_eq_ok.mpr ⟨hserves, rules, create_eq_ok.mpr hinsert, rfl⟩, rfl⟩

theorem importSecurity_error (h : BackupService.importSecurity o w = (.error e, w')) :
    w'.db = w.db ∧ w'.memory = w.memory := by
  rcases Work.bind_error.mp h with hcreate | ⟨u, w₁, -, htouch⟩
  · exact Work.statement_error hcreate
  · cases htouch

theorem Mirrored.importSecurity (hw : Mirrored w) (o : AccessSecurity) :
    Mirrored (BackupService.importSecurity o w).2 := by
  rcases h : BackupService.importSecurity o w with ⟨r, w'⟩
  cases r with
  | ok u =>
    obtain ⟨-, rules, hinsert, rfl⟩ := importSecurity_ok.mp h
    exact ⟨Manager.loaded_add _ _, hw.2.create hinsert⟩
  | error e =>
    obtain ⟨hdb, hmemory⟩ := importSecurity_error h
    show w'.memory.Loaded ∧ Mirrors w'.db w'.memory
    rw [hdb, hmemory]
    exact hw

theorem Mirrored.deleteOne (hw : Mirrored w) (id : String) :
    Mirrored (SecurityApi.deleteOne id w).2 := by
  rcases h : SecurityApi.deleteOne id w with ⟨r, w'⟩
  cases r with
  | ok u =>
    obtain ⟨u, w₁, hdelete, htouch⟩ := Work.bind_ok.mp h
    obtain ⟨-, rules, hrules, rfl⟩ := Work.statement_eq_ok.mp hdelete
    cases hrules
    cases htouch
    exact ⟨Manager.loaded_del _ _, hw.2.delete id⟩
  | error e =>
    rcases Work.bind_error.mp h with hdelete | ⟨u, w₁, -, htouch⟩
    · obtain ⟨hdb, hmemory⟩ := Work.statement_error hdelete
      show w'.memory.Loaded ∧ Mirrors w'.db w'.memory
      rw [hdb, hmemory]
      exact hw
    · cases htouch

/-- An update that is carried out writes the row and the body; any other changes nothing. -/
theorem update_run (w : World AccessRules Manager) (id : String) (item : AccessSecurity) :
    (¬ Serves w.served 1 ∨ id = "") ∧ (SecurityApi.update id item w).2.db = w.db ∧
        (SecurityApi.update id item w).2.memory = w.memory ∨
      (Serves w.served 1 ∧ id ≠ "") ∧
        (SecurityApi.update id item w).2.db =
          w.db.updateById id (SecurityRepository.assign item) (SecurityRepository.assign_id item) ∧
        (SecurityApi.update id item w).2.memory =
          (w.memory.del id).add { item with id }.security := by
  rcases h : SecurityApi.update id item w with ⟨r, w'⟩
  cases r with
  | ok u =>
    obtain ⟨u, w₁, hupdate, htouch⟩ := Work.bind_ok.mp h
    obtain ⟨hserves, rules, hrules, rfl⟩ := Work.statement_eq_ok.mp hupdate
    cases htouch
    unfold SecurityRepository.updateById at hrules
    by_cases hid : id = ""
    · rw [if_pos hid] at hrules
      cases hrules
    · rw [if_neg hid] at hrules
      cases hrules
      exact .inr ⟨⟨hserves, hid⟩, rfl, rfl⟩
  | error e =>
    refine .inl ⟨?_, ?_⟩
    · by_contra hboth
      obtain ⟨hserves, hid⟩ := not_or.mp hboth
      have hok : ∃ w₁, SecurityApi.update id item w = (.ok (), w₁) :=
        ⟨_, Work.bind_ok.mpr ⟨(), _, Work.statement_eq_ok.mpr
          ⟨not_not.mp hserves, _, if_neg hid, rfl⟩, rfl⟩⟩
      obtain ⟨w₁, hok⟩ := hok
      rw [hok] at h
      cases h
    · rcases Work.bind_error.mp h with hupdate | ⟨u, w₁, -, htouch⟩
      · exact Work.statement_error hupdate
      · cases htouch

/-- The loop of an import goes through when the ids are new and distinct and every statement is
served. -/
theorem each_importSecurity_ok : (∃ w', Work.each BackupService.importSecurity items w = (.ok (), w') ∧
      Serves w'.served 1) ↔
    (items.map AccessSecurity.id).Nodup ∧ (∀ item ∈ items, ∀ r ∈ w.db, r.id ≠ item.id) ∧
      Serves w.served (items.length + 1) := by
  induction items generalizing w with
  | nil =>
    constructor
    · rintro ⟨w', h, hserves⟩
      cases h
      exact ⟨List.nodup_nil, nofun, hserves⟩
    · rintro ⟨-, -, hserves⟩
      exact ⟨w, rfl, hserves⟩
  | cons o items ih =>
    have hfree : ∀ {rules : AccessRules}, w.db.insert o = some rules → ∀ r ∈ w.db, r.id ≠ o.id := by
      intro rules hinsert r hr hid
      have hnone := Table.insert_eq_none.mpr ⟨r, hr, hid⟩
      rw [hnone] at hinsert
      cases hinsert
    rw [List.map_cons, List.nodup_cons, List.length_cons, Nat.add_comm (items.length + 1) 1,
      serves_add]
    constructor
    · rintro ⟨w', h, hserves⟩
      obtain ⟨u, w₁, hfirst, hrest⟩ := Work.bind_ok.mp h
      obtain ⟨hserved, rules, hinsert, rfl⟩ := importSecurity_ok.mp hfirst
      obtain ⟨hnodup, hnew, hlen⟩ := ih.mp ⟨w', hrest, hserves⟩
      have hmem := fun r => Table.mem_of_insert (b := r) hinsert
      refine ⟨⟨fun hin => ?_, hnodup⟩, fun i hi r hr => ?_, hserved, hlen⟩
      · obtain ⟨i, hi, hid⟩ := List.mem_map.mp hin
        exact hnew i hi o ((hmem o).mpr (.inl rfl)) hid.symm
      · rcases List.mem_cons.mp hi with rfl | hi
        · exact hfree hinsert r hr
        · exact hnew i hi r ((hmem r).mpr (.inr hr))
    · rintro ⟨⟨hnotMem, hnodup⟩, hnew, hserved, hlen⟩
      obtain ⟨rules, hinsert⟩ : ∃ rules, w.db.insert o = some rules := by
        cases h : w.db.insert o with
        | some rules => exact ⟨rules, rfl⟩
        | none =>
          obtain ⟨r, hr, hid⟩ := Table.insert_eq_none.mp h
          exact absurd hid (hnew o List.mem_cons_self r hr)
      have hfirst : BackupService.importSecurity o w = (.ok (), _) :=
        importSecurity_ok.mpr ⟨hserved, rules, hinsert, rfl⟩
      have hnew' : ∀ i ∈ items, ∀ r ∈ rules, r.id ≠ i.id := by
        intro i hi r hr
        rcases (Table.mem_of_insert hinsert).mp hr with rfl | hr
        · exact fun hid => hnotMem (List.mem_map.mpr ⟨i, hi, hid.symm⟩)
        · exact hnew i (List.mem_cons_of_mem o hi) r hr
      have hrest := ih (w := ⟨rules, w.memory.add o.security, spend 1 w.served⟩)
      obtain ⟨w', h, hserves⟩ := hrest.mpr ⟨hnodup, hnew', hlen⟩
      exact ⟨w', Work.bind_ok.mpr ⟨(), _, hfirst, h⟩, hserves⟩

/-- Once a rule is in memory, a further round of an import leaves a rule of its id there. -/
theorem importSecurity_keeps_id (h : ∃ s ∈ w.memory.securities, s.id = id) (o : AccessSecurity) :
    ∃ s ∈ (BackupService.importSecurity o w).2.memory.securities, s.id = id := by
  obtain ⟨s, hs, hid⟩ := h
  rcases hrun : BackupService.importSecurity o w with ⟨r, w'⟩
  cases r with
  | ok u =>
    obtain ⟨-, rules, -, rfl⟩ := importSecurity_ok.mp hrun
    by_cases hso : s.id = o.security.id
    · exact ⟨o.security, Manager.mem_add.mpr (.inl rfl), hso ▸ hid⟩
    · exact ⟨s, Manager.mem_add.mpr (.inr ⟨hs, hso⟩), hid⟩
  | error e =>
    have hmemory := (importSecurity_error hrun).2
    show ∃ s ∈ w'.memory.securities, s.id = id
    rw [hmemory]
    exact ⟨s, hs, hid⟩

/-- What an import has written to the memory, whether it commits or not. -/
theorem importRules_memory (before : Option Error) (items : List AccessSecurity)
    (after : Option Error) (w : World AccessRules Manager) :
    (BackupService.importRules before items after w).2.memory =
      if before = none then (Work.each BackupService.importSecurity items w).2.memory
      else w.memory := by
  unfold BackupService.importRules
  rw [Work.transaction_memory]
  cases before with
  | some e => rfl
  | none =>
    rw [if_pos rfl]
    show ((Work.each BackupService.importSecurity items >>= fun _ =>
      BackupService.outcome after) w).2.memory = _
    rcases h : Work.each BackupService.importSecurity items w with ⟨r, w'⟩
    cases r with
    | ok u =>
      rw [Work.bind_run_ok h]
      cases after <;> rfl
    | error e => rw [Work.bind_run_error h]

/-- An import commits when its ids are new and distinct, every statement and the commit are served
and no other table raises an error. -/
theorem importRules_ok {after : Option Error} :
    (∃ w', BackupService.importRules none items after w = (.ok (), w')) ↔
      RuleState.Commits ⟨w.db, w.memory⟩ items after w.served := by
  have hloop := @each_importSecurity_ok w items
  unfold RuleState.Commits
  constructor
  · rintro ⟨w', h⟩
    obtain ⟨w₁, hbody, hserves, -⟩ := Work.transaction_eq_ok.mp h
    obtain ⟨u, w₂, hbefore, hrest⟩ := Work.bind_ok.mp hbody
    cases hbefore
    obtain ⟨u, w₃, heach, hafter⟩ := Work.bind_ok.mp hrest
    cases after with
    | some e => cases hafter
    | none =>
      cases hafter
      obtain ⟨hnodup, hnew, hlen⟩ := hloop.mp ⟨_, heach, hserves⟩
      exact ⟨hnodup, hnew, hlen, rfl⟩
  · rintro ⟨hnodup, hnew, hlen, rfl⟩
    obtain ⟨w₁, heach, hserves⟩ := hloop.mpr ⟨hnodup, hnew, hlen⟩
    have hbody : BackupService.importBody none items none w = (.ok (), w₁) :=
      Work.bind_ok.mpr ⟨(), w, rfl, Work.bind_ok.mpr ⟨(), w₁, heach, rfl⟩⟩
    exact ⟨_, Work.transaction_eq_ok.mpr ⟨w₁, hbody, hserves, rfl⟩⟩

/-- A committed import keeps the mirror. -/
theorem Mirrored.importRules {after : Option Error} {w' : World AccessRules Manager}
    (hw : Mirrored w) (h : BackupService.importRules none items after w = (.ok (), w')) :
    Mirrored w' := by
  obtain ⟨w₁, hbody, -, rfl⟩ := Work.transaction_eq_ok.mp h
  obtain ⟨u, w₂, hbefore, hrest⟩ := Work.bind_ok.mp hbody
  cases hbefore
  obtain ⟨u, w₃, heach, hafter⟩ := Work.bind_ok.mp hrest
  have hkeep : Mirrored (Work.each BackupService.importSecurity items w).2 :=
    Work.each_keeps (fun o _ w hw => hw.importSecurity o) hw
  rw [heach] at hkeep
  cases after with
  | some e => cases hafter
  | none =>
    cases hafter
    exact hkeep

theorem each_importSecurity_keeps_id (h : ∃ s ∈ w.memory.securities, s.id = id) :
    ∃ s ∈ (Work.each BackupService.importSecurity items w).2.memory.securities, s.id = id := by
  let I : World AccessRules Manager → Prop := fun w => ∃ s ∈ w.memory.securities, s.id = id
  have hround : ∀ o ∈ items, ∀ w, I w → I (BackupService.importSecurity o w).2 :=
    fun o _ w hI => importSecurity_keeps_id hI o
  exact Work.each_keeps hround h

/-- An import that fails before its first rule leaves the memory alone. -/
theorem importRules_memory_of_addsNothing {before after : Option Error}
    (h : RuleState.AddsNothing ⟨w.db, w.memory⟩ before items w.served) :
    (BackupService.importRules before items after w).2.memory = w.memory := by
  rw [importRules_memory]
  by_cases hbefore : before = none
  · rw [if_pos hbefore]
    cases items with
    | nil => rfl
    | cons o items =>
      have hfirst : ∀ u w', BackupService.importSecurity o w ≠ (.ok u, w') := by
        intro u w' hok
        obtain ⟨hserves, rules, hinsert, -⟩ := importSecurity_ok.mp hok
        rcases h with h | h | h
        · exact h hbefore
        · exact h hserves
        · obtain ⟨r, hr, hid⟩ := h o rfl
          have hnone := Table.insert_eq_none.mpr ⟨r, hr, hid⟩
          rw [hnone] at hinsert
          cases hinsert
      rcases hrun : BackupService.importSecurity o w with ⟨r, w'⟩
      cases r with
      | ok u => exact absurd hrun (hfirst u w')
      | error e =>
        show ((BackupService.importSecurity o >>= fun _ =>
          Work.each BackupService.importSecurity items) w).2.memory = w.memory
        rw [Work.bind_run_error hrun]
        exact (importSecurity_error hrun).2
  · rw [if_neg hbefore]

/-- An import that adds a rule leaves a rule in memory whose id the table did not have before. -/
theorem importRules_memory_of_adds {before after : Option Error}
    (h : ¬ RuleState.AddsNothing ⟨w.db, w.memory⟩ before items w.served) :
    before = none ∧ ∃ s ∈ (BackupService.importRules before items after w).2.memory.securities,
      ∀ r ∈ w.db, r.id ≠ s.id := by
  unfold RuleState.AddsNothing at h
  push Not at h
  obtain ⟨hbefore, hserves, o, hhead, hfree⟩ := h
  refine ⟨hbefore, ?_⟩
  rw [importRules_memory, if_pos hbefore]
  cases items with
  | nil => cases hhead
  | cons o' items =>
    obtain rfl := Option.some.inj hhead
    cases hinsert : w.db.insert o' with
    | none =>
      obtain ⟨r, hr, hid⟩ := Table.insert_eq_none.mp hinsert
      exact absurd hid (hfree r hr)
    | some rules =>
      have hrun := importSecurity_ok.mpr ⟨hserves, rules, hinsert, rfl⟩
      show ∃ s ∈ ((BackupService.importSecurity o' >>= fun _ =>
        Work.each BackupService.importSecurity items) w).2.memory.securities, _
      rw [Work.bind_run_ok hrun]
      obtain ⟨s, hs, hid⟩ := @each_importSecurity_keeps_id
        ⟨rules, w.memory.add o'.security, spend 1 w.served⟩ items o'.id
        ⟨o'.security, Manager.mem_add.mpr (.inl rfl), rfl⟩
      exact ⟨s, hs, fun r hr => hid ▸ hfree r hr⟩

/-- An import keeps the mirror exactly when it adds nothing to the memory or commits. -/
theorem mirrored_importRules_iff (hw : Mirrored w) (before after : Option Error) :
    Mirrors (BackupService.importRules before items after w).2.db
        (BackupService.importRules before items after w).2.memory ↔
      RuleState.AddsNothing ⟨w.db, w.memory⟩ before items w.served ∨
        RuleState.Commits ⟨w.db, w.memory⟩ items after w.served := by
  have hnothing := @importRules_memory_of_addsNothing w items before after
  have hadds := @importRules_memory_of_adds w items before after
  rcases h : BackupService.importRules before items after w with ⟨r, w'⟩
  rw [h] at hnothing hadds
  cases r with
  | ok u =>
    cases before with
    | some e =>
      obtain ⟨w₁, hbody, -, -⟩ := Work.transaction_eq_ok.mp h
      cases hbody
    | none =>
      exact ⟨fun _ => .inr (importRules_ok.mp ⟨w', h⟩), fun _ => (hw.importRules h).2⟩
  | error e =>
    have hdb : w'.db = w.db := Work.transaction_error h
    show Mirrors w'.db w'.memory ↔ _
    rw [hdb]
    by_cases hn : RuleState.AddsNothing ⟨w.db, w.memory⟩ before items w.served
    · rw [show w'.memory = w.memory from hnothing hn]
      exact ⟨fun _ => .inl hn, fun _ => hw.2⟩
    · obtain ⟨rfl, s, hs, hfree⟩ := hadds hn
      constructor
      · intro hmirrors
        obtain ⟨r, hr, rfl⟩ := (hmirrors s).mp hs
        exact absurd rfl (hfree r hr)
      · rintro (hn' | hcommits)
        · exact absurd hn' hn
        · obtain ⟨w₂, hok⟩ := importRules_ok.mpr hcommits
          rw [hok] at h
          cases h

end Works

/-! ## Starting -/

section Start

variable {m : Manager} {rs : List AccessSecurity} {s : Security}

/-- The rules that the reload adds to the map. -/
theorem mem_foldl_add (hnodup : (rs.map AccessSecurity.id).Nodup) :
    s ∈ (rs.foldl (fun m r => m.add r.security) m).securities ↔
      (∃ r ∈ rs, r.security = s) ∨ s ∈ m.securities ∧ ∀ r ∈ rs, s.id ≠ r.id := by
  induction rs generalizing m with
  | nil => simp
  | cons o rs ih =>
    obtain ⟨hnotMem, hnodup'⟩ := List.nodup_cons.mp hnodup
    rw [List.foldl_cons, ih hnodup', Manager.mem_add]
    constructor
    · rintro (⟨r, hr, rfl⟩ | ⟨rfl | ⟨hs, hne⟩, hrest⟩)
      · exact .inl ⟨r, List.mem_cons_of_mem o hr, rfl⟩
      · exact .inl ⟨o, List.mem_cons_self, rfl⟩
      · refine .inr ⟨hs, fun r hr => ?_⟩
        rcases List.mem_cons.mp hr with rfl | hr
        · exact hne
        · exact hrest r hr
    · rintro (⟨r, hr, rfl⟩ | ⟨hs, hne⟩)
      · rcases List.mem_cons.mp hr with rfl | hr
        · refine .inr ⟨.inl rfl, fun r' hr' hid => ?_⟩
          exact hnotMem (List.mem_map.mpr ⟨r', hr', hid.symm⟩)
        · exact .inl ⟨r, hr, rfl⟩
      · exact .inr ⟨.inr ⟨hs, hne o List.mem_cons_self⟩,
          fun r hr => hne r (List.mem_cons_of_mem o hr)⟩

theorem loaded_foldl_add (h : m.Loaded) :
    (rs.foldl (fun m r => m.add r.security) m).Loaded := by
  induction rs generalizing m with
  | nil => exact h
  | cons o rs ih => exact ih (m.loaded_add _)

theorem each_touch_run (w : World AccessRules Manager) :
    (Work.each (fun r : AccessSecurity => (Work.touch fun m => m.add r.security : RuleWork Unit))
      rs) w = (.ok (), { w with memory := rs.foldl (fun m r => m.add r.security) w.memory }) := by
  induction rs generalizing w with
  | nil => rfl
  | cons o rs ih =>
    refine (Work.bind_run_ok (Work.touch_run _ w)).trans ?_
    rw [ih]
    rfl

theorem findAll_perm (rules : AccessRules) : (SecurityRepository.findAll rules).Perm rules.rows :=
  List.perm_insertionSort _ _

/-- A start builds the map from the table. -/
theorem start_eq (s : RuleState) : s.step .start =
    ⟨s.rules, (SecurityRepository.findAll s.rules).foldl (fun m r => m.add r.security) {}⟩ := by
  have hfind : (Work.statement databaseFault fun db : AccessRules =>
        .ok (SecurityRepository.findAll db, db) : RuleWork (List AccessSecurity))
      ⟨s.rules, {}, none⟩ = (.ok (SecurityRepository.findAll s.rules), ⟨s.rules, {}, none⟩) :=
    Work.statement_run rfl rfl
  rw [RuleState.step, RuleState.run, SecurityService.reloadAccessSecurity, Work.bind_run_ok hfind]
  cases hrules : SecurityRepository.findAll s.rules with
  | nil => rfl
  | cons o rs =>
    rw [List.isEmpty_cons, if_neg (by decide), Work.bind_run_ok (Work.touch_run _ _),
      each_touch_run]
    rfl

theorem start_loaded (s : RuleState) : (s.step .start).manager.Loaded := by
  rw [start_eq]
  exact loaded_foldl_add rfl

theorem start_mirrors (s : RuleState) : Mirrors (s.step .start).rules (s.step .start).manager := by
  rw [start_eq]
  intro x
  have hnodup : ((SecurityRepository.findAll s.rules).map AccessSecurity.id).Nodup :=
    ((findAll_perm s.rules).map _).nodup_iff.mpr s.rules.nodup
  rw [mem_foldl_add hnodup]
  constructor
  · rintro (⟨r, hr, rfl⟩ | ⟨hx, -⟩)
    · exact ⟨r, (findAll_perm s.rules).mem_iff.mp hr, rfl⟩
    · exact absurd hx List.not_mem_nil
  · rintro ⟨r, hr, rfl⟩
    exact .inl ⟨r, (findAll_perm s.rules).mem_iff.mpr hr, rfl⟩

end Start

/-! ## Runs -/

namespace RuleState

variable {s : RuleState} {a : RuleAction}

theorem create_eq (id : String) (item : AccessSecurity) : SecurityApi.create id item =
    BackupService.importSecurity { item with id, source := "管理员添加" } := rfl

theorem delete_mirrored {w : World AccessRules Manager} (hw : Mirrored w) (ids : String) :
    Mirrored (SecurityApi.delete ids w).2 :=
  Work.each_keeps (fun id _ _ hw => hw.deleteOne id) hw

theorem importSecurity_loaded {w : World AccessRules Manager} (o : AccessSecurity)
    (hw : w.memory.Loaded) : (BackupService.importSecurity o w).2.memory.Loaded := by
  rcases h : BackupService.importSecurity o w with ⟨r, w'⟩
  cases r with
  | ok u =>
    obtain ⟨-, rules, -, rfl⟩ := importSecurity_ok.mp h
    exact Manager.loaded_add _ _
  | error e =>
    show w'.memory.Loaded
    rw [(importSecurity_error h).2]
    exact hw

/-- An update and an import keep the values loaded, also where they break the mirror. -/
theorem step_loaded (hs : s.manager.Loaded) (hm : Mirrors s.rules s.manager) :
    (s.step a).manager.Loaded := by
  have hw : ∀ served, Mirrored ⟨s.rules, s.manager, served⟩ := fun _ => ⟨hs, hm⟩
  cases a with
  | create id item served => exact ((hw served).importSecurity _).1
  | update id item served =>
    show (SecurityApi.update id item ⟨s.rules, s.manager, served⟩).2.memory.Loaded
    rcases update_run ⟨s.rules, s.manager, served⟩ id item with ⟨-, -, h⟩ | ⟨-, -, h⟩
    · rw [h]
      exact hs
    · rw [h]
      exact Manager.loaded_add _ _
  | delete ids served => exact (delete_mirrored (hw served) ids).1
  | importRules before items after served =>
    show (BackupService.importRules before items after ⟨s.rules, s.manager, served⟩).2.memory.Loaded
    rw [importRules_memory]
    split
    · let I : World AccessRules Manager → Prop := fun w => w.memory.Loaded
      have hround : ∀ o ∈ items, ∀ w, I w → I (BackupService.importSecurity o w).2 :=
        fun o _ _ hI => importSecurity_loaded o hI
      exact Work.each_keeps hround hs
    · exact hs
  | start => exact start_loaded s

/-- **One step**: from a coherent state an action keeps coherence exactly when its condition holds. -/
theorem step_mirrors_iff (hs : s.manager.Loaded) (hm : Mirrors s.rules s.manager) :
    Mirrors (s.step a).rules (s.step a).manager ↔ s.Ok a := by
  have hw : ∀ served, Mirrored ⟨s.rules, s.manager, served⟩ := fun _ => ⟨hs, hm⟩
  cases a with
  | create id item served =>
    exact iff_of_true ((hw served).importSecurity _).2 trivial
  | update id item served =>
    show Mirrors (SecurityApi.update id item ⟨s.rules, s.manager, served⟩).2.db
      (SecurityApi.update id item ⟨s.rules, s.manager, served⟩).2.memory ↔ _
    rcases update_run ⟨s.rules, s.manager, served⟩ id item with
      ⟨hnot, hdb, hmemory⟩ | ⟨⟨hserves, hid⟩, hdb, hmemory⟩
    · rw [hdb, hmemory]
      refine iff_of_true hm ?_
      rcases hnot with h | h
      · exact .inl h
      · exact .inr (.inl h)
    · rw [hdb, hmemory, hm.update item id]
      constructor
      · exact fun h => .inr (.inr h)
      · rintro (h | h | h)
        · exact absurd hserves h
        · exact absurd h hid
        · exact h
  | delete ids served => exact iff_of_true (delete_mirrored (hw served) ids).2 trivial
  | importRules before items after served => exact mirrored_importRules_iff (hw served) before after
  | start => exact iff_of_true (start_mirrors s) trivial

/-- A run of actions. -/
abbrev Reaches (ok : RuleState → RuleAction → Prop) : RuleState → RuleState → Prop :=
  Transition.Reaches (fun s a => some (step s a)) ok

theorem mirrored_of_reaches {rules : AccessRules} (h : Reaches Ok (step ⟨rules, {}⟩ .start) s) :
    s.manager.Loaded ∧ Mirrors s.rules s.manager := by
  apply Transition.Reaches.invariant (I := fun s => s.manager.Loaded ∧ Mirrors s.rules s.manager) _ h
  · exact ⟨start_loaded _, start_mirrors _⟩
  · rintro s a t ⟨hs, hm⟩ hok hstep
    obtain rfl := Option.some.inj hstep
    exact ⟨step_loaded hs hm, (step_mirrors_iff hs hm).mpr hok⟩

/-- **Coherence of the access rules.** In every run from a start of the server whose updates and
imports meet the condition, the rules in memory are those of the table; and the first action that
does not meet it breaks this. -/
theorem coherent_iff {rules : AccessRules} (h : Reaches Ok (step ⟨rules, {}⟩ .start) s) :
    s.Coherent ∧ ∀ a, (s.step a).Coherent ↔ s.Ok a := by
  obtain ⟨hs, hm⟩ := mirrored_of_reaches h
  refine ⟨(coherent_iff_mirrors hs).mpr hm, fun a => ?_⟩
  rw [coherent_iff_mirrors (step_loaded hs hm), step_mirrors_iff hs hm]

/-! ## Two runs -/

def rejectRule : RuleAction := .create "r1" { rule := "reject", ip := "10.0.0.0/8", priority := 5 } none

def fullUpdate : RuleAction :=
  .update "r1" { rule := "allow", ip := "10.0.0.0/16", priority := 2 } none

/-- A body that changes the rule and the priority only. -/
def partialUpdate : RuleAction := .update "r1" { rule := "allow", priority := 2 } none

def oneRuleImport : RuleAction :=
  .importRules none [{ id := "r2", rule := "reject", ip := "192.0.2.7", priority := 1 }] none (some 2)

def updated : RuleState := ((step ⟨∅, {}⟩ .start).step rejectRule).step fullUpdate

theorem updated_reaches : Reaches Ok (step ⟨∅, {}⟩ .start) (updated.step oneRuleImport) := by
  have hupdate : Ok ((step ⟨∅, {}⟩ .start).step rejectRule) fullUpdate := by
    refine .inr (.inr ⟨_, List.mem_cons_self, rfl, ?_, ?_, ?_⟩)
    · exact fun h => absurd h (by decide)
    · exact fun h => absurd h (by decide)
    · exact fun h => absurd h (by decide)
  have himport : Ok updated oneRuleImport := .inr ⟨by decide, by decide, by decide, rfl⟩
  exact .head (a := rejectRule) trivial rfl (.head hupdate rfl (.head himport rfl (.refl _)))

theorem coherent_iff_updated : (updated.step oneRuleImport).Coherent ∧
    (updated.step oneRuleImport).manager.values.map Security.id = ["r2", "r1"] :=
  ⟨(coherent_iff updated_reaches).1, by decide⟩

/-- After the partial update the table still has the network, the memory has an empty address. -/
theorem not_coherent_partialUpdate :
    ¬ ∀ (rules : AccessRules) (s : RuleState),
      Reaches Transition.Any (step ⟨rules, {}⟩ .start) s → s.Coherent := by
  intro h
  have hreaches : Reaches Transition.Any (step ⟨∅, {}⟩ .start)
      (((step ⟨∅, {}⟩ .start).step rejectRule).step partialUpdate) :=
    .head (a := rejectRule) trivial rfl (.head (a := partialUpdate) trivial rfl (.refl _))
  exact absurd (h ∅ _ hreaches) (by decide)

end RuleState

end NextDBM
