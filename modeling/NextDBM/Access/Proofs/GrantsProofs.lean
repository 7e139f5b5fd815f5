import NextDBM.Access.Grants
import NextDBM.Library.Blocks
import NextDBM.Library.NaturalKeys

/-!
# The authorised table is a map

Ids have two lengths, and the shorter one belongs to a single id, so the sorted ids of a triple can be
read back from the text that `Sign` digests. Every call replaces rows of the table under signed keys,
which overrides the map from triples to grants, and a call that fails is rolled back.
-/

namespace NextDBM

open Relational Transaction

/-! ## Reading a triple back from its text -/

theorem superAdminID_length : superAdminID.length = 26 := by decide

namespace Triple

/-- The ids of the triple that are present, in the order in which `Sign` joins them. -/
def present (t : Triple) : List String := (t.ids.insertionSort (· ≤ ·)).filter (· ≠ "")

theorem mem_present {t : Triple} {s : String} :
    s ∈ t.present ↔ (s = t.assetId ∨ s = t.userId ∨ s = t.userGroupId) ∧ s ≠ "" := by
  rw [present, List.mem_filter, List.mem_insertionSort]
  simp [ids]

theorem present_sorted (t : Triple) : t.present.Pairwise (· ≤ ·) :=
  (List.pairwise_insertionSort (· ≤ ·) t.ids).filter _

theorem flatMap_filter_ne_empty (l : List String) :
    (l.filter (· ≠ "")).flatMap String.toList = l.flatMap String.toList := by
  induction l with
  | nil => rfl
  | cons s l ih =>
    by_cases h : s = ""
    · rw [List.filter_cons_of_neg (by simp [h]), ih, h]
      rfl
    · rw [List.filter_cons_of_pos (by simp [h]), List.flatMap_cons, ih, List.flatMap_cons]

theorem toList_text (t : Triple) : t.text.toList = (t.present.map String.toList).flatten := by
  rw [text, String.toList_join, present, ← flatMap_filter_ne_empty, List.flatMap_def]

end Triple

section Kinds

variable {k : IdKinds} {t t' : Triple} {s : String}

theorem IdKinds.asset_ne_user (k : IdKinds) {a u : String} (ha : a ∈ k.asset) (hu : u ∈ k.user) :
    a ≠ u := by
  intro h
  exact Set.disjoint_left.mp k.asset_user ha (h ▸ hu)

theorem IdKinds.asset_ne_group (k : IdKinds) {a g : String} (ha : a ∈ k.asset)
    (hg : g ∈ k.group) : a ≠ g := by
  intro h
  exact Set.disjoint_left.mp k.asset_group ha (h ▸ hg)

theorem IdKinds.user_ne_group (k : IdKinds) {u g : String} (hu : u ∈ k.user) (hg : g ∈ k.group) :
    u ≠ g := by
  intro h
  exact Set.disjoint_left.mp k.user_group hu (h ▸ hg)

/-- A present id is an id of one of the kinds. -/
theorem mem_kinds_of_mem_present (ht : t ∈ k.triples) (hs : s ∈ t.present) :
    s ∈ k.asset ∨ s ∈ k.user ∨ s ∈ k.group := by
  obtain ⟨ha, hu, hg⟩ := ht
  obtain ⟨hs, hne⟩ := Triple.mem_present.mp hs
  rcases hs with rfl | rfl | rfl
  · exact .inl ha
  · exact .inr (.inl (hu.resolve_left hne))
  · exact .inr (.inr (hg.resolve_left hne))

theorem ids_ne_empty (h : s ∈ k.asset ∨ s ∈ k.user ∨ s ∈ k.group) : s ≠ "" := by
  intro hs
  rcases k.wellFormed s h with hlen | hlen
  · rw [hs] at hlen
    exact absurd hlen (by decide)
  · rw [hs] at hlen
    exact absurd hlen (by decide)

/-- No id stands twice in a triple. -/
theorem present_nodup (ht : t ∈ k.triples) : t.present.Nodup := by
  obtain ⟨ha, hu, hg⟩ := ht
  have hperm : t.present.Perm (t.ids.filter (· ≠ "")) :=
    (List.perm_insertionSort (· ≤ ·) t.ids).filter _
  rw [hperm.nodup_iff]
  have hane : t.assetId ≠ "" := ids_ne_empty (.inl ha)
  have hau : t.userId ≠ "" → t.assetId ≠ t.userId :=
    fun h => k.asset_ne_user ha (hu.resolve_left h)
  have hag : t.userGroupId ≠ "" → t.assetId ≠ t.userGroupId :=
    fun h => k.asset_ne_group ha (hg.resolve_left h)
  have hug : t.userId ≠ "" → t.userGroupId ≠ "" → t.userId ≠ t.userGroupId :=
    fun h h' => k.user_ne_group (hu.resolve_left h) (hg.resolve_left h')
  by_cases h : t.userId = "" <;> by_cases h' : t.userGroupId = "" <;>
    simp [Triple.ids, List.filter, hane, h, h', hau, hag, hug]

/-- The text of a triple determines the ids that are present. -/
theorem present_eq_of_text (ht : t ∈ k.triples) (ht' : t' ∈ k.triples) (h : t.text = t'.text) :
    t.present = t'.present := by
  have hflat : (t.present.map String.toList).flatten = (t'.present.map String.toList).flatten := by
    rw [← t.toList_text, ← t'.toList_text, h]
  have hblock : ∀ {t : Triple}, t ∈ k.triples → ∀ x ∈ t.present.map String.toList,
      x.length = 36 ∨ x = superAdminID.toList := by
    intro t ht x hx
    obtain ⟨s, hs, rfl⟩ := List.mem_map.mp hx
    rcases k.wellFormed s (mem_kinds_of_mem_present ht hs) with hlen | rfl
    · exact .inl hlen
    · exact .inr rfl
  have hinj : Function.Injective String.toList := fun _ _ => String.toList_injective
  have hsorted : ∀ t : Triple, (t.present.map String.toList).Pairwise (· ≤ ·) := by
    intro t
    rw [List.pairwise_map]
    exact t.present_sorted.imp fun h => String.le_iff_toList_le.mp h
  have hlen : superAdminID.toList.length = 26 := superAdminID_length
  refine List.map_injective_iff.mpr hinj (Blocks.eq_of_flatten_eq (n := 36) ?_ ?_ (hblock ht)
    (hblock ht') ((present_nodup ht).map hinj) ((present_nodup ht').map hinj) (hsorted t)
    (hsorted t') hflat)
  · omega
  · omega

/-- The ids that are present in one triple and those present in another determine each other. -/
theorem eq_of_present (ht : t ∈ k.triples) (ht' : t' ∈ k.triples)
    (h : ∀ s ∈ t.present, s ∈ t'.present) :
    t.assetId = t'.assetId ∧ (t.userId ≠ "" → t.userId = t'.userId) ∧
      (t.userGroupId ≠ "" → t.userGroupId = t'.userGroupId) := by
  obtain ⟨ha, hu, hg⟩ := ht
  obtain ⟨ha', hu', hg'⟩ := ht'
  have hmem : ∀ s, s = t.assetId ∨ s = t.userId ∨ s = t.userGroupId → s ≠ "" →
      s = t'.assetId ∨ s = t'.userId ∨ s = t'.userGroupId := by
    intro s hs hne
    exact (Triple.mem_present.mp (h s (Triple.mem_present.mpr ⟨hs, hne⟩))).1
  refine ⟨?_, fun hne => ?_, fun hne => ?_⟩
  · have hne : t.assetId ≠ "" := ids_ne_empty (.inl ha)
    rcases hmem t.assetId (.inl rfl) hne with h | h | h
    · exact h
    · exact absurd h (k.asset_ne_user ha (hu'.resolve_left (h ▸ hne)))
    · exact absurd h (k.asset_ne_group ha (hg'.resolve_left (h ▸ hne)))
  · have hin := hu.resolve_left hne
    rcases hmem t.userId (.inr (.inl rfl)) hne with h | h | h
    · exact absurd h.symm (k.asset_ne_user ha' hin)
    · exact h
    · exact absurd h (k.user_ne_group hin (hg'.resolve_left (h ▸ hne)))
  · have hin := hg.resolve_left hne
    rcases hmem t.userGroupId (.inr (.inr rfl)) hne with h | h | h
    · exact absurd h.symm (k.asset_ne_group ha' hin)
    · exact absurd h.symm (k.user_ne_group (hu'.resolve_left (h ▸ hne)) hin)
    · exact h

theorem eq_of_ne_empty {s s' : String} (h : s ≠ "" → s = s') (h' : s' ≠ "" → s' = s) : s = s' := by
  by_cases hs : s = ""
  · by_cases hs' : s' = ""
    · rw [hs, hs']
    · exact (h' hs').symm
  · exact h hs

theorem text_injOn (k : IdKinds) : Set.InjOn Triple.text k.triples := by
  intro t ht t' ht' h
  have hpresent := present_eq_of_text ht ht' h
  obtain ⟨ha, hu, hg⟩ := eq_of_present ht ht' fun s hs => hpresent ▸ hs
  obtain ⟨-, hu', hg'⟩ := eq_of_present ht' ht fun s hs => hpresent ▸ hs
  obtain ⟨a, u, g⟩ := t
  obtain ⟨a', u', g'⟩ := t'
  have hau : u = u' := eq_of_ne_empty hu hu'
  have hag : g = g' := eq_of_ne_empty hg hg'
  rw [show a = a' from ha, hau, hag]

/-- **`Sign` is injective on triples** when MD5 is injective on their texts. -/
theorem id_injOn (hmd5 : Set.InjOn Digest.md5Hex (Triple.text '' k.triples)) :
    Set.InjOn Triple.id k.triples :=
  hmd5.comp (text_injOn k) (Set.mapsTo_image _ _)

end Kinds

/-! ## What one call does -/

namespace GrantCall

variable {c : GrantCall} {items : List Authorised} {served : Option Nat} {db db' : Database}

/-- The rows of a call: one for each triple, under its signed id and with the call's grant. -/
theorem of_mem_rows {r : Authorised} (h : r ∈ c.rows) :
    r.triple ∈ c.triples ∧ r.id = r.triple.id ∧ r.grant = c.grant := by
  cases c with
  | assets item =>
    obtain ⟨assetId, hmem, rfl⟩ := List.mem_map.mp h
    exact ⟨List.mem_map.mpr ⟨assetId, hmem, rfl⟩, rfl, rfl⟩
  | users item =>
    obtain ⟨userId, hmem, rfl⟩ := List.mem_map.mp h
    exact ⟨List.mem_map.mpr ⟨userId, hmem, rfl⟩, rfl, rfl⟩
  | userGroups item =>
    obtain ⟨userGroupId, hmem, rfl⟩ := List.mem_map.mp h
    exact ⟨List.mem_map.mpr ⟨userGroupId, hmem, rfl⟩, rfl, rfl⟩
  | deleteById id => exact absurd h List.not_mem_nil

theorem exists_row {t : Triple} (h : t ∈ c.triples) : ∃ r ∈ c.rows, r.triple = t := by
  cases c with
  | assets item =>
    obtain ⟨assetId, hmem, rfl⟩ := List.mem_map.mp h
    exact ⟨_, List.mem_map.mpr ⟨assetId, hmem, rfl⟩, rfl⟩
  | users item =>
    obtain ⟨userId, hmem, rfl⟩ := List.mem_map.mp h
    exact ⟨_, List.mem_map.mpr ⟨userId, hmem, rfl⟩, rfl⟩
  | userGroups item =>
    obtain ⟨userGroupId, hmem, rfl⟩ := List.mem_map.mp h
    exact ⟨_, List.mem_map.mpr ⟨userGroupId, hmem, rfl⟩, rfl⟩
  | deleteById id => exact absurd h List.not_mem_nil

/-- The deletes and the batched insert of the services, on the table. -/
theorem foldl_deleteById (items : List Authorised) (db : Database) :
    items.foldl (fun db r => AuthorisedRepository.deleteById db r.id) db =
      { db with
        authorised := items.foldl (fun t a => t.deleteWhere fun r => decide (r.id = a.id))
          db.authorised } := by
  induction items generalizing db with
  | nil => rfl
  | cons a items ih =>
    rw [List.foldl_cons, ih]
    rfl

theorem replaceInBatches_ok : AuthorisedService.replaceInBatches db items = .ok db' ↔
    ∃ t, db.authorised.replaceInBatches 100 items = (t, true) ∧ db' = { db with authorised := t } := by
  unfold AuthorisedService.replaceInBatches AuthorisedRepository.createInBatches
  rw [foldl_deleteById, ← Table.replaceInBatches]
  rcases db.authorised.replaceInBatches 100 items with ⟨t, b⟩
  cases b with
  | true => simp [eq_comm]
  | false => simp

/-- A transaction that returns has replaced the rows, as the services do without faults. -/
theorem replaceRows_ok {w w' : World Database Unit} (h : replaceRows items w = (.ok (), w')) :
    AuthorisedService.replaceInBatches w.db items = .ok w'.db := by
  obtain ⟨w₂, hbody, -, rfl⟩ := Work.transaction_eq_ok.mp h
  obtain ⟨u, w₁, hdelete, hcreate⟩ := Work.bind_ok.mp hbody
  have hdeleted := Work.each_statement_ok hdelete
  have hcreated := (Work.statement_ok hcreate).1
  rw [AuthorisedService.replaceInBatches, ← hdeleted]
  cases hc : AuthorisedRepository.createInBatches w₁.db items with
  | ok db₂ =>
    rw [hc] at hcreated
    have hdb₂ := (Prod.mk.inj (Except.ok.inj hcreated)).2
    rw [hdb₂]
  | error e =>
    rw [hc] at hcreated
    cases hcreated

/-- Without faults a call of the three services returns exactly when the services do. -/
theorem attempt_none (hc : ∀ id, c ≠ .deleteById id) :
    (c.attempt none db).1 = .ok () ↔ ∃ db', AuthorisedService.replaceInBatches db c.rows = .ok db' := by
  have hwork : c.work = replaceRows c.rows := by
    cases c with
    | deleteById id => exact absurd rfl (hc id)
    | assets item => rfl
    | users item => rfl
    | userGroups item => rfl
  unfold attempt
  rw [hwork]
  rcases hw : replaceRows c.rows ⟨db, (), none⟩ with ⟨r, w'⟩
  simp only
  constructor
  · rintro rfl
    exact ⟨w'.db, replaceRows_ok hw⟩
  · rintro ⟨db', hdb'⟩
    have hbody : replaceBody c.rows ⟨db, (), none⟩ = (.ok (), ⟨db', (), none⟩) := by
      refine (Work.bind_run_ok (Work.each_statement_run c.rows rfl)).trans ?_
      refine Work.statement_run ?_ rfl
      show (AuthorisedRepository.createInBatches _ _).map _ = _
      rw [AuthorisedService.replaceInBatches] at hdb'
      rw [hdb']
      rfl
    have hrun : replaceRows c.rows ⟨db, (), none⟩ = (.ok (), ⟨db', (), none⟩) :=
      Work.transaction_run hbody rfl
    rw [hrun] at hw
    exact (Prod.mk.inj hw).1.symm

/-- So a call whose rows have a repeated id fails, and every other call returns. -/
theorem attempt_none_iff_nodup (hc : ∀ id, c ≠ .deleteById id) :
    (c.attempt none db).1 = .ok () ↔ (c.rows.map Authorised.id).Nodup := by
  rw [attempt_none hc, ← Table.replaceInBatches_eq_true (t := db.authorised) (n := 100)]
  constructor
  · rintro ⟨db', hdb'⟩
    obtain ⟨t, ht, -⟩ := replaceInBatches_ok.mp hdb'
    rw [ht]
  · intro h
    rcases ht : db.authorised.replaceInBatches 100 c.rows with ⟨t, b⟩
    rw [ht] at h
    subst h
    exact ⟨_, replaceInBatches_ok.mpr ⟨t, ht, rfl⟩⟩

theorem work_deleteById (id : String) : (deleteById id).work =
    .statement databaseFault fun db => .ok ((), AuthorisedRepository.deleteById db id) := rfl

/-- A call that fails leaves the database as it was. -/
theorem attempt_error {e : Error} (h : (c.attempt served db).1 = .error e) :
    (c.attempt served db).2 = db := by
  unfold attempt at h ⊢
  rcases hw : c.work ⟨db, (), served⟩ with ⟨r, w'⟩
  rw [hw] at h
  simp only at h
  subst h
  cases c with
  | deleteById id =>
    rw [work_deleteById] at hw
    exact (Work.statement_error hw).1
  | assets item => exact Work.transaction_error hw
  | users item => exact Work.transaction_error hw
  | userGroups item => exact Work.transaction_error hw

/-- A call that returns has deleted the id, or replaced the rows. -/
theorem attempt_ok (h : (c.attempt served db).1 = .ok ()) :
    (∃ id, c = .deleteById id ∧
      (c.attempt served db).2 = AuthorisedRepository.deleteById db id) ∨
    (∀ id, c ≠ .deleteById id) ∧
      ∃ t, db.authorised.replaceInBatches 100 c.rows = (t, true) ∧
        (c.attempt served db).2 = { db with authorised := t } := by
  unfold attempt at h ⊢
  rcases hw : c.work ⟨db, (), served⟩ with ⟨r, w'⟩
  rw [hw] at h
  simp only at h ⊢
  subst h
  cases c with
  | deleteById id =>
    rw [work_deleteById] at hw
    refine .inl ⟨id, rfl, ?_⟩
    exact (Prod.mk.inj (Except.ok.inj (Work.statement_ok hw).1)).2.symm
  | assets item => exact .inr ⟨fun _ => nofun, replaceInBatches_ok.mp (replaceRows_ok hw)⟩
  | users item => exact .inr ⟨fun _ => nofun, replaceInBatches_ok.mp (replaceRows_ok hw)⟩
  | userGroups item => exact .inr ⟨fun _ => nofun, replaceInBatches_ok.mp (replaceRows_ok hw)⟩

end GrantCall

/-! ## Runs -/

section Runs

variable {k : IdKinds} {c : GrantCall} {served : Option Nat} {db : Database} {s : Granting}

/-- Every row is about ids in use and stands under the id that `Sign` computes for its triple. -/
def Signed (k : IdKinds) (db : Database) : Prop :=
  Table.Coded Authorised.triple Triple.id k.triples db.authorised

/-- What a run keeps. -/
structure Granting.Inv (k : IdKinds) (s : Granting) : Prop where
  signed : Signed k s.db
  isMap : IsMap k s.db s.granted

theorem rows_coded (hc : k.Admits c) : ∀ r ∈ c.rows, r.triple ∈ k.triples ∧ r.id = r.triple.id := by
  intro r hr
  obtain ⟨htriple, hid, -⟩ := GrantCall.of_mem_rows hr
  exact ⟨hc _ htriple, hid⟩

theorem mem_deleteById {r : Authorised} {id : String} :
    r ∈ (AuthorisedRepository.deleteById db id).authorised ↔ r ∈ db.authorised ∧ r.id ≠ id := by
  show r ∈ db.authorised.deleteWhere _ ↔ _
  simp

/-- A call that returns leaves the rows alone whose triples it does not name. -/
theorem mem_attempt_of_not_names (hid : Set.InjOn Triple.id k.triples) (hdb : Signed k db)
    (hc : k.Admits c) (h : (c.attempt served db).1 = .ok ()) {r : Authorised}
    (hr : ¬ c.Names r.triple) : r ∈ (c.attempt served db).2.authorised ↔ r ∈ db.authorised := by
  rcases GrantCall.attempt_ok h with ⟨id, rfl, hdel⟩ | ⟨hne, t, hreplace, hafter⟩
  · rw [hdel, mem_deleteById]
    refine ⟨And.left, fun hmem => ⟨hmem, ?_⟩⟩
    rw [(hdb r hmem).2]
    exact hr
  · have hnot : r.triple ∉ c.triples := by
      cases c with
      | deleteById id => exact absurd rfl (hne id)
      | assets item => exact hr
      | users item => exact hr
      | userGroups item => exact hr
    rw [hafter]
    show r ∈ t ↔ _
    rw [hdb.mem_replaceInBatches hid (rows_coded hc) hreplace]
    constructor
    · rintro (hmem | ⟨hmem, -⟩)
      · exact absurd (GrantCall.of_mem_rows hmem).1 hnot
      · exact hmem
    · intro hmem
      refine .inr ⟨hmem, fun a ha heq => hnot ?_⟩
      rw [heq]
      exact (GrantCall.of_mem_rows ha).1

theorem signed_attempt (hdb : Signed k db) (hc : k.Admits c)
    (h : (c.attempt served db).1 = .ok ()) : Signed k (c.attempt served db).2 := by
  rcases GrantCall.attempt_ok h with ⟨id, rfl, hdel⟩ | ⟨-, t, hreplace, hafter⟩
  · rw [hdel]
    exact Table.Coded.deleteWhere hdb _
  · rw [hafter]
    exact Table.Coded.replaceInBatches hdb (rows_coded hc) hreplace

/-- A call that returns overrides the map as `record` says. -/
theorem isMap_attempt {g : Grants} (hid : Set.InjOn Triple.id k.triples) (hdb : Signed k db)
    (hmap : IsMap k db g) (hc : k.Admits c) (h : (c.attempt served db).1 = .ok ()) :
    IsMap k (c.attempt served db).2 (c.record g) := by
  intro t ht gr
  by_cases hnames : c.Names t
  · rcases GrantCall.attempt_ok h with ⟨id, rfl, hdel⟩ | ⟨hne, u, hreplace, hafter⟩
    · -- the row of a deleted id is gone, and the map forgets the grant
      have hid : t.id = id := hnames
      rw [hdel]
      simp only [GrantCall.record, if_pos hid]
      constructor
      · exact nofun
      · rintro ⟨r, hr, rfl, -⟩
        obtain ⟨hr, hneid⟩ := mem_deleteById.mp hr
        rw [(hdb r hr).2] at hneid
        exact absurd hid hneid
    · have hrec : c.record g t = some c.grant ∧ t ∈ c.triples := by
        cases c with
        | deleteById id => exact absurd rfl (hne id)
        | assets item => exact ⟨if_pos hnames, hnames⟩
        | users item => exact ⟨if_pos hnames, hnames⟩
        | userGroups item => exact ⟨if_pos hnames, hnames⟩
      rw [hrec.1, hafter, Option.some.injEq]
      have hmem := fun r => hdb.mem_replaceInBatches (b := r) hid (rows_coded hc) hreplace
      constructor
      · rintro rfl
        obtain ⟨r, hr, hrt⟩ := GrantCall.exists_row hrec.2
        exact ⟨r, (hmem r).mpr (.inl hr), hrt, (GrantCall.of_mem_rows hr).2.2⟩
      · rintro ⟨r, hr, rfl, rfl⟩
        rcases (hmem r).mp hr with hr | ⟨-, hother⟩
        · exact (GrantCall.of_mem_rows hr).2.2.symm
        · obtain ⟨a, ha, hat⟩ := GrantCall.exists_row hrec.2
          exact absurd hat.symm (hother a ha)
  · -- a triple that the call does not name keeps its row and its grant
    have hrec : c.record g t = g t := by
      cases c with
      | deleteById id => exact if_neg hnames
      | assets item => exact if_neg hnames
      | users item => exact if_neg hnames
      | userGroups item => exact if_neg hnames
    rw [hrec, hmap t ht gr]
    refine exists_congr fun r => ?_
    constructor
    · rintro ⟨hr, rfl, hgr⟩
      exact ⟨(mem_attempt_of_not_names hid hdb hc h hnames).mpr hr, rfl, hgr⟩
    · rintro ⟨hr, rfl, hgr⟩
      exact ⟨(mem_attempt_of_not_names hid hdb hc h hnames).mp hr, rfl, hgr⟩

theorem Granting.inv_call (hid : Set.InjOn Triple.id k.triples) (hs : s.Inv k) (hc : k.Admits c) :
    (s.call (c, served)).Inv k := by
  unfold Granting.call
  rcases h : c.attempt served s.db with ⟨r, db⟩
  cases r with
  | ok u =>
    have hok : (c.attempt served s.db).1 = .ok () := by rw [h]
    have hdb : (c.attempt served s.db).2 = db := by rw [h]
    refine ⟨?_, ?_⟩
    · have hsigned := signed_attempt hs.signed hc hok
      rw [hdb] at hsigned
      exact hsigned
    · have hmap := isMap_attempt hid hs.signed hs.isMap hc hok
      rw [hdb] at hmap
      exact hmap
  | error e =>
    have hdb : db = s.db := by
      have herr : (c.attempt served s.db).1 = .error e := by rw [h]
      rw [← GrantCall.attempt_error herr, h]
    subst hdb
    exact hs

theorem Granting.inv_calls (hid : Set.InjOn Triple.id k.triples)
    {cs : List (GrantCall × Option Nat)} (hs : s.Inv k) (hcs : ∀ c ∈ cs, k.Admits c.1) :
    (s.calls cs).Inv k := by
  unfold Granting.calls
  induction cs generalizing s with
  | nil => exact hs
  | cons c cs ih =>
    exact ih (inv_call hid hs (hcs c List.mem_cons_self))
      fun d hd => hcs d (List.mem_cons_of_mem c hd)

theorem inv_of_empty (h : db.authorised = ∅) : (Granting.mk db fun _ => none).Inv k := by
  refine ⟨?_, ?_⟩
  · show Table.Coded Authorised.triple Triple.id k.triples db.authorised
    rw [h]
    exact Table.coded_empty
  · intro t _ g
    show none = some g ↔ ∃ r ∈ db.authorised, _
    rw [h]
    simp [Table.mem_def]

end Runs

/-- **The authorised table is a map.** `Sign` is injective on triples, and after every run of grant
calls there is at most one row for each triple, with the grant of the last call for it; a further call
leaves the rows alone that it does not name, and one that fails leaves everything as it was. -/
theorem authorised_isMap (k : IdKinds)
    (hmd5 : Set.InjOn Digest.md5Hex (Triple.text '' k.triples)) :
    Set.InjOn Triple.id k.triples ∧
    ∀ (db : Database) (cs : List (GrantCall × Option Nat)), db.authorised = ∅ →
      (∀ c ∈ cs, k.Admits c.1) →
      let s := (Granting.mk db fun _ => none).calls cs
      AtMostOneRow s.db ∧ IsMap k s.db s.granted ∧
        ∀ c served, k.Admits c →
          ((c.attempt served s.db).1 = .ok () → ∀ r, ¬ c.Names r.triple →
            (r ∈ (c.attempt served s.db).2.authorised ↔ r ∈ s.db.authorised)) ∧
          ∀ e, (c.attempt served s.db).1 = .error e → (c.attempt served s.db).2 = s.db := by
  have hid := id_injOn hmd5
  refine ⟨hid, fun db cs hempty hcs => ?_⟩
  have hinv : ((Granting.mk db fun _ => none).calls cs).Inv k :=
    Granting.inv_calls hid (inv_of_empty hempty) hcs
  refine ⟨fun r hr r' hr' h => hinv.signed.eq_of_nat hr hr' h, hinv.isMap, fun c served hc => ?_⟩
  refine ⟨fun hok r hr => ?_, fun e he => GrantCall.attempt_error he⟩
  exact mem_attempt_of_not_names hid hinv.signed hc hok hr

/-! ## A run -/

def ordersId : String := "3b241101-e2bb-4255-8caf-4136c566a962"
def teamId : String := "9f1b5d1c-6a1e-4f0e-9a57-0c9f5c1f7a10"

/-- One asset, the super administrator and one group. -/
def someKinds : IdKinds where
  asset := {ordersId}
  user := {superAdminID}
  group := {teamId}
  wellFormed := by
    rintro id (rfl | rfl | rfl)
    · exact .inl (by decide)
    · exact .inr rfl
    · exact .inl (by decide)
  asset_user := Set.disjoint_singleton.mpr (by decide)
  asset_group := Set.disjoint_singleton.mpr (by decide)
  user_group := Set.disjoint_singleton.mpr (by decide)

def someTriples : List Triple :=
  [⟨ordersId, "", ""⟩, ⟨ordersId, superAdminID, ""⟩, ⟨ordersId, "", teamId⟩,
    ⟨ordersId, superAdminID, teamId⟩]

theorem mem_someTriples {t : Triple} (ht : t ∈ someKinds.triples) : t ∈ someTriples := by
  obtain ⟨a, u, g⟩ := t
  obtain ⟨rfl, rfl | rfl, rfl | rfl⟩ := ht <;> simp [someTriples]

theorem someTriples_nodup : (someTriples.map Triple.id).Nodup := by decide +kernel

theorem someKinds_md5 : Set.InjOn Digest.md5Hex (Triple.text '' someKinds.triples) := by
  rintro _ ⟨t, ht, rfl⟩ _ ⟨t', ht', rfl⟩ h
  rw [List.inj_on_of_nodup_map someTriples_nodup (mem_someTriples ht) (mem_someTriples ht') h]

/-- Two grants for one triple, one for another, and one that the database does not finish. -/
def grantRun : List (GrantCall × Option Nat) :=
  [(.assets { assetIds := [ordersId], userId := superAdminID, strategyId := "read" }, none),
    (.userGroups { userGroupIds := [teamId], assetId := ordersId, strategyId := "write" }, none),
    (.users { userIds := [superAdminID], assetId := ordersId, strategyId := "all" }, some 5),
    (.userGroups { userGroupIds := [teamId], assetId := ordersId }, some 1)]

theorem grantRun_admitted : ∀ c ∈ grantRun, someKinds.Admits c.1 := by
  intro c hc
  have hu : (⟨ordersId, superAdminID, ""⟩ : Triple) ∈ someKinds.triples :=
    ⟨rfl, .inr rfl, .inl rfl⟩
  have hg : (⟨ordersId, "", teamId⟩ : Triple) ∈ someKinds.triples := ⟨rfl, .inl rfl, .inr rfl⟩
  simp only [grantRun, List.mem_cons, List.not_mem_nil, or_false] at hc
  rcases hc with rfl | rfl | rfl | rfl <;>
    simp [IdKinds.Admits, GrantCall.triples, hu, hg]

theorem authorised_isMap_grantRun :
    let s := (Granting.mk {} fun _ => none).calls grantRun
    (AtMostOneRow s.db ∧ IsMap someKinds s.db s.granted) ∧
      s.granted ⟨ordersId, superAdminID, ""⟩ = some ⟨"", "all", ""⟩ ∧
      s.granted ⟨ordersId, "", teamId⟩ = some ⟨"", "write", ""⟩ := by
  have h := (authorised_isMap someKinds someKinds_md5).2 {} grantRun rfl grantRun_admitted
  refine ⟨⟨h.1, h.2.1⟩, ?_⟩
  decide +kernel

end NextDBM
