import NextDBM.Accounts.Migration
import NextDBM.Accounts.Proofs.PropertyCacheProofs
import NextDBM.Gate.Proofs.GateProofs
import NextDBM.Library.ListOrders

/-!
# Proofs: the migration gate

The migrations do not touch the properties and the update stores the version of the program. Two
versions are ordered as texts by the first parts in which they differ, which is the order of the
numbers only when these parts are ordered alike as texts and as numbers.
-/

namespace NextDBM

open Relational PaddedOrder

section Migration

/-! ## Numbers of texts -/

/-- A text of digits is not negative. -/
theorem stringToInt_nonneg {p : String} (h : p ≠ "" ∧ p.toList.all Char.isDigit = true) :
    0 ≤ stringToInt p := by
  have hvalue : ∀ x : Option Nat, (0 : Int) ≤ (x.map fun n => (n : Int)).getD 0 := by
    intro x
    cases x with
    | none => exact le_refl _
    | some n => exact Int.natCast_nonneg n
  unfold stringToInt
  simp only
  split
  · next cs heq =>
    rw [heq] at h
    exact absurd h.2 (by simp)
  · next cs heq =>
    rw [heq] at h
    exact absurd h.2 (by simp)
  · have hdecimal := hvalue (IPv4.decimal (String.ofList p.toList))
    omega

section Compare

variable {ps qs : List String} {p q : String}

/-- The numbers that only the second version has make it the newer one when one of them is not 0. -/
theorem compareMissing_eq (h : ∀ q ∈ qs, 0 ≤ stringToInt q) :
    compareMissing qs = -1 ↔ ∃ q ∈ qs, stringToInt q ≠ 0 := by
  induction qs with
  | nil => simp [compareMissing]
  | cons q qs ih =>
    have hq := h q List.mem_cons_self
    have hrest := ih fun q' hq' => h q' (List.mem_cons_of_mem _ hq')
    rw [compareMissing, comparePart]
    by_cases hzero : stringToInt q = 0
    · rw [if_neg (by omega), if_neg (by omega), hrest]
      simp [hzero]
    · rw [if_pos (by omega)]
      simp [hzero]

theorem compareParts_nil_right (h : ∀ p ∈ ps, 0 ≤ stringToInt p) : compareParts ps [] ≠ -1 := by
  induction ps with
  | nil => simp [compareParts, compareMissing]
  | cons p ps ih =>
    have hp := h p List.mem_cons_self
    have hrest := ih fun p' hp' => h p' (List.mem_cons_of_mem _ hp')
    rw [compareParts, comparePart, firstNum, if_neg (by omega)]
    split
    · decide
    · exact hrest

/-- The parts of one version come before those of the other as texts. -/
def Precedes (ps qs : List String) : Prop :=
  (ps = [] ∧ qs ≠ []) ∨ (ps ≠ [] ∧ qs ≠ [] ∧ Text.join "." ps < Text.join "." qs)

theorem dot_lt_digits (h : p ≠ "" ∧ p.toList.all Char.isDigit = true) :
    ∀ ch ∈ p.toList, '.' < ch := by
  intro ch hch
  have hdigit := List.all_eq_true.mp h.2 ch hch
  have hle : '0' ≤ ch := by
    rw [Char.isDigit, Bool.and_eq_true_iff] at hdigit
    exact of_decide_eq_true hdigit.1
  exact lt_of_lt_of_le (by decide) hle

/-- **The two orders agree** on two versions exactly when their parts are ordered as texts. -/
theorem precedes_iff_orderedAsText (hps : ∀ p ∈ ps, p ≠ "" ∧ p.toList.all Char.isDigit = true)
    (hqs : ∀ q ∈ qs, q ≠ "" ∧ q.toList.all Char.isDigit = true) :
    (Precedes ps qs ↔ compareParts ps qs = -1) ↔ OrderedAsText ps qs := by
  induction ps generalizing qs with
  | nil =>
    rw [compareParts, compareMissing_eq fun q hq => stringToInt_nonneg (hqs q hq), OrderedAsText]
    cases qs with
    | nil => simp [Precedes]
    | cons q qs => simp [Precedes]
  | cons p ps ih =>
    cases qs with
    | nil =>
      have hnot := compareParts_nil_right fun p hp => stringToInt_nonneg (hps p hp)
      simp [Precedes, OrderedAsText, hnot]
    | cons q qs =>
      have hp := hps p List.mem_cons_self
      have hq := hqs q List.mem_cons_self
      have hprecedes : Precedes (p :: ps) (q :: qs) ↔
          Text.join "." (p :: ps) < Text.join "." (q :: qs) := by
        simp [Precedes]
      have hdot : ".".toList = ['.'] := by decide
      rw [hprecedes, compareParts, comparePart, firstNum, List.tail_cons, OrderedAsText]
      by_cases heq : p = q
      · subst heq
        rw [Text.join_lt_join_same hdot, if_neg (lt_irrefl _), if_neg (lt_irrefl _), if_pos rfl]
        exact ih (fun p' hp' => hps p' (List.mem_cons_of_mem _ hp'))
          fun q' hq' => hqs q' (List.mem_cons_of_mem _ hq')
      · rw [Text.join_lt_join_of_ne hdot (dot_lt_digits hp) (dot_lt_digits hq) heq, if_neg heq]
        by_cases hvalue : stringToInt p = stringToInt q
        · rw [if_neg (by omega), if_neg (by omega), if_pos hvalue]
        · rw [if_neg hvalue]
          by_cases hlt : stringToInt p < stringToInt q
          · simp [hlt]
          · rw [if_neg hlt, if_pos (by omega)]
            simp [hlt]

end Compare

namespace Version

theorem split_text (v : Version) : Text.split (trimPrefixV v.text) '.' = v.parts := by
  have hprefix : Text.hasPrefix v.text "v" = true := by
    rw [Text.hasPrefix_iff, text, String.toList_append]
    exact List.prefix_append _ _
  have htrim : trimPrefixV v.text = Text.join "." v.parts := by
    rw [trimPrefixV, if_pos hprefix, text, String.toList_append]
    exact String.ofList_toList
  rw [htrim]
  refine Text.split_join (by decide) v.nonempty fun p hp hdot => ?_
  exact lt_irrefl _ (dot_lt_digits (v.digits p hp) '.' hdot)

theorem text_lt_text (v w : Version) : v.text < w.text ↔ Precedes v.parts w.parts := by
  have hjoin : v.text < w.text ↔ Text.join "." v.parts < Text.join "." w.parts := by
    show v.text.toList < w.text.toList ↔ _
    rw [text, text, String.toList_append, String.toList_append]
    exact Text.append_lt_append_left
  rw [hjoin, Precedes]
  simp [v.nonempty, w.nonempty]

theorem text_ne_empty (v : Version) : v.text ≠ "" := by
  intro h
  have hlist := congrArg String.toList h
  rw [text, String.toList_append] at hlist
  exact absurd hlist (List.cons_ne_nil _ _)

end Version

/-! ## A run of `Migrate` -/

namespace Migration

open MigrateService (authorisedOf)
open PropertyStore PropertyCache

variable {calls : MigrateCalls} {s s' : MigrateStore} {db : Database} {localVersion version : String}

theorem deleteAuthorised_properties (calls : MigrateCalls) (db : Database)
    (results : List (ResourceSharer × Nat)) :
    (deleteAuthorised calls db results).2.properties = db.properties := by
  induction results generalizing db with
  | nil => rfl
  | cons result results ih =>
    rw [deleteAuthorised]
    split
    · exact ih _
    · rfl

theorem createAuthorised_properties (calls : MigrateCalls) (db : Database)
    (items : List Authorised) : (createAuthorised calls db items).2.properties = db.properties := by
  unfold createAuthorised
  split
  · split
    · rfl
    · split <;> rfl
  · rfl

theorem moveSharers_properties (calls : MigrateCalls) (s : MigrateStore)
    (sharers : List ResourceSharer) :
    (moveSharers calls s sharers).2.properties.db.properties = s.properties.db.properties := by
  have hdelete := deleteAuthorised_properties calls s.properties.db
    (sharers.filter fun r => r.resourceType == "asset").zipIdx
  unfold moveSharers
  simp only
  split
  · next hloop =>
    rw [hloop] at hdelete
    exact hdelete
  · next db hloop =>
    rw [hloop] at hdelete
    have hcreate := createAuthorised_properties calls db
      ((sharers.filter fun r => r.resourceType == "asset").map authorisedOf)
    split
    · next hrows =>
      rw [hrows] at hcreate
      exact hcreate.trans hdelete
    · next hrows =>
      rw [hrows] at hcreate
      split <;> exact hcreate.trans hdelete

/-- The migrations leave the properties alone. -/
theorem migrateFormV127to130_properties (calls : MigrateCalls) (s : MigrateStore)
    (localVersion : String) :
    (migrateFormV127to130 calls s localVersion).2.properties.db.properties =
      s.properties.db.properties := by
  unfold migrateFormV127to130
  split
  · rfl
  · split
    · rfl
    · simp only
      split
      · rfl
      · split
        · exact moveSharers_properties ..
        · rfl

theorem value_of_text {item : PropertyItem} (h : item.text ≠ "") : item.value = item.text :=
  if_neg h

/-- Where there is a version, an update that succeeds stores the new one. -/
theorem updateVersion_ok (hversion : version ≠ "")
    (hstored : (stored s.properties.db "version").isSome = true)
    (h : (updateVersion calls s version).1 = .ok ()) :
    stored (updateVersion calls s version).2.properties.db "version" = some version := by
  unfold updateVersion at h ⊢
  simp only [updateItems] at h ⊢
  generalize hitem : ({ key := "version", text := version, findServed := calls.findProperty,
                        writeServed := calls.writeProperty } : PropertyItem) = item at h ⊢
  have hkey : item.key = "version" := by rw [← hitem]
  have hvalue : item.value = version := by
    have htext : item.text = version := by rw [← hitem]
    rw [value_of_text (by rw [htext]; exact hversion), htext]
  by_cases hfails : Fails s.properties.db item
  · obtain ⟨e, he⟩ := updateItem_error hfails s.properties.manager
    rw [he] at h
    cases h
  · obtain ⟨db, hdb, hall⟩ := updateItem_ok hfails s.properties.manager
    rw [hdb] at h ⊢
    simp only at h ⊢
    split at h
    · next hcommit =>
      rw [if_pos hcommit]
      refine (hall "version").trans ?_
      rw [if_pos ⟨hkey.symm, .inr (by rw [hkey]; exact hstored)⟩, hvalue]
    · cases h

theorem stored_congr {db db' : Database} (h : db'.properties = db.properties) (key : String) :
    stored db' key = stored db key := by
  rw [stored, stored, h]

/-- Past the gate, a successful run leaves the version of the program. -/
theorem runMigrations_ok (hversion : version ≠ "")
    (hstored : (stored s.properties.db "version").isSome = true)
    (h : (runMigrations calls version s localVersion).result = .ok ()) :
    stored (runMigrations calls version s localVersion).store.properties.db "version" =
      some version := by
  have hkeep := migrateFormV127to130_properties calls s localVersion
  unfold runMigrations at h ⊢
  rcases hmigrated : migrateFormV127to130 calls s localVersion with ⟨e | u, s'⟩
  · rw [hmigrated] at h
    cases h
  · rw [hmigrated] at h hkeep
    refine updateVersion_ok hversion ?_ h
    rw [stored_congr hkeep]
    exact hstored

theorem runMigrations_migrated : (runMigrations calls version s localVersion).migrated = true := by
  unfold runMigrations
  split <;> rfl

/-- With a stored version that is read, the gate compares the texts. -/
theorem migrate_of_stored (hfind : calls.findVersion = true)
    (hstored : stored s.properties.db "version" = some localVersion) :
    migrate calls version s =
      if localVersion < version then runMigrations calls version s localVersion
      else { migrated := false, result := .ok (), store := s } := by
  obtain ⟨p, hp, hvalue⟩ := Option.map_eq_some_iff.mp hstored
  have hread : findByName s.properties.db
      { key := "version", text := "", findServed := calls.findVersion } = .ok p := by
    rw [findByName, hfind, hp]
    rfl
  unfold migrate
  rw [hread, ← hvalue]

/-! ## The gate -/

/-- A store with a version and nothing else. -/
def storeOf (localVersion : String) : MigrateStore :=
  { properties :=
      { db := { properties := ⟨[{ name := "version", value := localVersion }], by simp⟩ }
        manager := fun _ => none } }

theorem stored_storeOf (localVersion : String) :
    stored (storeOf localVersion).properties.db "version" = some localVersion :=
  stored_eq_some.mpr ⟨_, List.mem_cons_self, rfl, rfl⟩

/-- The gate opens exactly when the stored version comes first as a text. -/
theorem migrate_migrated (hfind : calls.findVersion = true)
    (hstored : stored s.properties.db "version" = some localVersion) :
    (migrate calls version s).migrated = true ↔ localVersion < version := by
  rw [migrate_of_stored hfind hstored]
  split
  · next hlt => exact iff_of_true runMigrations_migrated hlt
  · next hlt => exact iff_of_false Bool.false_ne_true hlt

/-- **The gate decides like the update check** for two versions exactly when their parts are ordered
as texts as they are as numbers; a successful run always stores the version of the program. -/
theorem gateAgrees_iff (localVersion version : Version) :
    GateAgrees localVersion.text version.text ↔
      OrderedAsText localVersion.parts version.parts := by
  rw [← precedes_iff_orderedAsText localVersion.digits version.digits, ← Version.text_lt_text,
    ← localVersion.split_text, ← version.split_text]
  constructor
  · intro h
    obtain ⟨hgate, -⟩ := h {} (storeOf localVersion.text) rfl (stored_storeOf _)
    have hfind : ({} : MigrateCalls).findVersion = true := rfl
    rw [← migrate_migrated hfind (stored_storeOf localVersion.text)]
    exact hgate
  · intro h calls s hfind hstored
    rw [migrate_migrated hfind hstored]
    refine ⟨h, fun hlt hok => ?_⟩
    rw [migrate_of_stored hfind hstored, if_pos hlt] at hok ⊢
    have hsome : (stored s.properties.db "version").isSome = true := by rw [hstored]; rfl
    exact runMigrations_ok version.text_ne_empty hsome hok

/-- `v1.9.0` and `v1.10.0` -/
def nine : Version := ⟨["1", "9", "0"], by decide, by decide⟩

def ten : Version := ⟨["1", "10", "0"], by decide, by decide⟩

/-- Version 1.9.0 is older than 1.10.0, and its data is not migrated. -/
theorem not_gateAgrees_ten :
    ¬ ∀ localVersion version : Version, GateAgrees localVersion.text version.text := by
  intro h
  obtain ⟨hgate, -⟩ := h nine ten {} (storeOf nine.text) rfl (stored_storeOf _)
  have hfind : ({} : MigrateCalls).findVersion = true := rfl
  rw [migrate_migrated hfind (stored_storeOf nine.text), compareVersions,
    nine.split_text, ten.split_text] at hgate
  revert hgate
  decide

/-! ## The migrations without failing statements -/

theorem deleteAuthorised_ok {results : List (ResourceSharer × Nat)}
    (h : (deleteAuthorised calls db results).1 = .ok ()) :
    (deleteAuthorised calls db results).2 =
      (results.map fun r => authorisedOf r.1).foldl
        (fun db r => AuthorisedRepository.deleteById db r.id) db := by
  induction results generalizing db with
  | nil => rfl
  | cons result results ih =>
    rw [deleteAuthorised] at h ⊢
    split at h
    · next hserved =>
      rw [if_pos hserved]
      exact ih h
    · cases h

theorem createAuthorised_ok {items : List Authorised}
    (h : (createAuthorised calls db items).1 = .ok ()) :
    ∃ authorised, db.authorised.insertInBatches 100 items = (authorised, true) ∧
      (createAuthorised calls db items).2 = { db with authorised } := by
  unfold createAuthorised at h ⊢
  split at h
  · next hserved =>
    rw [if_pos hserved]
    rcases hinsert : db.authorised.insertInBatches 100 items with ⟨authorised, _ | _⟩
    · rw [hinsert] at h
      cases h
    · exact ⟨authorised, rfl, rfl⟩
  · cases h

/-- The rows of the old table are moved as in the request of the access model. -/
theorem moveSharers_db {sharers : List ResourceSharer}
    (h : (moveSharers calls s sharers).1 = .ok ()) (skip : Bool) :
    (moveSharers calls s sharers).2.properties.db =
      let items := (sharers.filter fun r => r.resourceType == "asset").map authorisedOf
      let db := items.foldl (fun db r => AuthorisedRepository.deleteById db r.id) s.properties.db
      match db.authorised.insertInBatches 100 items with
      | (authorised, true) => { db with authorised }
      | (authorised, false) => if skip then { db with authorised } else db := by
  have hdelete := @deleteAuthorised_ok calls s.properties.db
    (sharers.filter fun r => r.resourceType == "asset").zipIdx
  have hitems : ∀ rs : List ResourceSharer,
      (rs.zipIdx.map fun r => authorisedOf r.1) = rs.map authorisedOf := by
    intro rs
    have hfst : (rs.zipIdx.map Prod.fst).map authorisedOf = rs.map authorisedOf := by simp
    rwa [List.map_map] at hfst
  rw [hitems] at hdelete
  unfold moveSharers at h ⊢
  simp only at h ⊢
  rcases hloop : deleteAuthorised calls s.properties.db
    (sharers.filter fun r => r.resourceType == "asset").zipIdx with ⟨e | u, db⟩
  · rw [hloop] at h
    cases h
  · rw [hloop] at h hdelete
    rw [← hdelete rfl]
    simp only at h ⊢
    rcases hcreate : createAuthorised calls db
      ((sharers.filter fun r => r.resourceType == "asset").map authorisedOf) with ⟨e | u, db'⟩
    · rw [hcreate] at h
      cases h
    · obtain ⟨authorised, hinsert, hdb⟩ := createAuthorised_ok (by rw [hcreate])
      rw [hcreate] at hdb
      rw [hinsert]
      simp only [hloop, hcreate]
      split
      · exact hdb
      · exact hdb

/-- A successful migration changes the database as the request of the access model does. -/
theorem migrateFormV127to130_db (h : (migrateFormV127to130 calls s localVersion).1 = .ok ()) :
    (migrateFormV127to130 calls s localVersion).2.properties.db =
      MigrateService.migrateFormV127to130 s.properties.db localVersion
        (if calls.selectSharers then s.resourceSharers else none) calls.skipDefaultTransaction := by
  have hlater : (!Text.hasInfix localVersion "beta" && decide ("v1.3.0" < localVersion)) = true ↔
      ¬ "beta".toList <:+: localVersion.toList ∧ "v1.3.0" < localVersion := by
    simp [Text.hasInfix]
  unfold migrateFormV127to130 at h ⊢
  unfold MigrateService.migrateFormV127to130
  by_cases hnew : ¬ "beta".toList <:+: localVersion.toList ∧ "v1.3.0" < localVersion
  · rw [if_pos (hlater.mpr hnew), if_pos hnew]
  · rw [if_neg (hlater.not.mpr hnew)] at h ⊢
    rw [if_neg hnew]
    by_cases hupdate : (!calls.updateStrategies) = true
    · rw [if_pos hupdate] at h
      cases h
    · rw [if_neg hupdate] at h ⊢
      simp only at h ⊢
      cases hsharers : s.resourceSharers with
      | none => simp
      | some sharers =>
        rw [hsharers] at h
        cases hselect : calls.selectSharers with
        | false => rfl
        | true =>
          simp only [hselect, if_true] at h ⊢
          exact moveSharers_db h _

end Migration

end Migration

/-! ## The order of versions

Every step of `CompareVersions` compares the first parts of what is left, where a missing part counts as
0; so its result compares the padded lists of numbers. The laws are those of the lexicographic order.
-/

section VersionOrder

/-! ## The loop -/

section Loop

variable {ps qs : List String}

theorem firstNum_eq (ps : List String) : firstNum ps = (ps.map stringToInt).headD 0 := by
  cases ps <;> rfl

/-- One step, with or without a part on either side. -/
theorem compareParts_step (ps qs : List String) : compareParts ps qs =
    comparePart (firstNum ps) (firstNum qs) (compareParts ps.tail qs.tail) := by
  cases ps with
  | cons p ps => rfl
  | nil =>
    cases qs with
    | cons q qs => rfl
    | nil => rfl

/-- What the step preserves: the rest decides when the first parts are the same. -/
theorem compares_step (h : Compares (compareParts ps.tail qs.tail)
    (padded 0 (ps.tail.map stringToInt)) (padded 0 (qs.tail.map stringToInt))) :
    Compares (compareParts ps qs) (padded 0 (ps.map stringToInt)) (padded 0 (qs.map stringToInt)) := by
  rw [compareParts_step, comparePart, firstNum_eq, firstNum_eq]
  rw [List.map_tail, List.map_tail] at h
  exact h.cons

/-- **What the loop computes.** -/
theorem compares_parts (ps qs : List String) :
    Compares (compareParts ps qs) (padded 0 (ps.map stringToInt)) (padded 0 (qs.map stringToInt)) := by
  induction ps generalizing qs with
  | nil =>
    induction qs with
    | nil => exact compares_self _
    | cons q qs ih => exact compares_step ih
  | cons p ps ih => exact compares_step (ih qs.tail)

end Loop

/-! ## Texts -/

namespace VersionText

variable {a b : VersionText}

theorem isDigit_of_mem_bare {ch : Char} (h : ch ∈ a.bare.toList) : ch.isDigit = true ∨ ch = '.' := by
  have hjoin (ns : List Numeral) (h : ch ∈ (Text.join "." (ns.map Numeral.digits)).toList) :
      ch.isDigit = true ∨ ch = '.' := by
    induction ns with
    | nil => cases h
    | cons n ns ih =>
      have hn := (isDigit_of_decimal n.reads).2 ch
      cases ns with
      | nil => exact .inl (hn h)
      | cons n' ns =>
        rw [List.map_cons, List.map_cons, Text.join, String.toList_append, String.toList_append] at h
        rcases List.mem_append.mp h with h | h
        · rcases List.mem_append.mp h with h | h
          · exact .inl (hn h)
          · exact .inr (List.mem_singleton.mp h)
        · exact ih h
  exact hjoin a.numerals h

theorem hasPrefix_bare (a : VersionText) : Text.hasPrefix a.bare "v" = false := by
  by_contra h
  obtain ⟨t, ht⟩ := Text.hasPrefix_iff.mp (eq_true_of_ne_false h)
  have hmem : 'v' ∈ a.bare.toList := by
    rw [← ht]
    exact List.mem_append_left _ (List.mem_singleton_self 'v')
  rcases isDigit_of_mem_bare hmem with hdigit | hdot
  · cases hdigit
  · cases hdot

theorem trimPrefixV_bare (a : VersionText) : trimPrefixV a.bare = a.bare := by
  rw [trimPrefixV, hasPrefix_bare]
  exact if_neg Bool.false_ne_true

theorem trimPrefixV_prefixed (s : String) : trimPrefixV ("v" ++ s) = s := by
  have hprefix : Text.hasPrefix ("v" ++ s) "v" = true := by
    rw [Text.hasPrefix_iff, String.toList_append]
    exact List.prefix_append _ _
  rw [trimPrefixV, if_pos hprefix, String.toList_append]
  exact String.ofList_toList

theorem trimPrefixV_text (a : VersionText) : trimPrefixV a.text = a.bare := by
  unfold text
  split
  · exact trimPrefixV_prefixed a.bare
  · rw [String.empty_append]
    exact a.trimPrefixV_bare

theorem split_bare (a : VersionText) : Text.split a.bare '.' = a.numerals.map Numeral.digits := by
  refine Text.split_join (by decide) (List.cons_ne_nil _ _) fun p hp hdot => ?_
  obtain ⟨n, -, rfl⟩ := List.mem_map.mp hp
  have hdigit := (isDigit_of_decimal n.reads).2 '.' hdot
  cases hdigit

theorem map_stringToInt_digits (ns : List Numeral) :
    (ns.map Numeral.digits).map stringToInt = (ns.map Numeral.value).map Nat.cast := by
  rw [List.map_map, List.map_map]
  exact List.map_congr_left fun n _ => stringToInt_of_decimal n.reads n.fits

/-- **What `CompareVersions` computes** on two versions. -/
theorem compares_text (a b : VersionText) :
    Compares (compareVersions a.text b.text) a.key b.key := by
  have hcompares := compares_parts (a.numerals.map Numeral.digits) (b.numerals.map Numeral.digits)
  rw [map_stringToInt_digits, map_stringToInt_digits] at hcompares
  have hcast : StrictMono (Nat.cast : ℕ → ℤ) := fun m n h => Int.ofNat_lt.mpr h
  unfold compareVersions
  rw [trimPrefixV_text, trimPrefixV_text, split_bare, split_bare]
  constructor
  · exact hcompares.less.trans (padded_map_lt_iff hcast)
  · exact hcompares.same.trans (padded_map_eq_iff hcast.injective)
  · exact hcompares.greater.trans (padded_map_lt_iff hcast)

/-- The version with zeros after it. -/
def withZeros (a : VersionText) (n : Nat) : VersionText :=
  { a with others := a.others ++ List.replicate n Numeral.zero }

theorem join_snoc {d s : String} {ss : List String} (hne : ss ≠ []) :
    Text.join d (ss ++ [s]) = Text.join d ss ++ d ++ s := by
  induction ss with
  | nil => exact absurd rfl hne
  | cons s' ss ih =>
    cases ss with
    | nil => rfl
    | cons s'' ss =>
      have hrest := ih (List.cons_ne_nil s'' ss)
      rw [List.cons_append] at hrest
      rw [List.cons_append, List.cons_append, Text.join, hrest, Text.join]
      simp only [String.append_assoc]

theorem text_withZeros (a : VersionText) (n : Nat) : (a.withZeros n).text = a.text ++ zeroParts n := by
  induction n with
  | zero =>
    have hsame : a.withZeros 0 = a := by simp [withZeros]
    rw [hsame, zeroParts, String.append_empty]
  | succ n ih =>
    have hnumerals : (a.withZeros (n + 1)).numerals = (a.withZeros n).numerals ++ [Numeral.zero] := by
      simp [withZeros, numerals, List.replicate_succ']
    have hbare : (a.withZeros (n + 1)).bare = (a.withZeros n).bare ++ ".0" := by
      rw [bare, hnumerals, List.map_append, List.map_singleton,
        join_snoc (by simp [numerals]), String.append_assoc]
      rfl
    have htext : (a.withZeros (n + 1)).text = (a.withZeros n).text ++ ".0" := by
      rw [text, hbare, ← String.append_assoc]
      rfl
    rw [htext, ih, zeroParts, String.append_assoc]

theorem key_withZeros (a : VersionText) (n : Nat) : (a.withZeros n).key = a.key := by
  have hvalues : (a.withZeros n).numerals.map Numeral.value =
      a.numerals.map Numeral.value ++ List.replicate n 0 := by
    simp [withZeros, numerals, Numeral.zero]
  rw [key, hvalues, padded_append_replicate]
  rfl

end VersionText

/-! ## The order -/

/-- **`CompareVersions` is a version order.** -/
theorem compareVersions_isVersionOrder : IsVersionOrder where
  refl a := (a.compares_text a).same.mpr rfl
  antisymm a b := (a.compares_text b).neg (b.compares_text a)
  trans a b c hab hbc := by
    rw [(a.compares_text b).le_iff] at hab
    rw [(b.compares_text c).le_iff] at hbc
    exact (a.compares_text c).le_iff.mpr (hab.trans hbc)
  less a b := (a.compares_text b).less
  same a b := (a.compares_text b).same
  greater a b := (a.compares_text b).greater
  unprefixed a b := by
    unfold compareVersions
    rw [VersionText.trimPrefixV_prefixed, a.trimPrefixV_bare]
  zeros a b n := by
    have hzeros := (a.withZeros n).compares_text b
    rw [a.text_withZeros, a.key_withZeros] at hzeros
    exact hzeros.unique (a.compares_text b)

end VersionOrder

end NextDBM
