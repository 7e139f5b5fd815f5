import NextDBM.Accounts.PropertyCache

/-!
# Proofs: the cache of the properties

A round caches its item whether or not it stores it. So the cache stays with the table when every round
stores its item and the commit is served, or when what was cached is in the table anyway.
-/

namespace NextDBM

open Relational Transition

namespace PropertyCache

/-! ## Which keys are cached -/

theorem infix_of_dotStar {literal cs : List Char} (h : dotStar literal cs = true) :
    literal <:+: cs := by
  induction cs with
  | nil => exact (List.isPrefixOf_iff_prefix.mp h).isInfix
  | cons c cs ih =>
    rw [dotStar, Bool.or_eq_true, Bool.and_eq_true] at h
    rcases h with h | ⟨-, h⟩
    · exact (List.isPrefixOf_iff_prefix.mp h).isInfix
    · exact (ih h).trans (List.suffix_cons c cs).isInfix

theorem dotStar_of_begins {literal cs : List Char} (h : literal <+: cs) :
    dotStar literal cs = true := by
  have hprefix : literal.isPrefixOf cs = true := List.isPrefixOf_iff_prefix.mpr h
  cases cs with
  | nil => exact hprefix
  | cons c cs => rw [dotStar, hprefix, Bool.true_or]

/-- **The same keys**: the regular expression of `Update` matches what the test of `Reload` accepts. -/
theorem keyPattern_eq_isTarget (key : String) : keyPattern key = isTarget key := by
  rw [Bool.eq_iff_iff]
  unfold keyPattern isTarget targetPatterns
  simp only [List.any_eq_true, List.mem_tails, List.mem_cons, List.not_mem_nil, or_false,
    exists_eq_or_imp, exists_eq_left, Text.hasInfix_iff, Bool.or_eq_true]
  constructor
  · rintro ⟨cs, hcs, hstart | hport⟩
    · exact .inl (List.infix_iff_prefix_suffix.mpr ⟨cs, List.isPrefixOf_iff_prefix.mp hstart, hcs⟩)
    · exact .inr ((infix_of_dotStar hport).trans hcs.isInfix)
  · rintro (hstart | hport)
    · obtain ⟨cs, hprefix, hcs⟩ := List.infix_iff_prefix_suffix.mp hstart
      exact ⟨cs, hcs, .inl (List.isPrefixOf_iff_prefix.mpr hprefix)⟩
    · obtain ⟨cs, hprefix, hcs⟩ := List.infix_iff_prefix_suffix.mp hport
      exact ⟨cs, hcs, .inr (dotStar_of_begins hprefix)⟩

theorem cacheItem_of_target {item : PropertyItem} (h : isTarget item.key = true)
    (manager : PropertyManager) :
    cacheItem manager item = Function.update manager item.key (some item.value) :=
  if_pos (keyPattern_eq_isTarget item.key ▸ h)

theorem cacheItem_of_not_target {item : PropertyItem} (h : isTarget item.key = false)
    (manager : PropertyManager) : cacheItem manager item = manager := by
  refine if_neg fun hpattern => ?_
  rw [keyPattern_eq_isTarget, h] at hpattern
  cases hpattern

end PropertyCache

namespace PropertyStore

open PropertyCache

variable {s t : PropertyStore} {db db' : Database} {manager : PropertyManager}
  {item : PropertyItem} {items : List PropertyItem} {key : String}

/-! ## What is stored -/

theorem stored_eq_some {value : String} :
    stored db key = some value ↔ ∃ p ∈ db.properties, p.name = key ∧ p.value = value := by
  unfold stored
  rw [Option.map_eq_some_iff]
  constructor
  · rintro ⟨p, hp, hvalue⟩
    obtain ⟨hmem, hname⟩ := Table.findById_eq_some.mp hp
    exact ⟨p, hmem, hname, hvalue⟩
  · rintro ⟨p, hmem, hname, hvalue⟩
    exact ⟨p, Table.findById_eq_some.mpr ⟨hmem, hname⟩, hvalue⟩

theorem value_ne_empty (item : PropertyItem) : item.value ≠ "" := by
  unfold PropertyItem.value
  split
  · decide
  · next htext => exact htext

/-- The insert of a free name goes through. -/
theorem create_of_free (property : Property) (h : stored db property.name = none) :
    ∃ db', PropertyRepository.create db property = .ok db' := by
  unfold PropertyRepository.create
  cases hinsert : db.properties.insert property with
  | some properties => exact ⟨_, rfl⟩
  | none =>
    obtain ⟨p, hp, hname⟩ := Table.insert_eq_none.mp hinsert
    rw [stored_eq_some.mpr ⟨p, hp, hname, rfl⟩] at h
    cases h

/-- An insert stores its property, and nothing else changes. -/
theorem stored_create {property : Property}
    (h : PropertyRepository.create db property = .ok db') (key : String) :
    stored db' key = if key = property.name then some property.value else stored db key := by
  unfold PropertyRepository.create at h
  split at h
  · next properties hinsert =>
    obtain rfl := Except.ok.inj h
    by_cases hkey : key = property.name
    · rw [if_pos hkey]
      refine stored_eq_some.mpr ⟨property, (Table.mem_of_insert hinsert).mpr (.inl rfl), ?_⟩
      exact ⟨hkey.symm, rfl⟩
    · rw [if_neg hkey]
      refine Option.ext fun value => ?_
      rw [stored_eq_some, stored_eq_some]
      constructor
      · rintro ⟨p, hp, hname, hvalue⟩
        rcases (Table.mem_of_insert hinsert).mp hp with rfl | hp
        · exact absurd hname.symm hkey
        · exact ⟨p, hp, hname, hvalue⟩
      · rintro ⟨p, hp, hname, hvalue⟩
        exact ⟨p, (Table.mem_of_insert hinsert).mpr (.inr hp), hname, hvalue⟩
  · cases h

/-- An update stores its item when there is a row for it. -/
theorem stored_updateByName
    (h : PropertyRepository.updateByName db item.property item.key = .ok db') (key : String) :
    stored db' key =
      if key = item.key ∧ (stored db item.key).isSome = true then some item.value
      else stored db key := by
  unfold PropertyRepository.updateByName at h
  split at h
  · cases h
  obtain rfl := Except.ok.inj h
  have hvalue (p : Property) :
      (PropertyRepository.assign item.property p).value = item.value :=
    if_neg (value_ne_empty item)
  by_cases hkey : key = item.key ∧ (stored db item.key).isSome = true
  · rw [if_pos hkey]
    obtain ⟨rfl, hsome⟩ := hkey
    obtain ⟨v, hv⟩ := Option.isSome_iff_exists.mp hsome
    obtain ⟨p, hp, hname, -⟩ := stored_eq_some.mp hv
    refine stored_eq_some.mpr ⟨PropertyRepository.assign item.property p, ?_, hname, hvalue p⟩
    exact List.mem_map.mpr ⟨p, hp, if_pos hname⟩
  · rw [if_neg hkey]
    refine Option.ext fun value => ?_
    rw [stored_eq_some, stored_eq_some]
    constructor
    · rintro ⟨p, hp, hname, hpvalue⟩
      rcases Table.mem_updateById (PropertyRepository.assign_name item.property) hp with hp | ⟨q, hq, hqname, rfl⟩
      · exact ⟨p, hp, hname, hpvalue⟩
      · refine absurd ⟨hname.symm.trans hqname, ?_⟩ hkey
        rw [stored_eq_some.mpr ⟨q, hq, hqname, rfl⟩]
        rfl
    · rintro ⟨p, hp, hname, hpvalue⟩
      refine ⟨p, Table.mem_updateById_of_ne hp (fun hpkey => hkey ⟨?_, ?_⟩)
        (PropertyRepository.assign item.property) (PropertyRepository.assign_name item.property),
        hname, hpvalue⟩
      · exact hname.symm.trans hpkey
      · rw [stored_eq_some.mpr ⟨p, hp, hpkey, rfl⟩]
        rfl

/-! ## A round -/

theorem deleteLdapUsers_stored (h : deleteLdapUsers db item = .ok db') (key : String) :
    stored db' key = stored db key := by
  unfold deleteLdapUsers serve at h
  split at h
  · split at h
    · obtain rfl := Except.ok.inj h
      rfl
    · cases h
  · obtain rfl := Except.ok.inj h
    rfl

/-- The deletion of the LDAP users is for a key that is not cached. -/
theorem cacheItem_of_deleteLdapUsers_error {e : Error} (h : deleteLdapUsers db item = .error e)
    (manager : PropertyManager) : cacheItem manager item = manager := by
  unfold deleteLdapUsers at h
  split at h
  · next hldap =>
    refine cacheItem_of_not_target ?_ manager
    rw [hldap.1]
    decide
  · cases h

/-- Whether or not it stops, a round caches its item. -/
theorem updateItem_manager (db : Database) (manager : PropertyManager) (item : PropertyItem) :
    (updateItem db manager item).2 = cacheItem manager item := by
  unfold updateItem
  cases h : deleteLdapUsers db item with
  | ok db' => rfl
  | error e => exact (cacheItem_of_deleteLdapUsers_error h manager).symm

theorem findByName_cases (db : Database) (item : PropertyItem) :
    (findByName db item = .error .recordNotFound ∧ item.findServed = true ∧
      stored db item.key = none) ∨
    (findByName db item ≠ .error .recordNotFound ∧
      (item.findServed = false ∨ (stored db item.key).isSome = true)) := by
  unfold findByName serve stored
  cases item.findServed with
  | false => exact .inr ⟨fun h => (by cases h), .inl rfl⟩
  | true =>
    cases db.properties.findById item.key with
    | none => exact .inl ⟨rfl, rfl, rfl⟩
    | some p => exact .inr ⟨fun h => (by cases h), .inr rfl⟩

theorem writeItem_of_notFound (h : findByName db item = .error .recordNotFound) :
    writeItem db item = serve item.writeServed (PropertyRepository.create db item.property) := by
  unfold writeItem
  rw [h]

theorem writeItem_of_found (h : findByName db item ≠ .error .recordNotFound) :
    writeItem db item =
      serve item.writeServed (PropertyRepository.updateByName db item.property item.key) := by
  unfold writeItem
  split
  · next heq => exact absurd heq h
  · rfl

/-- A write that goes through stores its item, unless it updates a row that is not there. -/
theorem writeItem_ok (hwrite : item.writeServed = true)
    (hempty : item.key = "" → item.findServed = true ∧ stored db item.key = none) :
    ∃ db', writeItem db item = .ok db' ∧ ∀ key, stored db' key =
      if key = item.key ∧ (item.findServed = true ∨ (stored db item.key).isSome = true) then
        some item.value
      else stored db key := by
  rcases findByName_cases db item with ⟨hfind, hserved, hnone⟩ | ⟨hfind, hwhy⟩
  · rw [writeItem_of_notFound hfind, hwrite]
    obtain ⟨db', hdb'⟩ := create_of_free item.property hnone
    refine ⟨db', hdb', fun key => (stored_create hdb' key).trans ?_⟩
    simp only [hserved, true_or, and_true]
    rfl
  · rw [writeItem_of_found hfind, hwrite]
    have hkey : item.key ≠ "" := by
      intro hkey
      obtain ⟨hserved, hnone⟩ := hempty hkey
      rw [hserved, hnone] at hwhy
      rcases hwhy with h | h
      · cases h
      · cases h
    obtain ⟨db', hdb'⟩ :
        ∃ db', PropertyRepository.updateByName db item.property item.key = .ok db' :=
      ⟨_, if_neg hkey⟩
    refine ⟨db', hdb', fun key => ?_⟩
    rw [stored_updateByName hdb']
    have hiff : (item.findServed = true ∨ (stored db item.key).isSome = true) ↔
        (stored db item.key).isSome = true := by
      refine ⟨fun h => ?_, .inr⟩
      rcases hwhy with hserved | hsome
      · rw [hserved] at h
        exact h.resolve_left Bool.false_ne_true
      · exact hsome
    simp only [hiff]

theorem writeItem_error (h : item.writeServed = false ∨
    (item.key = "" ∧ (item.findServed = false ∨ (stored db item.key).isSome = true))) :
    ∃ e, writeItem db item = .error e := by
  rcases h with hwrite | ⟨hkey, hwhy⟩
  · refine ⟨databaseFault, ?_⟩
    unfold writeItem
    rw [hwrite]
    split
    · rfl
    · rfl
  · have hfind : findByName db item ≠ .error .recordNotFound := by
      rcases findByName_cases db item with ⟨-, hserved, hnone⟩ | ⟨hfind, -⟩
      · rw [hserved, hnone] at hwhy
        rcases hwhy with h | h
        · cases h
        · cases h
      · exact hfind
    have hupdate : PropertyRepository.updateByName db item.property item.key =
        .error .missingWhereClause := if_pos hkey
    rw [writeItem_of_found hfind, hupdate]
    unfold serve
    cases item.writeServed with
    | true => exact ⟨_, rfl⟩
    | false => exact ⟨_, rfl⟩

/-- A round that does not fail. -/
theorem updateItem_ok (h : ¬ Fails db item) (manager : PropertyManager) :
    ∃ db', updateItem db manager item = (.ok db', cacheItem manager item) ∧
      ∀ key, stored db' key =
        if key = item.key ∧ (item.findServed = true ∨ (stored db item.key).isSome = true) then
          some item.value
        else stored db key := by
  unfold Fails at h
  rw [not_or, not_or] at h
  obtain ⟨hldap, hwrite, hempty⟩ := h
  obtain ⟨db₁, hdelete⟩ : ∃ db₁, deleteLdapUsers db item = .ok db₁ := by
    unfold deleteLdapUsers serve
    by_cases hoff : item.key = "enable-ldap" ∧ item.value = "false"
    · have hserved : item.deleteServed = true :=
        Bool.eq_true_of_not_eq_false fun hserved => hldap ⟨hoff.1, hoff.2, hserved⟩
      rw [if_pos hoff, if_pos hserved]
      exact ⟨_, rfl⟩
    · rw [if_neg hoff]
      exact ⟨_, rfl⟩
  have hstored := deleteLdapUsers_stored hdelete
  have hempty' : item.key = "" → item.findServed = true ∧ stored db₁ item.key = none := by
    intro hkey
    rw [hstored]
    refine ⟨Bool.eq_true_of_not_eq_false fun hserved => hempty ⟨hkey, .inl hserved⟩, ?_⟩
    exact Option.not_isSome_iff_eq_none.mp fun hsome => hempty ⟨hkey, .inr hsome⟩
  obtain ⟨db', hwritten, hall⟩ := writeItem_ok (Bool.eq_true_of_not_eq_false hwrite) hempty'
  refine ⟨db', ?_, fun key => ?_⟩
  · unfold updateItem
    rw [hdelete]
    simp only [hwritten]
  · rw [hall, hstored, hstored]

theorem updateItem_error (h : Fails db item) (manager : PropertyManager) :
    ∃ e, updateItem db manager item = (.error e, cacheItem manager item) := by
  have hmanager := updateItem_manager db manager item
  suffices hfirst : ∃ e, (updateItem db manager item).1 = .error e by
    obtain ⟨e, he⟩ := hfirst
    exact ⟨e, Prod.ext he hmanager⟩
  unfold updateItem
  cases hdelete : deleteLdapUsers db item with
  | error e => exact ⟨e, rfl⟩
  | ok db₁ =>
    have hstored := deleteLdapUsers_stored hdelete
    rcases h with ⟨hkey, hvalue, hserved⟩ | h
    · have herror : deleteLdapUsers db item = .error databaseFault := by
        unfold deleteLdapUsers serve
        rw [if_pos ⟨hkey, hvalue⟩, hserved]
        rfl
      rw [hdelete] at herror
      cases herror
    · rw [← hstored] at h
      exact writeItem_error h

/-! ## The loop -/

/-- Storing an item leaves the other rows where they are. -/
theorem fails_congr {item : PropertyItem} (h : stored db' item.key = stored db item.key) :
    Fails db' item ↔ Fails db item := by
  unfold Fails
  rw [h]

theorem reached_congr (h : ∀ item ∈ items, stored db' item.key = stored db item.key) :
    reached db' items = reached db items := by
  induction items with
  | nil => rfl
  | cons item items ih =>
    have hfails := fails_congr (h item List.mem_cons_self)
    rw [reached, reached, ih fun i hi => h i (List.mem_cons_of_mem item hi)]
    simp only [hfails]

/-- A round that stores its item leaves the rows of the later items alone. -/
theorem stored_of_later (hnodup : ((item :: items).map (·.key)).Nodup)
    (hstored : ∀ key, stored db' key =
      if key = item.key ∧ (item.findServed = true ∨ (stored db item.key).isSome = true) then
        some item.value
      else stored db key) {i : PropertyItem} (hi : i ∈ items) :
    stored db' i.key = stored db i.key := by
  rw [hstored, if_neg]
  rintro ⟨hkey, -⟩
  rw [List.map_cons, List.nodup_cons] at hnodup
  exact hnodup.1 (hkey ▸ List.mem_map_of_mem hi)

theorem updateItems_cons_ok (h : updateItem db manager item = (.ok db', cacheItem manager item)) :
    updateItems db manager (item :: items) = updateItems db' (cacheItem manager item) items := by
  rw [updateItems, h]

/-- One item in the table and in the cache. -/
theorem Agrees.updateItem (h : Agrees ⟨db, manager⟩)
    (hstored : ∀ key, stored db' key =
      if key = item.key ∧ (item.findServed = true ∨ (stored db item.key).isSome = true) then
        some item.value
      else stored db key)
    (hfound : isTarget item.key = true →
      item.findServed = true ∨ (stored db item.key).isSome = true) :
    Agrees ⟨db', cacheItem manager item⟩ := by
  cases htarget : isTarget item.key with
  | true =>
    rw [cacheItem_of_target htarget]
    refine ⟨fun key hkey => ?_, fun key hkey => ?_⟩
    · show Function.update manager item.key (some item.value) key = stored db' key
      rw [hstored]
      by_cases heq : key = item.key
      · rw [if_pos ⟨heq, hfound htarget⟩, heq, Function.update_self]
      · rw [if_neg fun hand => heq hand.1, Function.update_of_ne heq]
        exact h.targets key hkey
    · have hne : key ≠ item.key := by
        rintro rfl
        rw [hkey] at htarget
        cases htarget
      exact (Function.update_of_ne hne _ _).trans (h.others key hkey)
  | false =>
    rw [cacheItem_of_not_target htarget]
    refine ⟨fun key hkey => (h.targets key hkey).trans ?_, h.others⟩
    have hne : key ≠ item.key := by
      rintro rfl
      rw [hkey] at htarget
      cases htarget
    rw [hstored, if_neg fun hand => hne hand.1]

/-- A loop that goes through keeps the agreement when it has looked up what it caches. -/
theorem Agrees.updateItems (h : Agrees ⟨db, manager⟩) (hnodup : (items.map (·.key)).Nodup)
    (hok : ∀ item ∈ items, ¬ Fails db item)
    (hfound : ∀ item ∈ items, isTarget item.key = true →
      item.findServed = true ∨ (stored db item.key).isSome = true) :
    ∃ db' manager', PropertyCache.updateItems db manager items = (.ok db', manager') ∧
      Agrees ⟨db', manager'⟩ := by
  induction items generalizing db manager with
  | nil => exact ⟨db, manager, rfl, h⟩
  | cons item items ih =>
    obtain ⟨db₁, hrun, hstored⟩ := updateItem_ok (hok item List.mem_cons_self) manager
    have hlater := fun i hi => stored_of_later hnodup hstored (i := i) hi
    have hfirst := h.updateItem hstored (hfound item List.mem_cons_self)
    rw [List.map_cons, List.nodup_cons] at hnodup
    obtain ⟨db', manager', hrest, hagrees⟩ := ih hfirst hnodup.2
      (fun i hi hfails => hok i (List.mem_cons_of_mem item hi) ((fails_congr (hlater i hi)).mp hfails))
      (fun i hi htarget => by
        rw [hlater i hi]
        exact hfound i (List.mem_cons_of_mem item hi) htarget)
    exact ⟨db', manager', (updateItems_cons_ok hrun).trans hrest, hagrees⟩

/-- A loop that caches only what the cache has leaves it as it is. -/
theorem updateItems_manager (hnodup : (items.map (·.key)).Nodup)
    (hcached : ∀ item ∈ reached db items, isTarget item.key = true →
      manager item.key = some item.value) :
    (PropertyCache.updateItems db manager items).2 = manager := by
  induction items generalizing db with
  | nil => rfl
  | cons item items ih =>
    have hkeep (hmem : item ∈ reached db (item :: items)) : cacheItem manager item = manager := by
      cases htarget : isTarget item.key with
      | true =>
        rw [cacheItem_of_target htarget, ← hcached item hmem htarget, Function.update_eq_self]
      | false => exact cacheItem_of_not_target htarget manager
    by_cases hfails : Fails db item
    · have hreached : reached db (item :: items) = [item] := if_pos hfails
      obtain ⟨e, hrun⟩ := updateItem_error hfails manager
      rw [PropertyCache.updateItems, hrun]
      exact hkeep (hreached ▸ List.mem_singleton_self item)
    · have hreached : reached db (item :: items) = item :: reached db items := if_neg hfails
      obtain ⟨db₁, hrun, hstored⟩ := updateItem_ok hfails manager
      have hlater := fun i hi => stored_of_later hnodup hstored (i := i) hi
      rw [updateItems_cons_ok hrun, hkeep (hreached ▸ List.mem_cons_self)]
      rw [List.map_cons, List.nodup_cons] at hnodup
      refine ih hnodup.2 fun i hi => ?_
      rw [reached_congr hlater] at hi
      exact hcached i (hreached ▸ List.mem_cons_of_mem item hi)

/-- A loop stops at an item whose round fails. -/
theorem updateItems_error (manager : PropertyManager) (hnodup : (items.map (·.key)).Nodup)
    (h : ∃ item ∈ items, Fails db item) :
    ∃ e, (PropertyCache.updateItems db manager items).1 = .error e := by
  induction items generalizing db manager with
  | nil =>
    obtain ⟨i, hi, -⟩ := h
    exact absurd hi List.not_mem_nil
  | cons item items ih =>
    by_cases hfails : Fails db item
    · obtain ⟨e, hrun⟩ := updateItem_error hfails manager
      refine ⟨e, ?_⟩
      rw [PropertyCache.updateItems, hrun]
    · obtain ⟨db₁, hrun, hstored⟩ := updateItem_ok hfails manager
      have hlater := fun i hi => stored_of_later hnodup hstored (i := i) hi
      rw [updateItems_cons_ok hrun]
      rw [List.map_cons, List.nodup_cons] at hnodup
      obtain ⟨i, hi, hfail⟩ := h
      rcases List.mem_cons.mp hi with rfl | hi
      · exact absurd hfail hfails
      · exact ih _ hnodup.2 ⟨i, hi, (fails_congr (hlater i hi)).mpr hfail⟩

/-! ## Calls -/

/-- **Rollback**: an update that does not go through keeps the table. -/
theorem update_db {u : PropertyUpdate} (hnodup : (u.items.map (·.key)).Nodup)
    (h : ¬ s.GoesThrough u) : (s.update u).db = s.db := by
  unfold update
  rcases hrun : PropertyCache.updateItems s.db s.manager u.items with ⟨r, manager⟩
  cases r with
  | error e => rfl
  | ok db =>
    have hcommit : u.commitServed = false := by
      refine Bool.eq_false_of_not_eq_true fun hcommit => h ⟨hcommit, fun item hi hfails => ?_⟩
      obtain ⟨e, he⟩ := updateItems_error s.manager hnodup ⟨item, hi, hfails⟩
      rw [hrun] at he
      cases he
    show (if u.commitServed = true then db else s.db) = s.db
    rw [hcommit]
    rfl

theorem update_manager (s : PropertyStore) (u : PropertyUpdate) :
    (s.update u).manager = (PropertyCache.updateItems s.db s.manager u.items).2 := by
  unfold update
  rcases PropertyCache.updateItems s.db s.manager u.items with ⟨r, manager⟩
  cases r with
  | ok db => rfl
  | error e => rfl

theorem Agrees.update {u : PropertyUpdate} (h : s.Agrees) (hnodup : (u.items.map (·.key)).Nodup)
    (hok : s.KeepsProperties u) : (s.update u).Agrees := by
  obtain ⟨hfound, hcached⟩ := hok
  by_cases hgoes : s.GoesThrough u
  · have hagreed : Agrees ⟨s.db, s.manager⟩ := h
    obtain ⟨db', manager', hrun, hagrees⟩ := hagreed.updateItems hnodup hgoes.2 (hfound hgoes)
    have hupdate : s.update u = ⟨db', manager'⟩ := by
      unfold PropertyStore.update
      rw [hrun]
      simp only [hgoes.1, if_true]
    exact hupdate ▸ hagrees
  · have hmanager : (s.update u).manager = s.manager := by
      rw [update_manager]
      refine updateItems_manager hnodup fun item hi htarget => ?_
      rw [h.targets item.key htarget]
      exact hcached hgoes item hi htarget
    have hdb := update_db hnodup hgoes
    refine ⟨fun key hkey => ?_, fun key hkey => ?_⟩
    · rw [hmanager, hdb]
      exact h.targets key hkey
    · rw [hmanager]
      exact h.others key hkey

/-! ## The start -/

theorem reloadOne_of_keep {p : Property} (h : p.name ≠ key ∨ isTarget key = false)
    (manager : PropertyManager) : reloadOne manager p key = manager key := by
  unfold reloadOne
  split
  · next htarget =>
    rcases h with hne | hkey
    · exact Function.update_of_ne (Ne.symm hne) _ _
    · refine Function.update_of_ne (fun heq => ?_) _ _
      rw [← heq, hkey] at htarget
      cases htarget
  · rfl

/-- The loop of `Reload` sets no other keys than the targets that it meets. -/
theorem foldl_reloadOne_of_keep {rows : List Property}
    (h : ∀ p ∈ rows, p.name ≠ key ∨ isTarget key = false) (manager : PropertyManager) :
    rows.foldl reloadOne manager key = manager key := by
  induction rows generalizing manager with
  | nil => rfl
  | cons p rows ih =>
    rw [List.foldl_cons, ih fun q hq => h q (List.mem_cons_of_mem p hq)]
    exact reloadOne_of_keep (h p List.mem_cons_self) manager

/-- The loop of `Reload` sets every target that it meets. -/
theorem foldl_reloadOne_of_mem {rows : List Property} (hnodup : (rows.map (·.name)).Nodup)
    {p : Property} (hp : p ∈ rows) (htarget : isTarget p.name = true) (manager : PropertyManager) :
    rows.foldl reloadOne manager p.name = some p.value := by
  induction rows generalizing manager with
  | nil => exact absurd hp List.not_mem_nil
  | cons q rows ih =>
    rw [List.map_cons, List.nodup_cons] at hnodup
    rw [List.foldl_cons]
    rcases List.mem_cons.mp hp with rfl | hp
    · rw [foldl_reloadOne_of_keep fun q hq =>
        .inl fun heq => hnodup.1 (List.mem_map.mpr ⟨q, hq, heq⟩)]
      unfold reloadOne
      rw [if_pos htarget, Function.update_self]
    · exact ih hnodup.2 hp _

theorem agrees_started (db : Database) : (started db).Agrees := by
  refine ⟨fun key hkey => ?_, fun key hkey => ?_⟩
  · show db.properties.rows.foldl reloadOne (fun _ => none) key = stored db key
    cases hstored : stored db key with
    | some value =>
      obtain ⟨p, hp, rfl, rfl⟩ := stored_eq_some.mp hstored
      exact foldl_reloadOne_of_mem db.properties.nodup hp hkey _
    | none =>
      refine foldl_reloadOne_of_keep (fun p hp => .inl fun hname => ?_) _
      rw [stored_eq_some.mpr ⟨p, hp, hname, rfl⟩] at hstored
      cases hstored
  · exact foldl_reloadOne_of_keep (fun p _ => .inr hkey) _

/-! ## Runs -/

theorem Agrees.step {u : PropertyUpdate} (h : s.Agrees) (hok : s.KeepsProperties u)
    (hstep : s.step u = some t) : t.Agrees := by
  unfold PropertyStore.step at hstep
  rw [Option.ite_none_right_eq_some] at hstep
  obtain ⟨hnodup, hupdate⟩ := hstep
  obtain rfl := Option.some.inj hupdate
  exact h.update hnodup hok

theorem manager_agrees_of_reaches (db : Database)
    (h : Reaches PropertyStore.step KeepsProperties (started db) s) : s.Agrees :=
  h.invariant (fun _ _ _ hs hok hstep => hs.step hok hstep) (agrees_started db)

/-- The port of the proxy and one of the switches, set by an administrator. -/
def portItems (port : String) : List PropertyItem :=
  [{ key := "mariadb-proxy-port", text := port },
    { key := "enable-auto-start-mariadb", text := "true" }]

/-- Two updates that go through, and one for which the commit fails and which changes nothing. -/
theorem manager_agrees_savedTwice : ∃ s, exec PropertyStore.step (started {})
      [⟨portItems "3306", true⟩, ⟨portItems "3307", true⟩, ⟨portItems "3307", false⟩] = some s ∧
    s.Agrees ∧ s.manager "mariadb-proxy-port" = some "3307" := by
  obtain ⟨s, hrun, hport⟩ : ∃ s, exec PropertyStore.step (started {})
      [⟨portItems "3306", true⟩, ⟨portItems "3307", true⟩, ⟨portItems "3307", false⟩] = some s ∧
      s.manager "mariadb-proxy-port" = some "3307" := ⟨_, rfl, by decide⟩
  refine ⟨s, hrun, manager_agrees_of_reaches {} (reaches_of_exec hrun ?_), hport⟩
  decide

/-- The new port is cached when the commit fails, and the table keeps the old one. -/
theorem not_manager_agrees_rolledBack : ∃ s, exec PropertyStore.step (started {})
      [⟨portItems "3306", true⟩, ⟨portItems "3307", false⟩] = some s ∧
    stored s.db "mariadb-proxy-port" = some "3306" ∧
    s.manager "mariadb-proxy-port" = some "3307" ∧ ¬ s.Agrees := by
  obtain ⟨s, hrun, htable, hport⟩ : ∃ s, exec PropertyStore.step (started {})
      [⟨portItems "3306", true⟩, ⟨portItems "3307", false⟩] = some s ∧
      stored s.db "mariadb-proxy-port" = some "3306" ∧
      s.manager "mariadb-proxy-port" = some "3307" :=
    ⟨_, rfl, by decide, by decide +kernel⟩
  refine ⟨s, hrun, htable, hport, fun h => ?_⟩
  have hkey := h.targets "mariadb-proxy-port" (by decide)
  rw [hport, htable] at hkey
  exact absurd hkey (by decide)

end PropertyStore

end NextDBM
