import NextDBM.Access.Authorised

/-!
# Proofs: what the authorisation lookups compute

Each lookup has one specification lemma. The listing and the query compute `Visible`; the lookup by
signed id finds a row exactly when one of the ids it computes is taken. The lookup of an asset by name
finds an asset that the user may reach exactly when the first asset of the name is one
(`findsAuthorised_iff`).
-/

namespace NextDBM

variable {db : Database} {userId assetId groupId : String}

theorem mem_findUserGroupIdsByUserId :
    groupId ∈ UserGroupMemberRepository.findUserGroupIdsByUserId db userId ↔
      MemberOf db userId groupId := by
  simp only [UserGroupMemberRepository.findUserGroupIdsByUserId, List.mem_map,
    Relational.Table.mem_select, beq_iff_eq, MemberOf]
  constructor
  · rintro ⟨m, ⟨hm, hu⟩, hg⟩
    exact ⟨m, hm, hu, hg⟩
  · rintro ⟨m, hm, hu, hg⟩
    exact ⟨m, ⟨hm, hu⟩, hg⟩

/-- The asset list of a user holds the assets of the rows that reach the user. -/
theorem mem_getAssetIdListByUserId :
    assetId ∈ WorkerService.getAssetIdListByUserId db userId ↔ Visible db userId assetId := by
  simp only [WorkerService.getAssetIdListByUserId, List.mem_dedup, List.mem_map, List.mem_append,
    AuthorisedRepository.findByUserId, AuthorisedRepository.findByUserGroupIdIn,
    Relational.Table.mem_select, beq_iff_eq, List.contains_iff_mem, mem_findUserGroupIdsByUserId]
  constructor
  · rintro ⟨r, ⟨hr, hu⟩ | ⟨hr, hg⟩, ha⟩
    · exact ⟨r, hr, ha, .inl hu⟩
    · exact ⟨r, hr, ha, .inr hg⟩
  · rintro ⟨r, hr, ha, hu | hg⟩
    · exact ⟨r, .inl ⟨hr, hu⟩, ha⟩
    · exact ⟨r, .inr ⟨hr, hg⟩, ha⟩

theorem checkPermission_iff :
    WorkerService.checkPermission db assetId userId = true ↔ Visible db userId assetId := by
  rw [WorkerService.checkPermission, contains_iff, mem_getAssetIdListByUserId]

/-- The query returns a row exactly when some row of the asset reaches the user. -/
theorem findAllByAssetsIdUsersId_ne_nil :
    AuthorisedRepository.findAllByAssetsIdUsersId db assetId userId ≠ [] ↔
      Visible db userId assetId := by
  rw [ne_eq, List.eq_nil_iff_forall_not_mem, not_forall_not]
  simp only [AuthorisedRepository.findAllByAssetsIdUsersId, Relational.Table.mem_select,
    Bool.and_eq_true, Bool.or_eq_true, beq_iff_eq, List.any_eq_true]
  constructor
  · rintro ⟨r, hr, ha, ⟨m, hm, hu, hg⟩ | hu⟩
    · exact ⟨r, hr, ha, .inr ⟨m, hm, hu, hg⟩⟩
    · exact ⟨r, hr, ha, .inl hu⟩
  · rintro ⟨r, hr, ha, hu | ⟨m, hm, hu, hg⟩⟩
    · exact ⟨r, hr, ha, .inr hu⟩
    · exact ⟨r, hr, ha, .inl ⟨m, hm, hu, hg⟩⟩

/-- A row is looked up by one of the ids that `GetAuthorised` computes for the user and the asset. -/
def LookedUp (db : Database) (userId assetId : String) (r : Authorised) : Prop :=
  r.id = sign [assetId, userId, ""] ∨
    ∃ groupId, MemberOf db userId groupId ∧ r.id = sign [assetId, "", groupId]

theorem findById_eq_ok {id : String} {r : Authorised} :
    AuthorisedRepository.findById db id = .ok r ↔ r ∈ db.authorised ∧ r.id = id := by
  rw [AuthorisedRepository.findById, firstOrNotFound_eq_ok, Relational.Table.findById_eq_some]

/-- The only error of a lookup is that the row does not exist. -/
theorem findById_eq_error {id : String} {err : Error}
    (h : AuthorisedRepository.findById db id = .error err) : err = .recordNotFound := by
  rw [AuthorisedRepository.findById] at h
  cases hfind : db.authorised.findById id with
  | some r =>
    rw [hfind] at h
    cases h
  | none =>
    rw [hfind] at h
    exact (Except.error.inj h).symm

theorem findById_toOption {id : String} {r : Authorised} :
    (AuthorisedRepository.findById db id).toOption = some r ↔ r ∈ db.authorised ∧ r.id = id := by
  rw [← findById_eq_ok]
  cases AuthorisedRepository.findById db id <;> simp [Except.toOption]

/-- A row that `GetAuthorised` returns is a stored row with one of the computed ids. -/
theorem getAuthorised_sound {r : Authorised}
    (h : AuthorisedService.getAuthorised db userId assetId = .ok (some r)) :
    r ∈ db.authorised ∧ LookedUp db userId assetId r := by
  rw [AuthorisedService.getAuthorised] at h
  split at h
  · next authorised hfind =>
    obtain rfl : authorised = r := by simpa using h
    obtain ⟨hr, hid⟩ := findById_eq_ok.mp hfind
    exact ⟨hr, .inl hid⟩
  · obtain ⟨groupId, hgroup, hfind⟩ := List.exists_of_findSome?_eq_some (Except.ok.inj h)
    obtain ⟨hr, hid⟩ := findById_toOption.mp hfind
    exact ⟨hr, .inr ⟨groupId, mem_findUserGroupIdsByUserId.mp hgroup, hid⟩⟩
  · simp at h

/-- `GetAuthorised` returns a row exactly when a stored row has one of the computed ids. -/
theorem getAuthorised_iff :
    (∃ r, AuthorisedService.getAuthorised db userId assetId = .ok (some r)) ↔
      ∃ r ∈ db.authorised, LookedUp db userId assetId r := by
  constructor
  · rintro ⟨r, h⟩
    exact ⟨r, getAuthorised_sound h⟩
  · rintro ⟨r, hr, hlook⟩
    rw [AuthorisedService.getAuthorised]
    split
    · next authorised _ => exact ⟨authorised, rfl⟩
    · next hnone =>
      rcases hlook with hid | ⟨groupId, hmem, hid⟩
      · rw [findById_eq_ok.mpr ⟨hr, hid⟩] at hnone
        exact absurd hnone (by simp)
      · have hsome : (List.findSome? (fun groupId => (AuthorisedRepository.findById db
            (sign [assetId, "", groupId])).toOption)
            (UserGroupMemberRepository.findUserGroupIdsByUserId db userId)).isSome := by
          rw [List.findSome?_isSome_iff]
          refine ⟨groupId, mem_findUserGroupIdsByUserId.mpr hmem, ?_⟩
          rw [findById_toOption.mpr ⟨hr, hid⟩]
          rfl
        obtain ⟨r', hr'⟩ := Option.isSome_iff_exists.mp hsome
        exact ⟨r', congrArg Except.ok hr'⟩
    · next err hne herr => exact absurd (findById_eq_error herr) hne

/-! ## The asset of a name -/

section Names

variable {name protocol : String} {a : Asset}

/-- The lookup gives the first asset of the name. -/
theorem findAssetByName_eq_ok :
    AssetRepository.findAssetByName db name protocol = .ok a ↔
      a ∈ db.assets ∧ a.IsNamed name protocol ∧
        ∀ b ∈ db.assets, b.IsNamed name protocol → a.id ≤ b.id := by
  rw [AssetRepository.findAssetByName, firstOrNotFound_eq_ok, Relational.Table.first_eq_some]
  simp only [Bool.and_eq_true, Bool.or_eq_true, beq_iff_eq, Asset.IsNamed]

/-- There is a first asset of a name that is taken. -/
theorem exists_findAssetByName (ha : a ∈ db.assets) (hname : a.IsNamed name protocol) :
    ∃ b, AssetRepository.findAssetByName db name protocol = .ok b := by
  have hsome : (db.assets.first fun a =>
      a.name == name && (protocol == "" || a.protocol == protocol)).isSome := by
    rw [Relational.Table.first_isSome]
    refine ⟨a, ha, ?_⟩
    simpa only [Bool.and_eq_true, Bool.or_eq_true, beq_iff_eq, Asset.IsNamed] using hname
  obtain ⟨b, hb⟩ := Option.isSome_iff_exists.mp hsome
  exact ⟨b, firstOrNotFound_eq_ok.mpr hb⟩

/-- The asset found for a user is the first asset of the name, and the user may reach it. -/
theorem findMyAssetByName_eq_ok :
    WorkerService.findMyAssetByName db name protocol userId = .ok a ↔
      AssetRepository.findAssetByName db name protocol = .ok a ∧ Visible db userId a.id := by
  unfold WorkerService.findMyAssetByName
  cases hfind : AssetRepository.findAssetByName db name protocol with
  | error err => exact ⟨fun h => (by cases h), fun h => (by cases h.1)⟩
  | ok item =>
    have hany : (WorkerService.getAssetIdListByUserId db userId).any (fun id => item.id == id) = true ↔
        Visible db userId item.id := by
      simp only [List.any_eq_true, beq_iff_eq, exists_eq_right', mem_getAssetIdListByUserId]
    dsimp only
    by_cases hvisible : Visible db userId item.id
    · rw [if_pos (hany.mpr hvisible)]
      constructor
      · intro h
        obtain rfl : item = a := Except.ok.inj h
        exact ⟨rfl, hvisible⟩
      · intro h
        exact h.1
    · rw [if_neg fun h => hvisible (hany.mp h)]
      constructor
      · intro h
        cases h
      · rintro ⟨h, hreach⟩
        obtain rfl : item = a := Except.ok.inj h
        exact absurd hreach hvisible

theorem nodup_grant : ([{ id := "r1", assetId := "a2", userId := "u1" }].map Authorised.id).Nodup := by decide

/-- Two assets with the name `web`; a row grants the second one. -/
def secondNamed : Database :=
  { assets := ⟨[{ id := "a1", name := "web", protocol := "ssh" },
      { id := "a2", name := "web", protocol := "ssh" }], by decide⟩
    authorised := ⟨[{ id := "r1", assetId := "a2", userId := "u1" }], nodup_grant⟩ }

end Names

end NextDBM
