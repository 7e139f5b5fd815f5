import NextDBM.Web.Pages

/-!
# Proofs: pages of tables

Assets, SQL logs and authorised users are paged before the query runs, so the law is a matter of what
is counted; roles and login policies come whole on every page, so it is a matter of how many there
are.
-/

namespace NextDBM

open Relational Paging

variable {engine : Engine} {db : PageTables} {size : Nat}

/-! ## Assets and SQL logs -/

namespace AssetRepository

/-- The filter by port comes on top of the others. -/
theorem filter_conditions {f : AssetFilters} (hport : f.port ≠ "") (portText : String) :
    db.assets.rows.filter (conditions engine f portText) =
      (db.assets.rows.filter (conditions engine { f with port := "" } "")).filter
        fun a => engine.numberEquals a.port portText := by
  rw [List.filter_filter]
  refine List.filter_congr fun a _ => ?_
  rw [conditions, conditions, beq_false_of_ne hport]
  simp only [Bool.false_or, beq_self_eq_true, Bool.true_or, Bool.and_true]
  cases engine.numberEquals a.port portText with
  | true => rw [Bool.and_true, Bool.true_and]
  | false => rw [Bool.and_false, Bool.false_and, Bool.false_and, Bool.false_and, Bool.false_and]

/-- The law holds when the count is that of the rows. -/
theorem law_iff (hsize : 0 < size) {f : AssetFilters} {order field : String}
    (hdistinct : ((rows engine db f).map (column engine field)).Nodup) :
    Law (fun scan k => find engine db f order field scan k size) (rows engine db f) size ↔
      CountsRows engine db f := by
  refine (law_sliced_iff hsize hdistinct fun _ _ => rfl).trans ?_
  rw [rows, List.length_map]
  by_cases hport : f.port = ""
  · have hsame : conditions engine f f.ip = conditions engine f f.port := by
      funext a
      simp [conditions, hport]
    rw [hsame]
    exact iff_of_true rfl (.inl hport)
  · rw [filter_conditions hport, filter_conditions hport]
    exact (or_iff_right hport).symm

end AssetRepository

namespace SqlLogRepository

/-- The filter by session comes on top of the others. -/
theorem filter_conditions {f : SqlLogFilters} (hsession : f.sessionId ≠ "") (sessionText : String) :
    db.sqlLogs.rows.filter (conditions engine f sessionText) =
      (db.sqlLogs.rows.filter (conditions engine { f with sessionId := "" } "")).filter
        fun l => l.sessionId == sessionText := by
  rw [List.filter_filter]
  refine List.filter_congr fun l _ => ?_
  rw [conditions, conditions, beq_false_of_ne hsession]
  simp only [Bool.false_or, beq_self_eq_true, Bool.true_or, Bool.and_true]
  exact Bool.and_comm _ _

/-- The law holds when the count is that of the rows. -/
theorem law_iff (hsize : 0 < size) {f : SqlLogFilters}
    (hdistinct : ((rows engine db f).map column).Nodup) :
    Law (fun scan k => find engine db f scan k size) (rows engine db f) size ↔
      CountsRows engine db f := by
  refine (law_sliced_iff hsize hdistinct fun _ _ => rfl).trans ?_
  rw [rows, List.length_map]
  by_cases hsession : f.sessionId = ""
  · have hsame : conditions engine f f.sqlCommand = conditions engine f f.sessionId := by
      funext l
      simp [conditions, hsession]
    rw [hsame]
    exact iff_of_true rfl (.inl hsession)
  · rw [filter_conditions hsession, filter_conditions hsession]
    exact (or_iff_right hsession).symm

end SqlLogRepository

/-! ## Authorised users -/

namespace AuthorisedRepository

/-- Without a condition on the grants every asset is a group. -/
theorem countGroups_empty (db : PageTables) : countGroups db "" = db.assets.rows.length := by
  unfold countGroups
  rw [List.filter_eq_self.mpr fun a _ => ?_]
  cases db.authorised.rows.filter fun g => g.assetId == a.id with
  | nil => rfl
  | cons g gs => rfl

/-- An asset has a joined row on the asset when it is that asset and has a grant. -/
theorem any_onAsset {assetId : String} (hne : assetId ≠ "") (a : AssetRecord) :
    (matchesOrNone (db.authorised.rows.filter fun g => g.assetId == a.id)).any (onAsset assetId) =
        true ↔
      a.id = assetId ∧ ∃ g ∈ db.authorised, g.assetId = assetId := by
  rw [List.any_eq_true]
  constructor
  · rintro ⟨row, hrow, hon⟩
    rw [onAsset, beq_false_of_ne hne, Bool.false_or] at hon
    cases row with
    | none => cases hon
    | some g =>
      obtain ⟨hg, hasset⟩ := List.mem_filter.mp (some_mem_matchesOrNone.mp hrow)
      have hid : g.assetId = assetId := beq_iff_eq.mp hon
      exact ⟨(beq_iff_eq.mp hasset).symm.trans hid, g, hg, hid⟩
  · rintro ⟨hid, g, hg, hasset⟩
    refine ⟨some g, some_mem_matchesOrNone.mpr (List.mem_filter.mpr ⟨hg, ?_⟩), ?_⟩
    · rw [hasset, hid]
      exact beq_self_eq_true assetId
    · rw [onAsset, Option.any_some, hasset, beq_self_eq_true, Bool.or_true]

/-- The grants of one asset make one group, if there are any. -/
theorem countGroups_of_ne {assetId : String} (hne : assetId ≠ "") : countGroups db assetId =
    if (∃ a ∈ db.assets, a.id = assetId) ∧ ∃ g ∈ db.authorised, g.assetId = assetId then 1
    else 0 := by
  unfold countGroups
  by_cases hgrant : ∃ g ∈ db.authorised, g.assetId = assetId
  · have hsame : (db.assets.rows.filter fun a =>
        (matchesOrNone (db.authorised.rows.filter fun g => g.assetId == a.id)).any
          (onAsset assetId)) = db.assets.rows.filter fun a => a.id == assetId := by
      refine List.filter_congr fun a _ => ?_
      rw [Bool.eq_iff_iff, any_onAsset hne, beq_iff_eq]
      exact and_iff_left hgrant
    have hcount : (db.assets.rows.filter fun a => a.id == assetId).length =
        (db.assets.rows.map fun a => a.id).count assetId := by
      rw [List.count, List.countP_map, List.countP_eq_length_filter]
      rfl
    rw [hsame, hcount]
    by_cases hasset : ∃ a ∈ db.assets, a.id = assetId
    · rw [if_pos ⟨hasset, hgrant⟩]
      exact List.count_eq_one_of_mem db.assets.nodup (List.mem_map.mpr hasset)
    · rw [if_neg fun h => hasset h.1]
      exact List.count_eq_zero_of_not_mem fun hmem => hasset (List.mem_map.mp hmem)
  · rw [if_neg fun h => hgrant h.2, List.length_eq_zero_iff, List.filter_eq_nil_iff]
    exact fun a _ hany => hgrant ((any_onAsset hne a).mp hany).2

/-- The law holds when no name is searched for and as many assets are counted as users are found. -/
theorem law_iff (hsize : 0 < size) {userName assetId : String}
    (hdistinct : ((userRows engine db userName assetId).map column).Nodup) :
    Law (fun scan k => findUserPage engine db userName assetId scan k size)
        (userRows engine db userName assetId) size ↔ CountsUsers engine db userName assetId := by
  by_cases hname : userName = ""
  · refine (law_sliced_iff hsize hdistinct fun _ _ => if_neg (not_not.mpr hname)).trans ?_
    by_cases hasset : assetId = ""
    · rw [hasset, countGroups_empty]
      exact ⟨fun h => ⟨hname, fun _ => h.symm, fun hne => absurd rfl hne⟩, fun h => (h.all rfl).symm⟩
    · rw [countGroups_of_ne hasset]
      exact ⟨fun h => ⟨hname, fun hall => absurd hall hasset, fun _ => h.symm⟩,
        fun h => (h.one hasset).symm⟩
  · refine iff_of_false ?_ fun h => hname h.unnamed
    exact not_law_of_error (if_pos hname)

end AuthorisedRepository

/-! ## Roles and login policies -/

/-- Roles: the law holds when they fit on a page. -/
theorem RoleRepository.law_iff (hsize : 0 < size) (name type order field : String) :
    Law (fun scan k => find engine db name type order field scan k size)
        (rows engine db name type) size ↔
      (rows engine db name type).length ≤ size :=
  law_whole_iff hsize fun _ _ => rfl

/-- Login policies: the law holds when they fit on a page. -/
theorem LoginPolicyRepository.law_iff (hsize : 0 < size) (name userId order field : String) :
    Law (fun scan k => find engine db name userId order field scan k size)
        (rows engine db name userId) size ↔
      (rows engine db name userId).length ≤ size :=
  law_whole_iff hsize fun _ _ => rfl

/-- An engine whose patterns match everything, with texts that are compared as they are. -/
def plainEngine : Engine where
  like _ _ := true
  numberEquals n s := toString n == s
  findInSet tag tags := (Text.split tags ',').contains tag
  weights s := s.toList.map fun ch => ch.toNat

/-- Two assets, two roles. -/
def twoOfEach : PageTables where
  assets := ⟨[{ id := "a1", name := "hr", ip := "10.1.2.3", port := 3306, created := 1 },
    { id := "a2", name := "crm", ip := "10.1.2.4", port := 3306, created := 2 }], by decide⟩
  roles := ⟨[{ id := "r1", name := "audit", created := 1 },
    { id := "r2", name := "admin", created := 2 }], by decide⟩

end NextDBM
