import NextDBM.Files.Storage

/-!
# Proofs: paths of the storages

The directory of a storage is one name below the drive. A text without `../` goes up from it by one
directory at most, and only when the text is `..` up to empty elements and `.`.
-/

namespace NextDBM

open FilePath

variable {drivePath storageId path t : String} {elem : List String}

theorem toList_pathJoin (elem : List String) :
    (pathJoin elem).toList = join (elem.map String.toList) := String.toList_ofList

/-- A file whose name is put together. -/
theorem location_pathJoin_append (elem : List String) (name suffix : String) :
    location (pathJoin (elem ++ [name ++ suffix])) =
      clean (join (elem.map String.toList ++ [name.toList ++ suffix.toList])) := by
  unfold location
  rw [toList_pathJoin, List.map_append, List.map_singleton, String.toList_append]

namespace StorageService

theorem location_storageDir (hid : IsName storageId.toList) :
    location (storageDir drivePath storageId) = (location drivePath).extend [⟨storageId.toList, hid⟩] := by
  unfold location storageDir
  rw [toList_pathJoin]
  exact clean_join_name drivePath.toList ⟨storageId.toList, hid⟩

theorem storageDir_ne_nil (hid : IsName storageId.toList) :
    (storageDir drivePath storageId).toList ≠ [] := by
  unfold storageDir
  rw [toList_pathJoin]
  exact join_name_ne_nil drivePath.toList ⟨storageId.toList, hid⟩

/-- What is joined to the directory of a storage is walked from there. -/
theorem location_pathJoin (hid : IsName storageId.toList) (ts : List String) :
    location (pathJoin (storageDir drivePath storageId :: ts)) =
      ts.foldl (fun p t => p.walk t.toList) (location (storageDir drivePath storageId)) := by
  unfold location
  rw [toList_pathJoin, List.map_cons, clean_join (storageDir_ne_nil hid), List.foldl_map]

theorem Inside.of_within (hid : IsName storageId.toList)
    (h : (location (storageDir drivePath storageId)).Within (location path)) :
    Inside drivePath storageId path := by
  refine ⟨h, fun heq => ?_, fun other hother hne hin => ?_⟩
  · rw [heq, location_storageDir hid] at h
    exact Path.not_within_extend _ _ h
  · rw [location_storageDir hid] at h
    rw [location_storageDir hother] at hin
    have hsame := congrArg Subtype.val (Path.within_extend_inj h hin)
    exact hne (String.toList_inj.mp hsame).symm

theorem not_infix_of_legal (h : isIllegal t = false) : ¬ ['.', '.', '/'] <:+: t.toList := by
  intro hinfix
  have htrue : isIllegal t = true := decide_eq_true hinfix
  rw [h] at htrue
  cases htrue

theorem inside_iff (hid : IsName storageId.toList) (h : isIllegal t = false) :
    Inside drivePath storageId (pathJoin [storageDir drivePath storageId, t]) ↔ StaysDown t := by
  have hwalk : location (pathJoin [storageDir drivePath storageId, t]) =
      (location (storageDir drivePath storageId)).walk t.toList := location_pathJoin hid [t]
  have hiff : (location (storageDir drivePath storageId)).Within
      (location (pathJoin [storageDir drivePath storageId, t])) ↔ StaysDown t := by
    rw [hwalk, location_storageDir hid]
    exact Path.within_walk_iff_of_not_infix _ _ (not_infix_of_legal h)
  exact ⟨fun hin => hiff.mp hin.within, fun hdown => Inside.of_within hid (hiff.mpr hdown)⟩

/-- A request that passes the check joins each text that it checks to the directory. -/
theorem targets_ok {r : StorageRequest} {paths : List String}
    (h : targets drivePath storageId r = .ok paths) :
    paths = (texts r).map (fun t => pathJoin [storageDir drivePath storageId, t]) ∧
      ∀ t ∈ texts r, isIllegal t = false := by
  have hone {t : String} (h : (if isIllegal t = true then Except.error StorageError.illegalRequest
      else .ok [pathJoin [storageDir drivePath storageId, t]]) = .ok paths) :
      paths = [pathJoin [storageDir drivePath storageId, t]] ∧ isIllegal t = false := by
    split at h
    · cases h
    · next hlegal => exact ⟨(Except.ok.inj h).symm, Bool.eq_false_iff.mpr hlegal⟩
  have htwo {t u : String} (h : (if isIllegal t = true then Except.error StorageError.illegalRequest
      else if isIllegal u = true then .error .illegalRequest
      else .ok [pathJoin [storageDir drivePath storageId, t],
        pathJoin [storageDir drivePath storageId, u]]) = .ok paths) :
      paths = [pathJoin [storageDir drivePath storageId, t],
        pathJoin [storageDir drivePath storageId, u]] ∧ isIllegal t = false ∧
          isIllegal u = false := by
    split at h
    · cases h
    · next ht =>
      split at h
      · cases h
      · next hu =>
        exact ⟨(Except.ok.inj h).symm, Bool.eq_false_iff.mpr ht, Bool.eq_false_iff.mpr hu⟩
  cases r with
  | upload remoteDir filename =>
    obtain ⟨rfl, hdir, hfile⟩ := htwo h
    exact ⟨rfl, List.forall_mem_cons.mpr ⟨hdir, List.forall_mem_singleton.mpr hfile⟩⟩
  | rename oldName newName =>
    obtain ⟨rfl, hold, hnew⟩ := htwo h
    exact ⟨rfl, List.forall_mem_cons.mpr ⟨hold, List.forall_mem_singleton.mpr hnew⟩⟩
  | edit file | download file | rm file | ls file | mkDir file =>
    obtain ⟨rfl, hlegal⟩ := hone h
    exact ⟨rfl, List.forall_mem_singleton.mpr hlegal⟩

/-- A request stays inside its storage exactly when none of its paths, if they pass the check, is
`..`. -/
theorem confined_iff (hid : IsName storageId.toList) (r : StorageRequest) :
    Confined drivePath storageId r ↔
      ∀ paths, targets drivePath storageId r = .ok paths → ∀ t ∈ texts r, StaysDown t := by
  constructor
  · intro h paths hpaths t ht
    obtain ⟨rfl, hlegal⟩ := targets_ok hpaths
    exact (inside_iff hid (hlegal t ht)).mp (h _ hpaths _ (List.mem_map_of_mem ht))
  · intro h paths hpaths p hp
    obtain ⟨rfl, hlegal⟩ := targets_ok hpaths
    obtain ⟨t, ht, rfl⟩ := List.mem_map.mp hp
    exact (inside_iff hid (hlegal t ht)).mpr (h _ hpaths t ht)

/-- A file below a directory is deleted. -/
theorem confined_iff_rm : Confined "/drive" "a1" (.rm "b/c") ↔
    ∀ paths, targets "/drive" "a1" (.rm "b/c") = .ok paths → ∀ t ∈ texts (.rm "b/c"), StaysDown t :=
  confined_iff (by decide) (.rm "b/c")

/-- `..` passes the check, and its deletion is that of the drive. -/
theorem not_confined_rm :
    ¬ ∀ drivePath storageId : String, IsName storageId.toList →
      ∀ r, Confined drivePath storageId r := by
  intro h
  have hin := h "/drive" "a1" (by decide) (.rm "..") _ rfl _ List.mem_cons_self
  have hdrive : location (pathJoin [storageDir "/drive" "a1", ".."]) = location "/drive" := by
    decide
  exact hin.notDrive hdrive

end StorageService

end NextDBM
