import NextDBM.Files.Export
import NextDBM.Files.Proofs.ExportProofs

/-!
# Proofs: where imports and exports lead

Each path is walked from the drive, so what it leads to can be read off its text. Outside of these
paths a message changes no file.
-/

namespace NextDBM

open FilePath MySqlText

variable {drivePath : String} {attr : TransferAttr}

namespace TransferAttr

theorem drive_ne_nil (h : drivePath ≠ "") : drivePath.toList ≠ [] := fun heq =>
  h (String.toList_inj.mp heq)

/-- What is joined to the directory of a storage is walked from the drive. -/
theorem location_fromDrive (h : drivePath ≠ "") (storageId : String) (elem : List String) :
    location (pathJoin (pathJoin [drivePath, storageId] :: elem)) =
      (location drivePath).walk (Transfer.fromDrive (storageId :: elem)) := by
  have hdrive := drive_ne_nil h
  have hdir : (pathJoin [drivePath, storageId]).toList ≠ [] := by
    rw [toList_pathJoin]
    exact join_ne_nil hdrive _
  unfold location Transfer.fromDrive
  rw [toList_pathJoin, List.map_cons, clean_join hdir, toList_pathJoin, List.map_cons,
    clean_join hdrive, List.map_cons, List.map_nil, List.foldl_cons, List.foldl_nil,
    Path.walk_intercalate]
  rfl

theorem targetDir_ne_nil (h : drivePath ≠ "") (attr : TransferAttr) :
    (attr.targetDir drivePath).toList ≠ [] := by
  have hdir : (pathJoin [drivePath, attr.storageId]).toList ≠ [] := by
    rw [toList_pathJoin]
    exact join_ne_nil (drive_ne_nil h) _
  unfold targetDir
  rw [toList_pathJoin]
  exact join_ne_nil hdir _

/-- What is joined to the target directory. -/
theorem location_target (h : drivePath ≠ "") (name : String) :
    location (pathJoin [attr.targetDir drivePath, name]) =
      (location (attr.targetDir drivePath)).walk name.toList := by
  unfold location
  rw [toList_pathJoin, List.map_cons, clean_join (targetDir_ne_nil h attr)]
  rfl

theorem location_target_fromDrive (h : drivePath ≠ "") (name : String) :
    location (pathJoin [attr.targetDir drivePath, name]) =
      (location drivePath).walk (Transfer.fromDrive [attr.storageId, attr.filePath, name]) := by
  rw [location_target h, targetDir, location_fromDrive h, ← Path.walk_append]
  unfold Transfer.fromDrive
  congr 1
  simp [List.intercalate_cons_cons]

end TransferAttr

open TransferAttr

namespace Transfer

attribute [local irreducible] location pathJoin

/-- The paths are the texts, walked from the drive. -/
theorem location_paths (h : drivePath ≠ "") (t : Transfer) :
    (paths drivePath attr t).map location =
      (texts drivePath attr t).map fun s => (location drivePath).walk s := by
  cases t with
  | importArchive entries =>
    unfold paths texts
    rw [List.map_append, List.map_append, List.map_map, List.map_map]
    congr 1
    · unfold sourceZip targetDir
      rw [List.map_cons, List.map_singleton, location_fromDrive h, location_fromDrive h]
      rfl
    · exact List.map_congr_left fun e _ => location_target_fromDrive h e.name
  | exportFiles keys tables =>
    unfold paths texts
    simp only [List.map_append, List.map_map]
    congr 1
    · congr 1
      · unfold dstPath
        rw [List.map_cons, List.map_cons, List.map_singleton, location_target_fromDrive h]
        unfold targetZip targetDir
        rw [location_fromDrive h, location_fromDrive h]
        rfl
      · exact List.map_congr_left fun key _ => location_fromDrive h _ _
    · exact List.map_congr_left fun table _ => location_fromDrive h _ _

section Frame

variable {openReader : Bytes → Option (List ZipEntry)} {db : ImportDb}
  {fs fs' : FileSystem Bytes} {entries : List ZipEntry} {zip : Bytes} {q : Path}

/-- The extraction changes the files of the entries alone. -/
theorem contentAt_extractArchive_of_ne
    (hzip : fs.contentAt (location (attr.sourceZip drivePath)) = some zip)
    (hopen : openReader zip = some entries)
    (hq : ∀ e ∈ entries, location (pathJoin [attr.targetDir drivePath, e.name]) ≠ q)
    (h : extractArchive openReader fs drivePath attr = some fs') : fs'.contentAt q = fs.contentAt q := by
  have hnone : entries.reverse.find? (fun e =>
      !e.isDir && decide (e.path (attr.targetDir drivePath) = q)) = none := by
    refine List.find?_eq_none.mpr fun e he => ?_
    rw [Bool.and_eq_true, decide_eq_true_eq]
    exact fun hboth => hq e (List.mem_reverse.mp he) hboth.2
  rw [contentAt_extractArchive hzip hopen h, lastText, hnone]
  rfl

/-- What is executed was found in the target directory. -/
theorem within_of_executed {f : Path × Bytes}
    (h : f ∈ (importDatabase openReader db fs drivePath attr).executed) :
    (location (attr.targetDir drivePath)).Within f.1 := by
  unfold importDatabase at h
  split at h
  · exact absurd h List.not_mem_nil
  · split at h
    · exact (mem_sqlFiles.mp ((ImportDb.exec_fst_prefix db [] _).subset h)).2.1
    · exact absurd h List.not_mem_nil

end Frame

section Frame

variable {pack : List (List Char × Bytes) → Bytes} {db : ExportDb} {kind : ExportKind}
  {fs fs' : FileSystem Bytes} {q : Path} {c : Option Bytes}

theorem writeStructs_keeps {structs : List (String × Bytes)}
    (hq : ∀ key, q ≠ location (attr.structFile drivePath key))
    (h : writeStructs drivePath attr structs fs = some fs') (hc : fs.contentAt q = c) :
    fs'.contentAt q = c := by
  refine FileSystem.foldlM_keeps (P := fun fs => fs.contentAt q = c) (fun fs fs' s hstep hc => ?_) hc h
  rw [FileSystem.contentAt_openFile hstep, if_neg (hq s.1)]
  exact hc

theorem writeData_keeps {table : String} (hq : q ≠ location (attr.dataFile drivePath table))
    (h : writeData db drivePath attr table fs = some fs') (hc : fs.contentAt q = c) :
    fs'.contentAt q = c := by
  obtain ⟨totalRows, -, h⟩ := Option.bind_eq_some_iff.mp h
  refine FileSystem.foldlM_keeps (P := fun fs => fs.contentAt q = c) (fun fs fs' k hpage hc => ?_) hc h
  obtain ⟨dataRows, -, hpage⟩ := Option.bind_eq_some_iff.mp hpage
  obtain ⟨jsonResult, -, hopen⟩ := Option.bind_eq_some_iff.mp hpage
  rw [FileSystem.contentAt_openFile hopen, if_neg hq]
  exact hc

theorem writeFiles_keeps (hstruct : ∀ key, q ≠ location (attr.structFile drivePath key))
    (hdata : ∀ table, q ≠ location (attr.dataFile drivePath table))
    (h : writeFiles db drivePath attr kind fs = some fs') (hc : fs.contentAt q = c) :
    fs'.contentAt q = c := by
  cases kind with
  | databaseOnlyStruct =>
    obtain ⟨tables, -, h⟩ := Option.bind_eq_some_iff.mp h
    refine FileSystem.foldlM_keeps (P := fun fs => fs.contentAt q = c) (fun fs fs' t ht hc => ?_) hc h
    obtain ⟨structs, -, ht⟩ := Option.bind_eq_some_iff.mp ht
    exact writeStructs_keeps hstruct ht hc
  | databaseStructData =>
    obtain ⟨tables, -, h⟩ := Option.bind_eq_some_iff.mp h
    refine FileSystem.foldlM_keeps (P := fun fs => fs.contentAt q = c) (fun fs fs' t ht hc => ?_) hc h
    obtain ⟨structs, -, ht⟩ := Option.bind_eq_some_iff.mp ht
    obtain ⟨fs₁, hstructs, htable⟩ := Option.bind_eq_some_iff.mp ht
    exact writeData_keeps (hdata t) htable (writeStructs_keeps hstruct hstructs hc)
  | tableOnlyStruct =>
    obtain ⟨structs, -, h⟩ := Option.bind_eq_some_iff.mp h
    exact writeStructs_keeps hstruct h hc
  | tableStructData table =>
    obtain ⟨structs, -, h⟩ := Option.bind_eq_some_iff.mp h
    obtain ⟨fs₁, hstructs, htable⟩ := Option.bind_eq_some_iff.mp h
    exact writeData_keeps (hdata table) htable (writeStructs_keeps hstruct hstructs hc)

/-- An export changes the files of its tables and the archive alone. -/
theorem contentAt_exportArchive {result : FileSystem Bytes × List (Path × Bytes)}
    (hstruct : ∀ key, q ≠ location (attr.structFile drivePath key))
    (hdata : ∀ table, q ≠ location (attr.dataFile drivePath table))
    (hzip : q ≠ location (attr.targetZip drivePath))
    (hdst : q ≠ location (dstPath (attr.targetZip drivePath) (attr.targetDir drivePath)))
    (h : exportArchive pack db drivePath attr kind fs = some result) :
    result.1.contentAt q = fs.contentAt q := by
  obtain ⟨fs₁, hdir, h⟩ := Option.bind_eq_some_iff.mp h
  obtain ⟨fs₂, hfiles, h⟩ := Option.bind_eq_some_iff.mp h
  obtain ⟨zipped, hzipped, h⟩ := Option.bind_eq_some_iff.mp h
  obtain ⟨fs₄, hmove, rfl⟩ := Option.map_eq_some_iff.mp h
  obtain ⟨fs₃, hcreate, hzipped⟩ := Option.bind_eq_some_iff.mp hzipped
  obtain ⟨fs₃', hpack, rfl⟩ := Option.map_eq_some_iff.mp hzipped
  obtain ⟨f, hf⟩ := FileSystem.fileAt_openFile hpack
  dsimp only
  rw [FileSystem.contentAt_rename hf hmove hzip hdst, FileSystem.contentAt_openFile hpack, if_neg hzip,
    FileSystem.contentAt_openFile hcreate, if_neg hzip,
    writeFiles_keeps hstruct hdata hfiles rfl, contentAt_ensureDir hdir]

end Frame

end Transfer

/-! ## An entry that leads out -/

def leavingEntry : ZipEntry := { name := "../../u2/b.sql", isDir := false, data := .data [2] }

theorem not_within_leavingEntry : ¬ (location (dumpAttr.targetDir "/drive")).Within
    (leavingEntry.path (dumpAttr.targetDir "/drive")) := by
  decide

end NextDBM
