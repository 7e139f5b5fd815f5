import NextDBM.Files.Import
import NextDBM.Files.Proofs.ArchivesProofs
import NextDBM.Files.Proofs.StorageProofs

/-!
# Proofs: imports of a database

The walk gives the `.sql` files in the order of their paths, so an import is settled by which files
there are after the archive was extracted: the entries, and what was in the directory before.
-/

namespace NextDBM

open FilePath MySqlText

variable {openReader : Bytes → Option (List ZipEntry)} {db : ImportDb} {fs fs' : FileSystem Bytes}
  {drivePath target : String} {attr : TransferAttr} {zip : Bytes} {entries : List ZipEntry}
  {archive p q : Path} {files files' : List (Path × Bytes)} {done : List Bytes}

/-! ## The execution of the files -/

namespace ImportDb

theorem exec_snd (db : ImportDb) (done : List Bytes) (files : List (Path × Bytes)) :
    (db.exec done files).2 = db.acceptsAll done (files.map Prod.snd) := by
  induction files generalizing done with
  | nil => rfl
  | cons f files ih =>
    unfold exec
    rw [List.map_cons, acceptsAll]
    split
    next h => rw [h, Bool.true_and, ← ih]
    next h => rw [Bool.eq_false_iff.mpr h, Bool.false_and]

theorem exec_fst_prefix (db : ImportDb) (done : List Bytes) (files : List (Path × Bytes)) :
    (db.exec done files).1 <+: files := by
  induction files generalizing done with
  | nil => exact List.prefix_refl []
  | cons f files ih =>
    unfold exec
    split
    · exact List.cons_prefix_cons.mpr ⟨rfl, ih _⟩
    · exact List.cons_prefix_cons.mpr ⟨rfl, List.nil_prefix⟩

theorem exec_fst_of_accepts (h : db.acceptsAll done (files.map Prod.snd) = true) :
    (db.exec done files).1 = files := by
  induction files generalizing done with
  | nil => rfl
  | cons f files ih =>
    rw [List.map_cons, acceptsAll, Bool.and_eq_true] at h
    unfold exec
    rw [if_pos h.1, ih h.2]

end ImportDb

/-- What an import has executed when it ends: all `.sql` files or none. -/
theorem ran_importDatabase (h : extractArchive openReader fs drivePath attr = some fs') :
    (importDatabase openReader db fs drivePath attr).ran =
      if db.takes ((sqlFiles fs' (location (attr.targetDir drivePath))).map Prod.snd) then
        sqlFiles fs' (location (attr.targetDir drivePath))
      else [] := by
  unfold importDatabase ImportDb.takes
  rw [h]
  dsimp only
  cases hbegins : db.begins with
  | false => rfl
  | true =>
    rw [if_pos rfl]
    unfold ImportOutcome.ran
    dsimp only
    rw [ImportDb.exec_snd, Bool.true_and]
    cases haccepts : db.acceptsAll []
        ((sqlFiles fs' (location (attr.targetDir drivePath))).map Prod.snd) with
    | false => rfl
    | true => rw [ImportDb.exec_fst_of_accepts haccepts]

theorem ran_of_none (h : extractArchive openReader fs drivePath attr = none) :
    (importDatabase openReader db fs drivePath attr).ran = [] := by
  unfold importDatabase
  rw [h]
  rfl

/-! ## The files of the walk -/

theorem mem_sqlFiles {c : Bytes} :
    (q, c) ∈ sqlFiles fs p ↔ isSql q = true ∧ p.Within q ∧ fs.contentAt q = some c := by
  unfold sqlFiles
  rw [List.mem_filter, FileSystem.mem_map_walk, and_comm]

/-- The walk lists the paths in order, each once. -/
theorem pairwise_sqlFiles (fs : FileSystem Bytes) (p : Path) :
    (sqlFiles fs p).Pairwise fun f g => f.1 < g.1 := by
  have hnodup := FileSystem.nodup_walk fs p
  have hlt : (fs.walk p).Pairwise fun f g => f.path < g.path :=
    ((FileSystem.pairwise_walk fs p).and (List.pairwise_map.mp hnodup)).imp
      fun h => lt_of_le_of_ne h.1 h.2
  have hpairs : ((fs.walk p).map fun f => (f.path, f.content)).Pairwise fun f g => f.1 < g.1 :=
    List.pairwise_map.mpr hlt
  exact hpairs.filter _

theorem nodup_of_pairwise (h : files.Pairwise fun f g => f.1 < g.1) : files.Nodup :=
  h.imp fun hlt heq => absurd (congrArg Prod.fst heq) (ne_of_lt hlt)

/-- Two lists in the order of the paths with the same files are the same. -/
theorem eq_of_perm (h : files.Pairwise fun f g => f.1 < g.1)
    (h' : files'.Pairwise fun f g => f.1 < g.1) (hperm : files.Perm files') : files = files' :=
  List.Perm.eq_of_pairwise (fun _ _ _ _ hab hba => absurd hba (lt_asymm hab)) h h' hperm

theorem eq_of_mem_iff (h : files.Pairwise fun f g => f.1 < g.1)
    (h' : files'.Pairwise fun f g => f.1 < g.1) (hmem : ∀ f, f ∈ files ↔ f ∈ files') :
    files = files' :=
  eq_of_perm h h' ((List.perm_ext_iff_of_nodup (nodup_of_pairwise h) (nodup_of_pairwise h')).mpr hmem)

theorem pairwise_inOrder (h : (files.map Prod.fst).Nodup) :
    (inOrder files).Pairwise fun f g => f.1 < g.1 := by
  have hnodup : ((inOrder files).map Prod.fst).Nodup :=
    ((List.perm_insertionSort _ files).map Prod.fst).nodup_iff.mpr h
  have : Std.Total fun f g : Path × Bytes => f.1 ≤ g.1 := ⟨fun f g => le_total f.1 g.1⟩
  have : IsTrans (Path × Bytes) fun f g => f.1 ≤ g.1 := ⟨fun _ _ _ => le_trans⟩
  have hle := List.pairwise_insertionSort (fun f g : Path × Bytes => f.1 ≤ g.1) files
  exact (hle.and (List.pairwise_map.mp hnodup)).imp fun h => lt_of_le_of_ne h.1 h.2

theorem inOrder_eq_of_perm (h : (files.map Prod.fst).Nodup)
    (h' : files'.Pairwise fun f g => f.1 < g.1) (hperm : files'.Perm files) :
    inOrder files = files' :=
  eq_of_perm (pairwise_inOrder h) h' ((List.perm_insertionSort _ _).trans hperm.symm)

/-! ## The entries -/

theorem mem_sqlEntries {c : Bytes} : (q, c) ∈ sqlEntries target entries ↔
    isSql q = true ∧ ∃ e ∈ entries, e.isDir = false ∧ e.path target = q ∧ e.text = c := by
  unfold sqlEntries
  rw [List.mem_filter, List.mem_map, and_comm]
  refine and_congr Iff.rfl (exists_congr fun e => ?_)
  rw [List.mem_filter, and_assoc, Bool.not_eq_true', Prod.mk.injEq]

/-- With different paths, the last entry with a path is the only one. -/
theorem lastText_of_mem {c : Bytes} (hdistinct : ((sqlEntries target entries).map Prod.fst).Nodup)
    (h : (q, c) ∈ sqlEntries target entries) : lastText target q entries = some c := by
  obtain ⟨hsql, e, he, hdir, hpath, htext⟩ := mem_sqlEntries.mp h
  unfold lastText
  cases hlast : entries.reverse.find? fun e => !e.isDir && decide (e.path target = q) with
  | none =>
    have hnone := List.find?_eq_none.mp hlast e (List.mem_reverse.mpr he)
    rw [hdir, decide_eq_true hpath] at hnone
    exact absurd rfl hnone
  | some e' =>
    have hprop := List.find?_some hlast
    rw [Bool.and_eq_true, Bool.not_eq_true', decide_eq_true_eq] at hprop
    have hmem : (q, e'.text) ∈ sqlEntries target entries :=
      mem_sqlEntries.mpr ⟨hsql, e', List.mem_reverse.mp (List.mem_of_find?_eq_some hlast), hprop.1,
        hprop.2, rfl⟩
    have hsame := List.inj_on_of_nodup_map hdistinct hmem h rfl
    exact congrArg some (Prod.mk.inj hsame).2

theorem lastText_eq_none (hsql : isSql q = true) (h : q ∉ (sqlEntries target entries).map Prod.fst) :
    lastText target q entries = none := by
  unfold lastText
  cases hlast : entries.reverse.find? fun e => !e.isDir && decide (e.path target = q) with
  | none => rfl
  | some e =>
    have hprop := List.find?_some hlast
    rw [Bool.and_eq_true, Bool.not_eq_true', decide_eq_true_eq] at hprop
    have hmem : (q, e.text) ∈ sqlEntries target entries :=
      mem_sqlEntries.mpr ⟨hsql, e, List.mem_reverse.mp (List.mem_of_find?_eq_some hlast), hprop.1,
        hprop.2, rfl⟩
    exact absurd (List.mem_map_of_mem hmem) h

/-! ## The extraction -/

theorem ensureDir_some (h : ensureDir fs p = some fs') : fs' = fs ∨ fs.mkdirAll p = some fs' := by
  unfold ensureDir at h
  split at h
  · exact .inl (Option.some.inj h).symm
  · exact .inr h

theorem contentAt_ensureDir (h : ensureDir fs p = some fs') (q : Path) :
    fs'.contentAt q = fs.contentAt q := by
  rcases ensureDir_some h with rfl | hmk
  · rfl
  · exact FileSystem.contentAt_mkdirAll hmk q

/-- That the target directory is there already makes no difference. -/
theorem extractable_ensureDir (h : ensureDir fs (location target) = some fs') :
    Extractable fs' target archive entries ↔ Extractable fs target archive entries := by
  rcases ensureDir_some h with rfl | hmk
  · rfl
  · have hfits (e : ZipEntry) : e.Fits fs' target archive ↔ e.Fits fs target archive := by
      unfold ZipEntry.Fits
      rw [FileSystem.isBlocked_mkdirAll hmk, FileSystem.isBlocked_mkdirAll hmk]
      split
      · rfl
      · rw [FileSystem.isDir_mkdirAll_eq_false hmk]
        refine and_congr_right fun _ => ⟨fun ⟨hnot, hw⟩ => ⟨hnot.1, hw⟩, fun ⟨hnot, hw, hd⟩ => ?_⟩
        exact ⟨⟨hnot, hw⟩, hw, hd⟩
    constructor
    · rintro ⟨hblocked, hall, hpair⟩
      rw [FileSystem.isBlocked_mkdirAll hmk] at hblocked
      exact ⟨hblocked, fun e he => (hfits e).mp (hall e he), hpair⟩
    · rintro ⟨hblocked, hall, hpair⟩
      rw [← FileSystem.isBlocked_mkdirAll hmk] at hblocked
      exact ⟨hblocked, fun e he => (hfits e).mpr (hall e he), hpair⟩

section Extract

variable (hzip : fs.contentAt (location (attr.sourceZip drivePath)) = some zip)
  (hopen : openReader zip = some entries)

include hzip

/-- The archive is there, so nothing is made at its path. -/
theorem ensureDir_source : ensureDir fs (location (attr.sourceZip drivePath)) = some fs := by
  obtain ⟨f, hf, -⟩ := Option.map_eq_some_iff.mp hzip
  unfold ensureDir FileSystem.exists?
  rw [hf]
  rfl

include hopen

theorem extractArchive_eq : extractArchive openReader fs drivePath attr =
    (ensureDir fs (location (attr.targetDir drivePath))).bind fun fs =>
      unzip fs (attr.targetDir drivePath) (location (attr.sourceZip drivePath)) entries := by
  unfold extractArchive
  simp only [Option.bind_eq_bind, ensureDir_source hzip, Option.bind_some]
  cases hdir : ensureDir fs (location (attr.targetDir drivePath)) with
  | none => rfl
  | some fs₁ =>
    rw [Option.bind_some, contentAt_ensureDir hdir, hzip, Option.bind_some, hopen, Option.bind_some,
      Option.bind_some]

theorem extractArchive_isSome : (∃ fs', extractArchive openReader fs drivePath attr = some fs') ↔
    Extractable fs (attr.targetDir drivePath) (location (attr.sourceZip drivePath)) entries := by
  rw [extractArchive_eq hzip hopen]
  cases hdir : ensureDir fs (location (attr.targetDir drivePath)) with
  | none =>
    unfold ensureDir at hdir
    split at hdir
    · cases hdir
    · constructor
      · rintro ⟨fs', h⟩
        cases h
      · intro h
        obtain ⟨fs', hmk⟩ := FileSystem.mkdirAll_isSome.mpr h.unblocked
        rw [hdir] at hmk
        cases hmk
  | some fs₁ => rw [Option.bind_some, unzip_isSome, extractable_ensureDir hdir]

theorem contentAt_extractArchive (h : extractArchive openReader fs drivePath attr = some fs')
    (q : Path) :
    fs'.contentAt q = (lastText (attr.targetDir drivePath) q entries).or (fs.contentAt q) := by
  rw [extractArchive_eq hzip hopen] at h
  obtain ⟨fs₁, hdir, hunzip⟩ := Option.bind_eq_some_iff.mp h
  rw [contentAt_unzip hunzip, contentAt_ensureDir hdir]

end Extract

/-! ## What an import executes -/

section Executes

-- The directory is any path here, and no proof may look into it.
attribute [local irreducible] location

variable (hzip : fs.contentAt (location (attr.sourceZip drivePath)) = some zip)
  (hopen : openReader zip = some entries)

include hzip hopen

/-- Without `.sql` entries the walk finds the files that were there before. -/
theorem sqlFiles_extractArchive (hnone : sqlEntries (attr.targetDir drivePath) entries = [])
    (h : extractArchive openReader fs drivePath attr = some fs') :
    sqlFiles fs' (location (attr.targetDir drivePath)) =
      sqlFiles fs (location (attr.targetDir drivePath)) := by
  refine eq_of_mem_iff (pairwise_sqlFiles _ _) (pairwise_sqlFiles _ _) fun ⟨q, c⟩ => ?_
  rw [mem_sqlFiles, mem_sqlFiles, contentAt_extractArchive hzip hopen h]
  refine and_congr_right fun hsql => ?_
  have hlast : lastText (attr.targetDir drivePath) q entries = none := by
    apply lastText_eq_none hsql
    rw [hnone]
    exact List.not_mem_nil
  rw [hlast, Option.none_or]

/-- When only the archive is in the directory, the walk finds its `.sql` entries. -/
theorem sqlFiles_perm (honly : OnlyArchive db fs (attr.targetDir drivePath)
      (location (attr.sourceZip drivePath)) entries)
    (h : extractArchive openReader fs drivePath attr = some fs') :
    (sqlFiles fs' (location (attr.targetDir drivePath))).Perm
      (sqlEntries (attr.targetDir drivePath) entries) := by
  have hnodup := List.Nodup.of_map Prod.fst honly.distinct
  refine (List.perm_ext_iff_of_nodup (nodup_of_pairwise (pairwise_sqlFiles _ _)) hnodup).mpr ?_
  rintro ⟨q, c⟩
  rw [mem_sqlFiles, contentAt_extractArchive hzip hopen h]
  constructor
  · rintro ⟨hsql, hwithin, hcontent⟩
    by_cases hq : q ∈ (sqlEntries (attr.targetDir drivePath) entries).map Prod.fst
    · obtain ⟨⟨q', c'⟩, hmem, rfl⟩ := List.mem_map.mp hq
      rw [lastText_of_mem honly.distinct hmem, Option.some_or] at hcontent
      obtain rfl := Option.some.inj hcontent
      exact hmem
    · rw [lastText_eq_none hsql hq, Option.none_or] at hcontent
      have hold : (q, c) ∈ sqlFiles fs (location (attr.targetDir drivePath)) :=
        mem_sqlFiles.mpr ⟨hsql, hwithin, hcontent⟩
      exact absurd (honly.replaced _ hold) hq
  · intro hmem
    refine ⟨(mem_sqlEntries.mp hmem).1, honly.within _ hmem, ?_⟩
    rw [lastText_of_mem honly.distinct hmem, Option.some_or]

/-- An import that executes the entries finds nothing else in the directory. -/
theorem onlyArchive_of_perm (h : extractArchive openReader fs drivePath attr = some fs')
    (hperm : (sqlFiles fs' (location (attr.targetDir drivePath))).Perm
      (sqlEntries (attr.targetDir drivePath) entries))
    (htakes : db.takes ((sqlFiles fs' (location (attr.targetDir drivePath))).map Prod.snd) = true) :
    OnlyArchive db fs (attr.targetDir drivePath) (location (attr.sourceZip drivePath)) entries := by
  have hpairwise := pairwise_sqlFiles fs' (location (attr.targetDir drivePath))
  have hdistinct : ((sqlEntries (attr.targetDir drivePath) entries).map Prod.fst).Nodup := by
    refine (hperm.map Prod.fst).nodup_iff.mp (List.pairwise_map.mpr ?_)
    exact hpairwise.imp fun hlt => ne_of_lt hlt
  have hwithin : ∀ f ∈ sqlEntries (attr.targetDir drivePath) entries,
      (location (attr.targetDir drivePath)).Within f.1 := by
    intro f hmem
    exact (mem_sqlFiles.mp (hperm.mem_iff.mpr hmem)).2.1
  have hreplaced : ∀ f ∈ sqlFiles fs (location (attr.targetDir drivePath)),
      f.1 ∈ (sqlEntries (attr.targetDir drivePath) entries).map Prod.fst := by
    intro f hmem
    obtain ⟨hsql, hin, hcontent⟩ := mem_sqlFiles.mp hmem
    by_contra hq
    have hstays : f ∈ sqlFiles fs' (location (attr.targetDir drivePath)) := by
      apply mem_sqlFiles.mpr
      rw [contentAt_extractArchive hzip hopen h, lastText_eq_none hsql hq]
      exact ⟨hsql, hin, hcontent⟩
    exact hq (List.mem_map_of_mem (hperm.mem_iff.mp hstays))
  have hsorted : inOrder (sqlEntries (attr.targetDir drivePath) entries) =
      sqlFiles fs' (location (attr.targetDir drivePath)) :=
    inOrder_eq_of_perm hdistinct hpairwise hperm
  refine ⟨(extractArchive_isSome hzip hopen).mp ⟨fs', h⟩, hdistinct, hwithin, hreplaced, ?_⟩
  rw [hsorted]
  exact htakes

theorem executesArchive_of_isEmpty (hnone : sqlEntries (attr.targetDir drivePath) entries = []) :
    ExecutesArchive (importDatabase openReader db fs drivePath attr) (attr.targetDir drivePath)
        entries ↔
      (Extractable fs (attr.targetDir drivePath) (location (attr.sourceZip drivePath)) entries →
        sqlFiles fs (location (attr.targetDir drivePath)) = [] ∨
          db.takes ((sqlFiles fs (location (attr.targetDir drivePath))).map Prod.snd) = false) := by
  unfold ExecutesArchive
  rw [hnone, List.perm_nil, ← extractArchive_isSome hzip hopen]
  cases hextract : extractArchive openReader fs drivePath attr with
  | none =>
    rw [ran_of_none hextract]
    exact ⟨fun _ ⟨fs', h⟩ => (by cases h), fun _ => rfl⟩
  | some fs' =>
    rw [ran_importDatabase hextract, sqlFiles_extractArchive hzip hopen hnone hextract]
    constructor
    · intro h _
      split at h
      next htakes => exact .inl h
      next htakes => exact .inr (Bool.eq_false_iff.mpr htakes)
    · intro h
      rcases h ⟨fs', rfl⟩ with hnil | htakes
      · rw [hnil]
        exact ite_self []
      · rw [htakes]
        rfl

theorem executesArchive_of_ne_nil (hsome : sqlEntries (attr.targetDir drivePath) entries ≠ []) :
    ExecutesArchive (importDatabase openReader db fs drivePath attr) (attr.targetDir drivePath)
        entries ↔
      OnlyArchive db fs (attr.targetDir drivePath) (location (attr.sourceZip drivePath)) entries := by
  unfold ExecutesArchive
  constructor
  · intro hperm
    cases hextract : extractArchive openReader fs drivePath attr with
    | none =>
      rw [ran_of_none hextract] at hperm
      exact absurd (List.nil_perm.mp hperm) hsome
    | some fs' =>
      rw [ran_importDatabase hextract] at hperm
      split at hperm
      next htakes => exact onlyArchive_of_perm hzip hopen hextract hperm htakes
      next htakes => exact absurd (List.nil_perm.mp hperm) hsome
  · intro honly
    obtain ⟨fs', hextract⟩ := (extractArchive_isSome hzip hopen).mpr honly.extractable
    have hperm := sqlFiles_perm hzip hopen honly hextract
    have hsorted : inOrder (sqlEntries (attr.targetDir drivePath) entries) =
        sqlFiles fs' (location (attr.targetDir drivePath)) :=
      inOrder_eq_of_perm honly.distinct (pairwise_sqlFiles _ _) hperm
    rw [ran_importDatabase hextract, ← hsorted, if_pos honly.taken, hsorted]
    exact hperm

end Executes

/-- A drive with some files. -/
def driveWith (files : List (String × Bytes)) : FileSystem Bytes :=
  { files := files.foldl
      (fun t f => t.put { path := location f.1, number := 0, content := f.2 }) Relational.Table.empty }

/-- A database that takes everything. -/
def obligingDb : ImportDb := { begins := true, accepts := fun _ _ => true, commits := fun _ => true }

def dumpAttr : TransferAttr := { storageId := "u1", filePath := "/export/", fileName := "a.zip" }

def dumpEntry : ZipEntry := { name := "b.sql", isDir := false, data := .data [2] }

/-- The files of the structure and the data of a table have the same directory, and `-data.sql` is
before `-struct.sql`. -/
theorem data_lt_struct (dir table : String) :
    location (pathJoin [dir, table ++ "-data.sql"]) <
      location (pathJoin [dir, table ++ "-struct.sql"]) := by
  obtain ⟨p, l, hsiblings⟩ := exists_siblings [dir.toList] table.toList
  obtain ⟨hdata, hdataPath⟩ := hsiblings "-data.sql".toList rfl (by decide)
  obtain ⟨hstruct, hstructPath⟩ := hsiblings "-struct.sql".toList rfl (by decide)
  have hjoin := location_pathJoin_append [dir] table
  simp only [List.singleton_append] at hjoin
  rw [hjoin, hjoin, List.map_singleton, hdataPath, hstructPath]
  exact p.extend_lt_extend (List.append_left_lt (by decide))

/-- The files are executed in the order of their paths. -/
theorem pairwise_executed (openReader : Bytes → Option (List ZipEntry)) (db : ImportDb)
    (fs : FileSystem Bytes) (drivePath : String) (attr : TransferAttr) :
    (importDatabase openReader db fs drivePath attr).executed.Pairwise fun f g => f.1 < g.1 := by
  unfold importDatabase
  split
  · exact List.Pairwise.nil
  · split
    · exact (pairwise_sqlFiles _ _).sublist (ImportDb.exec_fst_prefix db [] _).sublist
    · exact List.Pairwise.nil

/-- The structure of a table is never executed before its data. -/
theorem not_structFirst_cons (openReader : Bytes → Option (List ZipEntry)) (db : ImportDb)
    (fs : FileSystem Bytes) (drivePath : String) (attr : TransferAttr) (dir t : String)
    (tables : List String) :
    ¬ StructFirst dir (t :: tables) (importDatabase openReader db fs drivePath attr) := by
  intro h
  have hsub := h t List.mem_cons_self
  have hpaths := List.pairwise_map.mpr (pairwise_executed openReader db fs drivePath attr)
  have hlt := List.rel_of_pairwise_cons (hpaths.sublist hsub) (List.mem_singleton.mpr rfl)
  exact absurd hlt (lt_asymm (data_lt_struct dir t))

/-- No import executes the structure of a table before its data, whatever the names of the tables: only
without tables there is nothing to be done. -/
theorem structFirst_iff (openReader : Bytes → Option (List ZipEntry)) (db : ImportDb)
    (fs : FileSystem Bytes) (drivePath : String) (attr : TransferAttr) (dir : String)
    (tables : List String) :
    StructFirst dir tables (importDatabase openReader db fs drivePath attr) ↔ tables = [] := by
  constructor
  · intro h
    cases tables with
    | nil => rfl
    | cons t tables => exact absurd h (not_structFirst_cons openReader db fs drivePath attr dir t tables)
  · rintro rfl t ht
    exact absurd ht List.not_mem_nil

/-- The data of an exported table is executed before its structure. -/
theorem not_structFirst_exported : ¬ ∀ (openReader : Bytes → Option (List ZipEntry)) (db : ImportDb)
    (fs : FileSystem Bytes) (drivePath : String) (attr : TransferAttr) (zip : Bytes)
    (folder : String) (struct data : String → Bytes) (tables : List String), tables.Nodup →
      fs.contentAt (location (attr.sourceZip drivePath)) = some zip →
        openReader zip = some (tableEntries folder struct data tables) →
          StructFirst (pathJoin [attr.targetDir drivePath, folder]) tables
            (importDatabase openReader db fs drivePath attr) := by
  intro h
  have hfirst := h (fun _ => some (tableEntries "/dump" (fun _ => [1]) (fun _ => [2]) ["t"]))
    obligingDb (driveWith [("/drive/u1/export/a.zip", [])]) "/drive" dumpAttr [] "/dump" (fun _ => [1])
    (fun _ => [2]) ["t"] (List.nodup_singleton "t") (by decide) rfl
  exact not_structFirst_cons _ _ _ _ _ _ _ _ hfirst

end NextDBM
