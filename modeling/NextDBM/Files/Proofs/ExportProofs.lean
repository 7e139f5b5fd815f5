import Mathlib.Algebra.Order.BigOperators.Group.List
import NextDBM.Files.Export
import NextDBM.Files.Proofs.ImportProofs

/-!
# Proofs: exports of a database or a table

The data file of a table gets the statements of its pages after what it held before. As many visible
bytes as the statements have are in it only if there were none before, so the text has one statement
for each row exactly when the file was blank.
-/

namespace NextDBM

open FilePath MySqlText

section Export

variable {pack : List (List Char × Bytes) → Bytes} {db : ExportDb} {drivePath : String}
  {attr : TransferAttr} {kind : ExportKind} {fs fs' : FileSystem Bytes} {table : String}
  {content : TableRows} {packed : List (Path × Bytes)} {s t u : Bytes} {ss ts : List Bytes}
  {p q : Path}

/-! ## Texts of statements -/

/-- The number of visible bytes. -/
def visible (t : Bytes) : Nat := (t.filter fun c => !isSpace c).length

theorem visible_append (t u : Bytes) : visible (t ++ u) = visible t + visible u := by
  rw [visible, List.filter_append, List.length_append, visible, visible]

theorem visible_eq_zero : visible t = 0 ↔ Blank t := by
  rw [visible, List.length_eq_zero_iff, List.filter_eq_nil_iff]
  refine forall_congr' fun c => imp_congr_right fun _ => ?_
  rw [Bool.not_eq_true', Bool.not_eq_false]

theorem blank_append (ht : Blank t) (hu : Blank u) : Blank (t ++ u) := fun c hc =>
  (List.mem_append.mp hc).elim (ht c) (hu c)

theorem blank_nil : Blank [] := fun _ hc => absurd hc List.not_mem_nil

theorem visible_script (h : Script t ss) : visible t = (ss.map visible).sum := by
  induction ss generalizing t with
  | nil => exact visible_eq_zero.mpr h
  | cons s ss ih =>
    obtain ⟨space, rest, hspace, rfl, hrest⟩ := h
    rw [visible_append, visible_append, visible_eq_zero.mpr hspace, ih hrest, List.map_cons,
      List.sum_cons]
    omega

theorem script_blank_append (ht : Blank t) (h : Script u ss) : Script (t ++ u) ss := by
  cases ss with
  | nil => exact blank_append ht h
  | cons s ss =>
    obtain ⟨space, rest, hspace, rfl, hrest⟩ := h
    exact ⟨t ++ space, rest, blank_append ht hspace, by simp only [List.append_assoc], hrest⟩

theorem script_append (ht : Script t ss) (hu : Script u ts) : Script (t ++ u) (ss ++ ts) := by
  induction ss generalizing t with
  | nil => exact script_blank_append ht hu
  | cons s ss ih =>
    obtain ⟨space, rest, hspace, rfl, hrest⟩ := ht
    exact ⟨space, rest ++ u, hspace, by simp only [List.append_assoc], ih hrest⟩

/-- Statements on lines of their own. -/
theorem script_joinBytes (ss : List Bytes) : Script (joinBytes ss [10]) ss := by
  induction ss with
  | nil => exact blank_nil
  | cons s ss ih =>
    cases ss with
    | nil =>
      refine ⟨[], [], blank_nil, ?_, blank_nil⟩
      rw [joinBytes, List.intercalate_singleton, List.nil_append, List.append_nil]
    | cons s' ss =>
      refine ⟨[], 10 :: joinBytes (s' :: ss) [10], blank_nil, ?_, ?_⟩
      · rw [joinBytes, List.intercalate_cons_cons, List.nil_append]
        simp [joinBytes]
      · have hnewline : Blank [10] := by
          intro c hc
          rw [List.mem_singleton.mp hc]
          rfl
        exact script_blank_append hnewline ih

theorem visible_rowsOnce (h : RowsOnce t ss) : visible t = (ss.map visible).sum := by
  obtain ⟨written, hperm, hscript⟩ := h
  rw [visible_script hscript]
  exact (hperm.map visible).sum_eq

theorem visible_insertStatement_pos (tableName : Bytes) (columns : List Bytes)
    (values : List SqlValue) : 0 < visible (insertStatement tableName columns values) := by
  have hhead : ∃ r, insertStatement tableName columns values = ascii "INSERT" ++ r :=
    ⟨_, by
      unfold insertStatement
      simp only [List.append_assoc]
      rfl⟩
  obtain ⟨r, hr⟩ := hhead
  rw [hr, visible_append]
  exact Nat.lt_of_lt_of_le (by decide) (Nat.le_add_right _ _)

theorem visible_statements_eq_zero :
    ((content.statements table).map visible).sum = 0 ↔ content.rows = [] := by
  constructor
  · intro h
    cases hrows : content.rows with
    | nil => rfl
    | cons row rows =>
      unfold TableRows.statements at h
      rw [hrows, List.map_cons, List.map_cons, List.sum_cons] at h
      have hpos := visible_insertStatement_pos (tableFormat (utf8 table)) content.columns row
      omega
  · intro h
    unfold TableRows.statements
    rw [h]
    rfl

/-! ## The pages of a table -/

/-- The statements of a page. -/
def pageText (db : ExportDb) (table : String) (currentPage : Nat) : Bytes :=
  ((db.page table pageSize (currentPage * pageSize)).bind fun dataRows =>
    (rowsToInsertStatements dataRows.1 dataRows.2 (tableFormat (utf8 table))).toOption).getD []

/-- The statements of all pages. -/
def dataText (db : ExportDb) (table : String) : Bytes :=
  (List.range (totalPages ((db.count table).getD 0))).flatMap (pageText db table)

theorem mapM_ok {α ε : Type} (xs : List α) :
    (xs.map (Except.ok (ε := ε))).mapM id = .ok xs := by
  induction xs with
  | nil => rfl
  | cons x xs ih =>
    rw [List.map_cons, List.mapM_cons, ih]
    rfl

theorem pageText_of_page {currentPage : Nat} {part : List (List SqlValue)}
    (h : db.page table pageSize (currentPage * pageSize) =
      some (.ok content.columns, part.map .ok)) :
    pageText db table currentPage =
      joinBytes (part.map (insertStatement (tableFormat (utf8 table)) content.columns)) [10] := by
  unfold pageText rowsToInsertStatements
  rw [h, Option.bind_some]
  dsimp only
  rw [mapM_ok]
  rfl

theorem script_flatMap_pages (stmt : List SqlValue → Bytes) (parts : List (List (List SqlValue))) :
    Script (parts.flatMap fun part => joinBytes (part.map stmt) [10]) (parts.flatten.map stmt) := by
  induction parts with
  | nil => exact blank_nil
  | cons part parts ih =>
    rw [List.flatMap_cons, List.flatten_cons, List.map_append]
    exact script_append (script_joinBytes _) ih

/-- The pages have one statement for each row. -/
theorem rowsOnce_dataText (h : PagesPart db table content) :
    RowsOnce (dataText db table) (content.statements table) := by
  obtain ⟨parts, hlen, hperm, hpages⟩ := h.pages
  refine ⟨parts.flatten.map (insertStatement (tableFormat (utf8 table)) content.columns),
    hperm.map _, ?_⟩
  have htext : dataText db table = parts.flatMap fun part =>
      joinBytes (part.map (insertStatement (tableFormat (utf8 table)) content.columns)) [10] := by
    unfold dataText
    rw [h.count, Option.getD_some, ← hlen, List.flatMap_def, List.flatMap_def]
    congr 1
    refine List.ext_getElem (by simp) fun k hk hk' => ?_
    rw [List.length_map] at hk'
    rw [List.getElem_map, List.getElem_map, List.getElem_range]
    exact pageText_of_page (hpages k parts[k] (List.getElem?_eq_getElem hk'))
  rw [htext]
  exact script_flatMap_pages _ parts

/-- Without rows there is no page. -/
theorem dataText_eq_nil (h : PagesPart db table content) (hrows : content.rows = []) :
    dataText db table = [] := by
  unfold dataText
  rw [h.count, hrows]
  rfl

/-! ## What is written to the files -/

theorem textAt_openFile {g : Option Bytes → Bytes} (h : fs.openFile p g = some fs') (q : Path) :
    textAt fs' q = if q = p then g (fs.contentAt p) else textAt fs q := by
  unfold textAt
  rw [FileSystem.contentAt_openFile h]
  split <;> rfl

/-- The files of a table end in different ways. -/
theorem dataFile_ne_structFile (attr : TransferAttr) (drivePath table key : String) :
    location (attr.dataFile drivePath table) ≠ location (attr.structFile drivePath key) := by
  have hfile (name suffix : String) :
      location (pathJoin [pathJoin [drivePath, attr.storageId], attr.filePath, name ++ suffix]) =
        clean (join ([(pathJoin [drivePath, attr.storageId]).toList, attr.filePath.toList] ++
          [name.toList ++ suffix.toList])) :=
    location_pathJoin_append [pathJoin [drivePath, attr.storageId], attr.filePath] name suffix
  unfold TransferAttr.dataFile TransferAttr.structFile
  rw [hfile, hfile]
  obtain ⟨p, l, hdata⟩ := exists_siblings
    [(pathJoin [drivePath, attr.storageId]).toList, attr.filePath.toList] table.toList
  obtain ⟨p', l', hstruct⟩ := exists_siblings
    [(pathJoin [drivePath, attr.storageId]).toList, attr.filePath.toList] key.toList
  obtain ⟨hn, hpath⟩ := hdata "-data.sql".toList rfl (by decide)
  obtain ⟨hn', hpath'⟩ := hstruct "-struct.sql".toList rfl (by decide)
  rw [hpath, hpath']
  intro heq
  have hnames : l ++ "-data.sql".toList = l' ++ "-struct.sql".toList :=
    congrArg Subtype.val (Path.extend_singleton_inj heq)
  have hsuffix : "-data.sql".toList <:+ l' ++ "-struct.sql".toList := hnames ▸ List.suffix_append _ _
  have hshort := List.suffix_of_suffix_length_le hsuffix (List.suffix_append _ _) (by decide)
  revert hshort
  decide

section Write

attribute [local irreducible] location

theorem textAt_writeStructs {structs : List (String × Bytes)}
    (hq : ∀ key, q ≠ location (attr.structFile drivePath key))
    (h : writeStructs drivePath attr structs fs = some fs') : textAt fs' q = textAt fs q := by
  unfold writeStructs at h
  induction structs generalizing fs with
  | nil =>
    obtain rfl := Option.some.inj h
    rfl
  | cons s structs ih =>
    rw [List.foldlM_cons] at h
    obtain ⟨fs₁, hopen, hrest⟩ := Option.bind_eq_some_iff.mp h
    rw [ih hrest, textAt_openFile hopen, if_neg (hq s.1)]

/-- A page is appended to the file of the table, and changes no other file. -/
theorem textAt_writePage {currentPage : Nat}
    (h : writePage db drivePath attr table fs currentPage = some fs') (q : Path) :
    textAt fs' q = textAt fs q ++
      if q = location (attr.dataFile drivePath table) then pageText db table currentPage else [] := by
  obtain ⟨dataRows, hpage, h⟩ := Option.bind_eq_some_iff.mp h
  obtain ⟨jsonResult, hresult, hopen⟩ := Option.bind_eq_some_iff.mp h
  have htext : pageText db table currentPage = jsonResult := by
    unfold pageText
    rw [hpage, Option.bind_some, hresult]
    rfl
  rw [textAt_openFile hopen, htext]
  split
  next heq =>
    rw [heq]
    rfl
  next => rw [List.append_nil]

theorem textAt_writePages {pages : List Nat}
    (h : pages.foldlM (writePage db drivePath attr table) fs = some fs') (q : Path) :
    textAt fs' q = textAt fs q ++
      if q = location (attr.dataFile drivePath table) then pages.flatMap (pageText db table)
      else [] := by
  induction pages generalizing fs with
  | nil =>
    obtain rfl := Option.some.inj h
    rw [List.flatMap_nil, ite_self, List.append_nil]
  | cons k pages ih =>
    rw [List.foldlM_cons] at h
    obtain ⟨fs₁, hpage, hrest⟩ := Option.bind_eq_some_iff.mp h
    rw [ih hrest, textAt_writePage hpage, List.append_assoc, List.flatMap_cons]
    congr 1
    split <;> rfl

theorem textAt_writeData (h : writeData db drivePath attr table fs = some fs') (q : Path) :
    textAt fs' q = textAt fs q ++
      if q = location (attr.dataFile drivePath table) then dataText db table else [] := by
  obtain ⟨totalRows, hcount, hpages⟩ := Option.bind_eq_some_iff.mp h
  unfold dataText
  rw [textAt_writePages hpages, hcount, Option.getD_some]

/-- What the tables write to a file, one after the other. -/
def tablesText (db : ExportDb) (drivePath : String) (attr : TransferAttr) (tables : List String)
    (q : Path) : Bytes :=
  tables.flatMap fun table =>
    if q = location (attr.dataFile drivePath table) then dataText db table else []

theorem textAt_tables {tables : List String}
    (hq : ∀ key, q ≠ location (attr.structFile drivePath key))
    (h : tables.foldlM (fun fs table => (db.showCreate table).bind fun structs =>
      (writeStructs drivePath attr structs fs).bind (writeData db drivePath attr table)) fs = some fs') :
    textAt fs' q = textAt fs q ++ tablesText db drivePath attr tables q := by
  induction tables generalizing fs with
  | nil =>
    obtain rfl := Option.some.inj h
    rw [tablesText, List.flatMap_nil, List.append_nil]
  | cons table tables ih =>
    rw [List.foldlM_cons] at h
    obtain ⟨fs₁, hround, hrest⟩ := Option.bind_eq_some_iff.mp h
    obtain ⟨structs, -, hround⟩ := Option.bind_eq_some_iff.mp hround
    obtain ⟨fs₂, hstructs, hdata⟩ := Option.bind_eq_some_iff.mp hround
    rw [ih hrest, textAt_writeData hdata, textAt_writeStructs hq hstructs, List.append_assoc]
    rfl

theorem textAt_structs {tables : List String}
    (hq : ∀ key, q ≠ location (attr.structFile drivePath key))
    (h : tables.foldlM (fun fs table => (db.showCreate table).bind fun structs =>
      writeStructs drivePath attr structs fs) fs = some fs') : textAt fs' q = textAt fs q := by
  induction tables generalizing fs with
  | nil =>
    obtain rfl := Option.some.inj h
    rfl
  | cons table tables ih =>
    rw [List.foldlM_cons] at h
    obtain ⟨fs₁, hround, hrest⟩ := Option.bind_eq_some_iff.mp h
    obtain ⟨structs, -, hstructs⟩ := Option.bind_eq_some_iff.mp hround
    rw [ih hrest, textAt_writeStructs hq hstructs]

/-- **What an export writes** to a file that is not that of a structure. -/
theorem textAt_writeFiles (hq : ∀ key, q ≠ location (attr.structFile drivePath key))
    (h : writeFiles db drivePath attr kind fs = some fs') :
    textAt fs' q = textAt fs q ++ tablesText db drivePath attr (kind.dataTables db) q := by
  cases kind with
  | databaseOnlyStruct =>
    obtain ⟨tables, -, h⟩ := Option.bind_eq_some_iff.mp h
    rw [textAt_structs hq h]
    exact (List.append_nil _).symm
  | databaseStructData =>
    obtain ⟨tables, htables, h⟩ := Option.bind_eq_some_iff.mp h
    rw [textAt_tables hq h, ExportKind.dataTables, htables, Option.getD_some]
  | tableOnlyStruct =>
    obtain ⟨structs, -, h⟩ := Option.bind_eq_some_iff.mp h
    rw [textAt_writeStructs hq h]
    exact (List.append_nil _).symm
  | tableStructData table =>
    obtain ⟨structs, -, h⟩ := Option.bind_eq_some_iff.mp h
    obtain ⟨fs₁, hstructs, hdata⟩ := Option.bind_eq_some_iff.mp h
    rw [textAt_writeData hdata, textAt_writeStructs hq hstructs, ExportKind.dataTables, tablesText,
      List.flatMap_singleton]

/-- What the archive has of a file: its text, if the file is in the directory. -/
theorem packedText_zipDir {source target : Path} {zipped : FileSystem Bytes × List (Path × Bytes)}
    (h : zipDir pack source target fs = some zipped) (q : Path) :
    packedText zipped.2 q = if q ≠ target ∧ source.Within q then textAt fs q else [] := by
  obtain ⟨fs₁, hcreate, h⟩ := Option.bind_eq_some_iff.mp h
  obtain ⟨fs₂, -, rfl⟩ := Option.map_eq_some_iff.mp h
  have hmem (c : Bytes) : (q, c) ∈ ((fs₁.walk source).map fun f => (f.path, f.content)).filter
      (fun f => decide (f.1 ≠ target)) ↔ q ≠ target ∧ source.Within q ∧ fs.contentAt q = some c := by
    rw [List.mem_filter, FileSystem.mem_map_walk, decide_eq_true_eq, and_comm,
      FileSystem.contentAt_openFile hcreate]
    refine and_congr_right fun hne => ?_
    rw [if_neg hne]
  unfold packedText
  dsimp only
  cases hfind : (((fs₁.walk source).map fun f => (f.path, f.content)).filter
      fun f => decide (f.1 ≠ target)).find? fun f => decide (f.1 = q) with
  | some f =>
    have hprop := List.find?_some hfind
    obtain rfl : f.1 = q := of_decide_eq_true hprop
    obtain ⟨hne, hwithin, hcontent⟩ := (hmem f.2).mp (List.mem_of_find?_eq_some hfind)
    rw [if_pos ⟨hne, hwithin⟩, textAt, hcontent]
    rfl
  | none =>
    split
    next hq =>
      unfold textAt
      cases hcontent : fs.contentAt q with
      | none => rfl
      | some c =>
        have hnone := List.find?_eq_none.mp hfind (q, c) ((hmem c).mpr ⟨hq.1, hq.2, hcontent⟩)
        exact absurd (decide_eq_true rfl) hnone
    next => rfl

/-- The text of a data file in the archive. -/
theorem packedText_exportArchive {result : FileSystem Bytes × List (Path × Bytes)}
    (h : exportArchive pack db drivePath attr kind fs = some result) (table : String) :
    packedText result.2 (location (attr.dataFile drivePath table)) =
      if location (attr.dataFile drivePath table) ≠ location (attr.targetZip drivePath) ∧
          (location (attr.targetDir drivePath)).Within (location (attr.dataFile drivePath table)) then
        textAt fs (location (attr.dataFile drivePath table)) ++
          tablesText db drivePath attr (kind.dataTables db) (location (attr.dataFile drivePath table))
      else [] := by
  obtain ⟨fs₁, hdir, h⟩ := Option.bind_eq_some_iff.mp h
  obtain ⟨fs₂, hfiles, h⟩ := Option.bind_eq_some_iff.mp h
  obtain ⟨zipped, hzip, h⟩ := Option.bind_eq_some_iff.mp h
  obtain ⟨fs₃, -, rfl⟩ := Option.map_eq_some_iff.mp h
  have hstruct := fun key => dataFile_ne_structFile attr drivePath table key
  dsimp only
  rw [packedText_zipDir hzip, textAt_writeFiles hstruct hfiles]
  have hold : textAt fs₁ (location (attr.dataFile drivePath table)) =
      textAt fs (location (attr.dataFile drivePath table)) := by
    unfold textAt
    rw [contentAt_ensureDir hdir]
  rw [hold]

/-- The visible bytes that a table has to write to a file. -/
def fileCost (drivePath : String) (attr : TransferAttr) (content : String → TableRows) (q : Path)
    (t : String) : Nat :=
  if q = location (attr.dataFile drivePath t) then (((content t).statements t).map visible).sum else 0

theorem visible_tablesText {content : String → TableRows} {tables : List String}
    (hpages : ∀ t ∈ tables, PagesPart db t (content t)) (q : Path) :
    visible (tablesText db drivePath attr tables q) =
      (tables.map (fileCost drivePath attr content q)).sum := by
  induction tables with
  | nil => rfl
  | cons t tables ih =>
    obtain ⟨ht, htables⟩ := List.forall_mem_cons.mp hpages
    have hrest := ih htables
    unfold tablesText at hrest ⊢
    rw [List.flatMap_cons, visible_append, hrest, List.map_cons, List.sum_cons]
    congr 1
    unfold fileCost
    split
    · exact visible_rowsOnce (rowsOnce_dataText ht)
    · rfl

/-- When no two tables with rows share a file, a file has the text of its table alone. -/
theorem tablesText_of_apart {content : String → TableRows} {tables : List String}
    (hpages : ∀ t ∈ tables, PagesPart db t (content t))
    (hapart : tables.Pairwise fun t u =>
      location (attr.dataFile drivePath t) = location (attr.dataFile drivePath u) →
        (content t).rows = [] ∧ (content u).rows = []) (ht : table ∈ tables) :
    tablesText db drivePath attr tables (location (attr.dataFile drivePath table)) =
      dataText db table := by
  obtain ⟨before, after, rfl⟩ := List.append_of_mem ht
  obtain ⟨-, hafter, hcross⟩ := List.pairwise_append.mp hapart
  have hnil (u : String) (hu : u ∈ before ∨ u ∈ after) :
      (if location (attr.dataFile drivePath table) = location (attr.dataFile drivePath u) then
        dataText db u else []) = [] := by
    split
    next heq =>
      rcases hu with hu | hu
      · have hempty := hcross u hu table List.mem_cons_self heq.symm
        exact dataText_eq_nil (hpages u (List.mem_append_left _ hu)) hempty.1
      · have hempty := (List.pairwise_cons.mp hafter).1 u hu heq
        exact dataText_eq_nil (hpages u (List.mem_append_right _ (List.mem_cons_of_mem _ hu))) hempty.2
    next => rfl
  unfold tablesText
  rw [List.flatMap_append, List.flatMap_cons, if_pos rfl,
    List.flatMap_eq_nil_iff.mpr fun u hu => hnil u (.inl hu),
    List.flatMap_eq_nil_iff.mpr fun u hu => hnil u (.inr hu), List.nil_append, List.append_nil]

/-- The data files in the archive have one statement for each row exactly when they go to the archive,
were blank before, and no two tables with rows share one. -/
theorem rowsOnce_iff (pack : List (List Char × Bytes) → Bytes) (db : ExportDb) (drivePath : String)
    (attr : TransferAttr) (kind : ExportKind) (fs : FileSystem Bytes) (content : String → TableRows)
    (result : FileSystem Bytes × List (Path × Bytes))
    (hpages : ∀ t ∈ kind.dataTables db, PagesPart db t (content t))
    (h : exportArchive pack db drivePath attr kind fs = some result) :
    (∀ t ∈ kind.dataTables db,
        RowsOnce (packedText result.2 (location (attr.dataFile drivePath t)))
          ((content t).statements t)) ↔
      Fresh fs (location (attr.targetDir drivePath)) (location (attr.targetZip drivePath))
        (fun t => location (attr.dataFile drivePath t)) content (kind.dataTables db) := by
  constructor
  · intro hrows
    have hvisible := fun t ht => visible_rowsOnce (hrows t ht)
    have hpacked : ∀ t ∈ kind.dataTables db, (content t).rows ≠ [] →
        location (attr.dataFile drivePath t) ≠ location (attr.targetZip drivePath) ∧
          (location (attr.targetDir drivePath)).Within (location (attr.dataFile drivePath t)) := by
      intro t ht hne
      by_contra hout
      have hsum := hvisible t ht
      rw [packedText_exportArchive h, if_neg hout] at hsum
      exact hne (visible_statements_eq_zero.mp hsum.symm)
    have hsum : ∀ t ∈ kind.dataTables db,
        location (attr.dataFile drivePath t) ≠ location (attr.targetZip drivePath) →
          (location (attr.targetDir drivePath)).Within (location (attr.dataFile drivePath t)) →
            visible (textAt fs (location (attr.dataFile drivePath t))) +
                ((kind.dataTables db).map (fileCost drivePath attr content
                  (location (attr.dataFile drivePath t)))).sum =
              (((content t).statements t).map visible).sum := by
      intro t ht hne hwithin
      rw [← hvisible t ht, packedText_exportArchive h, if_pos ⟨hne, hwithin⟩, visible_append,
        visible_tablesText hpages]
    have hcost (t u : String)
        (heq : location (attr.dataFile drivePath t) = location (attr.dataFile drivePath u)) :
        fileCost drivePath attr content (location (attr.dataFile drivePath t)) u =
          (((content u).statements u).map visible).sum := if_pos heq
    refine ⟨fun t ht hne hwithin => ?_, hpacked, ?_⟩
    · have htotal := hsum t ht hne hwithin
      have hself := List.single_le_sum (fun _ _ => Nat.zero_le _)
        (fileCost drivePath attr content (location (attr.dataFile drivePath t)) t)
        (List.mem_map_of_mem ht)
      rw [hcost t t rfl] at hself
      exact visible_eq_zero.mp (by omega)
    · refine List.pairwise_iff_forall_sublist.mpr fun {t u} hsub heq => ?_
      have ht : t ∈ kind.dataTables db := hsub.subset List.mem_cons_self
      have hu : u ∈ kind.dataTables db := hsub.subset (List.mem_cons_of_mem _ List.mem_cons_self)
      by_contra hnot
      have hsome : (content t).rows ≠ [] ∨ (content u).rows ≠ [] := by
        by_cases hrow : (content t).rows = []
        · exact .inr fun hrow' => hnot ⟨hrow, hrow'⟩
        · exact .inl hrow
      have hfile : location (attr.dataFile drivePath t) ≠ location (attr.targetZip drivePath) ∧
          (location (attr.targetDir drivePath)).Within (location (attr.dataFile drivePath t)) := by
        rcases hsome with hrow | hrow
        · exact hpacked t ht hrow
        · rw [heq]
          exact hpacked u hu hrow
      have htotal := hsum t ht hfile.1 hfile.2
      have hother := hsum u hu
      rw [← heq] at hother
      have htotal' := hother hfile.1 hfile.2
      have hpair := (hsub.map (fileCost drivePath attr content
        (location (attr.dataFile drivePath t)))).sum_le_sum fun _ _ => Nat.zero_le _
      rw [List.map_cons, List.map_singleton, List.sum_cons, List.sum_singleton, hcost t t rfl,
        hcost t u heq] at hpair
      have hzero : (((content t).statements t).map visible).sum = 0 := by omega
      have hzero' : (((content u).statements u).map visible).sum = 0 := by omega
      exact hnot ⟨visible_statements_eq_zero.mp hzero, visible_statements_eq_zero.mp hzero'⟩
  · intro hfresh t ht
    rw [packedText_exportArchive h]
    split
    next hfile =>
      rw [tablesText_of_apart hpages hfresh.apart ht]
      obtain ⟨written, hperm, hscript⟩ := rowsOnce_dataText (hpages t ht)
      exact ⟨written, hperm, script_blank_append (hfresh.blank t ht hfile.1 hfile.2) hscript⟩
    next hfile =>
      have hempty : (content t).rows = [] := by
        by_contra hrow
        exact hfile (hfresh.packed t ht hrow)
      refine ⟨[], ?_, blank_nil⟩
      unfold TableRows.statements
      rw [hempty]
      exact List.Perm.refl []

end Write

/-! ## A table with one row -/

def oneRow : TableRows := { columns := [ascii "a"], rows := [[.null]] }

def oneRowDb : ExportDb where
  tables := some ["t"]
  struct := none
  showCreate table := some [(table, ascii "CREATE TABLE t (a int)")]
  count _ := some 1
  page _ _ _ := some (.ok [ascii "a"], [.ok [.null]])

def dailyAttr : TransferAttr := { storageId := "u1", filePath := "/export/1/", fileName := "a.zip" }

theorem oneRowDb_pages (table : String) : PagesPart oneRowDb table oneRow := by
  refine ⟨rfl, [[[.null]]], by decide, List.Perm.refl _, fun k part hk => ?_⟩
  cases k with
  | zero =>
    obtain rfl := Option.some.inj hk
    rfl
  | succ k => cases hk

/-- An export to a new directory. -/
theorem rowsOnce_iff_oneRow :
    (∀ t ∈ ExportKind.databaseStructData.dataTables oneRowDb,
        RowsOnce (packedText ((exportArchive (fun _ => []) oneRowDb "/drive" dailyAttr
            .databaseStructData (driveWith [("/drive/u1/export/b.zip", [])])).get
              (by decide)).2 (location (dailyAttr.dataFile "/drive" t)))
          (oneRow.statements t)) ↔
      Fresh (driveWith [("/drive/u1/export/b.zip", [])]) (location (dailyAttr.targetDir "/drive"))
        (location (dailyAttr.targetZip "/drive")) (fun t => location (dailyAttr.dataFile "/drive" t))
        (fun _ => oneRow) (ExportKind.databaseStructData.dataTables oneRowDb) :=
  rowsOnce_iff _ _ _ _ _ _ _ _ (fun t _ => oneRowDb_pages t) (Option.some_get _).symm

/-- An export to the directory of an earlier one writes the rows again. -/
theorem not_rowsOnce_again : ¬ ∀ (pack : List (List Char × Bytes) → Bytes) (db : ExportDb)
    (drivePath : String) (attr : TransferAttr) (kind : ExportKind) (fs : FileSystem Bytes)
    (content : String → TableRows) (result : FileSystem Bytes × List (Path × Bytes)),
      (∀ t ∈ kind.dataTables db, PagesPart db t (content t)) →
        exportArchive pack db drivePath attr kind fs = some result →
          ∀ t ∈ kind.dataTables db,
            RowsOnce (packedText result.2 (location (attr.dataFile drivePath t)))
              ((content t).statements t) := by
  intro h
  have hrows := h (fun _ => []) oneRowDb "/drive" dailyAttr .databaseStructData
    (driveWith [("/drive/u1/export/b.zip", []),
      ("/drive/u1/export/1/t-data.sql", ascii "INSERT INTO `t`  (a) VALUES (NULL);")])
    (fun _ => oneRow) _ (fun t _ => oneRowDb_pages t) (Option.some_get (by decide)).symm "t"
    List.mem_cons_self
  have hvisible := visible_rowsOnce hrows
  revert hvisible
  decide

end Export

/-! ## INSERT statements of an export

The statements have no escapes, so they are read back exactly when nothing in them needs any.
-/

section Inserts

variable {reserved : Bytes → Bool} {tableName : Bytes} {columns : List Bytes}
  {values : List SqlValue}

theorem SqlValue.rowValue_eq (v : SqlValue) : v.rowValue = valueText v.denotes := by
  cases v <;> rfl

theorem joinBytes_rowValue (values : List SqlValue) :
    joinBytes (values.map SqlValue.rowValue) (ascii ", ") =
      commaText valueText (values.map SqlValue.denotes) := by
  rw [commaText, List.map_map, List.map_congr_left fun v _ => SqlValue.rowValue_eq v]
  rfl

/-- The statement has the name of its table between backticks, and everything else as it is. -/
theorem insertStatement_eq (tableName : Bytes) (columns : List Bytes) (values : List SqlValue) :
    insertStatement (tableFormat tableName) columns values =
      insertText { table := tableName, columns, values := values.map SqlValue.denotes } := by
  have hcolumns : joinBytes columns (ascii ", ") = commaText id columns := by
    rw [commaText, List.map_id]
    rfl
  unfold insertStatement tableFormat insertText
  rw [joinBytes_rowValue, hcolumns]
  simp only [List.append_assoc]
  rfl

/-- The statement of a row inserts the row exactly when the name of the table has no backtick, the
columns are words and not reserved, and the values have neither quotes nor escapes. -/
theorem insertsRow_iff (reserved : Bytes → Bool) (tableName : Bytes) (columns : List Bytes)
    (values : List SqlValue) :
    InsertsRow reserved tableName columns values ↔
      isPlain backtick noEscape tableName = true ∧ (∀ w ∈ columns, IsWord reserved w) ∧
        ∀ v ∈ values, PlainValue v.denotes := by
  rw [InsertsRow, insertStatement_eq, parseInsert_insertText_iff]
  exact and_congr_right fun _ => and_congr_right fun _ => List.forall_mem_map

/-- A quote ends the literal. -/
theorem not_insertsRow_quote : ¬ ∀ (reserved : Bytes → Bool) (tableName : Bytes)
    (columns : List Bytes) (values : List SqlValue), InsertsRow reserved tableName columns values := by
  intro h
  have hrow : InsertsRow _ _ _ _ := h (fun _ => false) (ascii "t") [ascii "a"] [.bytes (ascii "it's")]
  rw [InsertsRow, insertStatement_eq, parseInsert_insertText_iff] at hrow
  have hvalue := hrow.2.2 _ List.mem_cons_self (ascii "it's") rfl
  revert hvalue
  decide

end Inserts

end NextDBM
