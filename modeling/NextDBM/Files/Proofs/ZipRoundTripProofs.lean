import Mathlib.Logic.Equiv.List
import NextDBM.Files.Export
import NextDBM.Files.Proofs.ArchivesProofs
import NextDBM.Files.Proofs.ExportProofs

/-!
# Proofs: packing a directory and unpacking it elsewhere

The name of an entry leads from any directory to the base name of the source and on to the file
(`path_zipEntry`). So the entries have different paths, none of them above another, and `Unzip` writes
each of them in a directory where nothing stands in its way.
-/

namespace NextDBM

open FilePath MySqlText

variable {fs fs' : FileSystem Bytes} {parent p target : Path} {base : Name} {names : List Name}
  {dir : String}

/-! ## The names of the entries -/

theorem relPath_extend (hparent : parent ≠ .rel 0 []) (base : Name) (names : List Name) :
    relPath (parent.extend [base]) (parent.extend (base :: names)) =
      parent.separator ++ ['/'].intercalate ((base :: names).map Subtype.val) := by
  have htext := Path.text_extend hparent (List.cons_ne_nil base names)
  rw [relPath, Path.dir_extend, htext, if_pos (List.prefix_append _ _), List.drop_left]

theorem getLast?_relPath (hparent : parent ≠ .rel 0 []) :
    (relPath (parent.extend [base]) (parent.extend (base :: names))).getLast? ≠ some '/' := by
  have hne := List.cons_ne_nil base names
  have hlast := getLast?_intercalate_names hne
  rw [relPath_extend hparent, List.getLast?_append]
  cases h : (['/'].intercalate ((base :: names).map Subtype.val)).getLast? with
  | none =>
    rw [List.getLast?_eq_none_iff] at h
    have hnames := Path.walk_names (.abs []) (.abs []) hne
    rw [h] at hnames
    cases hnames
  | some c =>
    rw [h] at hlast
    exact hlast

/-- **Where an entry leads**: to the base name of the source, and on to the file. -/
theorem path_zipEntry (hparent : parent ≠ .rel 0 []) (hdir : dir ≠ "") (c : Bytes) :
    (ZipEntry.ofFile (relPath (parent.extend [base]) (parent.extend (base :: names)), c)).path dir =
      (location dir).extend (base :: names) := by
  have hne : dir.toList ≠ [] := fun h => hdir (String.toList_eq_nil_iff.mp h)
  unfold ZipEntry.path location pathJoin ZipEntry.ofFile
  simp only [List.map_cons, List.map_nil, String.toList_ofList]
  rw [clean_join hne, List.foldl_cons, List.foldl_nil, relPath_extend hparent,
    Path.walk_names _ _ (List.cons_ne_nil base names)]

/-! ## What is packed -/

/-- An archive outside the directory packs the files of the directory. -/
theorem zipDir_eq (pack : List (List Char × Bytes) → Bytes) {source : Path}
    (houtside : ¬ source.Within target) (hcreate : fs.opens target = true) :
    ∃ fs₁ packed, zipDir pack source target fs = some (fs₁, packed) ∧
      (∀ q c, (q, c) ∈ packed ↔ source.Within q ∧ fs.contentAt q = some c) ∧
        fs₁.contentAt target = some (pack (packed.map fun f => (relPath source f.1, f.2))) := by
  obtain ⟨fs₁, hopen⟩ := FileSystem.openFile_isSome (g := fun _ => []) |>.mpr hcreate
  have hmem (q : Path) (c : Bytes) : (q, c) ∈ ((fs₁.walk source).map fun f =>
      (f.path, f.content)).filter (fun f => decide (f.1 ≠ target)) ↔
        source.Within q ∧ fs.contentAt q = some c := by
    rw [List.mem_filter, FileSystem.mem_map_walk, decide_eq_true_eq,
      FileSystem.contentAt_openFile hopen]
    constructor
    · rintro ⟨⟨hwithin, hcontent⟩, hne⟩
      rw [if_neg hne] at hcontent
      exact ⟨hwithin, hcontent⟩
    · rintro ⟨hwithin, hcontent⟩
      have hne : q ≠ target := fun heq => houtside (heq ▸ hwithin)
      rw [if_neg hne]
      exact ⟨⟨hwithin, hcontent⟩, hne⟩
  have hagain : fs₁.opens target = true := by
    unfold FileSystem.opens at hcreate ⊢
    simp only [Bool.and_eq_true, Bool.not_eq_true'] at hcreate ⊢
    obtain ⟨⟨hnot, hdir⟩, hblocked⟩ := hcreate
    have hnames : target.names ≠ [] := by
      intro h
      rw [Bool.eq_false_iff] at hnot
      exact hnot (FileSystem.isDir_iff.mpr (.inl h))
    refine ⟨⟨?_, ?_⟩, ?_⟩
    · rw [Bool.eq_false_iff]
      intro h
      rcases (FileSystem.isDir_openFile hopen).mp h with h | ⟨-, hne⟩
      · rw [hnot] at h
        cases h
      · exact hne rfl
    · exact (FileSystem.isDir_openFile hopen).mpr (.inl hdir)
    · rw [Bool.eq_false_iff]
      intro h
      rcases (FileSystem.isBlocked_openFile hopen).mp h with h | h
      · rw [hblocked] at h
        cases h
      · exact Path.not_within_dir hnames h
  have hwrite (bytes : Bytes) : ∃ fs₂, (fs₁.openFile target fun _ => bytes) = some fs₂ :=
    FileSystem.openFile_isSome.mpr hagain
  obtain ⟨fs₂, hfs₂⟩ := hwrite (pack ((((fs₁.walk source).map fun f => (f.path, f.content)).filter
    fun f => decide (f.1 ≠ target)).map fun f => (relPath source f.1, f.2)))
  refine ⟨fs₂, _, ?_, hmem, ?_⟩
  · unfold zipDir
    rw [hopen, Option.bind_some]
    dsimp only
    rw [hfs₂, Option.map_some]
  · rw [FileSystem.contentAt_openFile hfs₂, if_pos rfl]

/-! ## The files of a tree -/

theorem mem_walk_of_contentAt {source q : Path} {c : Bytes} (hq : source.Within q)
    (hc : fs.contentAt q = some c) : ∃ f ∈ fs.walk source, f.path = q := by
  obtain ⟨f, hf, rfl, -⟩ := FileSystem.contentAt_eq_some.mp hc
  exact ⟨f, FileSystem.mem_walk.mpr ⟨hf, hq⟩, rfl⟩

theorem contentAt_of_not_exists (h : fs.exists? p = false) : fs.contentAt p = none := by
  unfold FileSystem.exists? at h
  rw [Bool.or_eq_false_iff] at h
  unfold FileSystem.contentAt
  rw [Option.isSome_eq_false_iff.mp h.1 |> Option.isNone_iff_eq_none.mp]
  rfl

theorem contentAt_of_not_isBlocked (h : fs.isBlocked p = false) : fs.contentAt p = none := by
  rw [Option.eq_none_iff_forall_not_mem]
  intro c hc
  obtain ⟨f, hf, rfl, -⟩ := FileSystem.contentAt_eq_some.mp hc
  rw [Bool.eq_false_iff] at h
  exact h (FileSystem.isBlocked_iff.mpr ⟨f, hf, Path.within_refl _⟩)

namespace EmptyDirectory

variable {d : Path}

theorem contentAt (h : EmptyDirectory fs d) (names : List Name) :
    fs.contentAt (d.extend names) = none := by
  by_cases hnames : names = []
  · rw [hnames, Path.extend_nil]
    exact contentAt_of_not_isBlocked h.unblocked
  · refine contentAt_of_not_exists (h.empty _ (Path.within_extend d names) fun heq => hnames ?_)
    have hself := (Path.extend_nil d).symm
    exact Path.extend_inj (heq.trans hself)

theorem isDir (h : EmptyDirectory fs d) (hnames : names ≠ []) :
    fs.isDir (d.extend names) = false := by
  have hempty := h.empty _ (Path.within_extend d names) fun heq =>
    hnames (Path.extend_inj (heq.trans (Path.extend_nil d).symm))
  exact (Bool.or_eq_false_iff.mp hempty).2

/-- No file stands above a path in the directory. -/
theorem isBlocked (h : EmptyDirectory fs d) (names : List Name) :
    fs.isBlocked (d.extend names) = false := by
  rw [Bool.eq_false_iff]
  intro hblocked
  obtain ⟨f, hf, hwithin⟩ := FileSystem.isBlocked_iff.mp hblocked
  rcases Path.within_or_within hwithin (Path.within_extend d names) with habove | hbelow
  · have hd := h.unblocked
    rw [Bool.eq_false_iff] at hd
    exact hd (FileSystem.isBlocked_iff.mpr ⟨f, hf, habove⟩)
  · obtain ⟨ms, hms⟩ := Path.within_iff_extend.mp hbelow
    have hnone := h.contentAt ms
    rw [← hms, Option.eq_none_iff_forall_not_mem] at hnone
    exact hnone f.content (FileSystem.contentAt_eq_some.mpr ⟨f, hf, rfl, rfl⟩)

end EmptyDirectory

/-! ## The entries of a tree -/

/-- The entries of the files that were packed. -/
def zipEntries (source : Path) (packed : List (Path × Bytes)) : List ZipEntry :=
  packed.map fun f => .ofFile (relPath source f.1, f.2)

section Entries

variable {packed : List (Path × Bytes)} {archive : Path} {e e' : ZipEntry}

/-- An entry is of a file of the tree, and leads to it below the base name. -/
theorem exists_of_mem_zipEntries (hparent : parent ≠ .rel 0 []) (hdir : dir ≠ "")
    (hpacked : ∀ q c, (q, c) ∈ packed ↔ (parent.extend [base]).Within q ∧ fs.contentAt q = some c)
    (he : e ∈ zipEntries (parent.extend [base]) packed) :
    ∃ names, e.path dir = (location dir).extend (base :: names) ∧ e.isDir = false ∧
      e.data = .data e.text ∧ fs.contentAt ((parent.extend [base]).extend names) = some e.text := by
  obtain ⟨⟨q, c⟩, hf, rfl⟩ := List.mem_map.mp he
  obtain ⟨hwithin, hcontent⟩ := (hpacked q c).mp hf
  obtain ⟨names, rfl⟩ := Path.within_iff_extend.mp hwithin
  refine ⟨names, ?_, rfl, rfl, hcontent⟩
  rw [Path.extend_extend]
  exact path_zipEntry hparent hdir c

/-- An entry of a tree fits in an empty directory. -/
theorem fits_zipEntry {names : List Name} {d : Path} (hempty : EmptyDirectory fs (location dir))
    (hd : d = location dir) (hpath : e.path dir = d.extend (base :: names))
    (hfile : e.isDir = false) (hdata : e.data = .data e.text)
    (harchive : fs.contentAt archive ≠ none) : e.Fits fs dir archive := by
  subst hd
  have hne := List.cons_ne_nil base names
  unfold ZipEntry.Fits
  rw [hfile, if_neg Bool.false_ne_true, hpath, Path.dir_extend_of_ne_nil _ hne]
  refine ⟨hempty.isBlocked _, hempty.isDir hne, ?_, ?_, ?_⟩
  · intro hwithin
    have hself : ((location dir).extend (base :: names)).Within ((location dir).extend []) := by
      rwa [Path.extend_nil]
    exact hne (List.prefix_nil.mp (Path.extend_within_extend.mp hself))
  · rw [hdata]
    exact ZipData.noConfusion
  · intro heq
    exact absurd (heq ▸ hempty.contentAt (base :: names)) harchive

/-- No entry of a tree is in the way of another one. -/
theorem compatible_zipEntries {names names' : List Name} {source : Path}
    (htree : DirectoryTree fs source) {d : Path} (hpath : e.path dir = d.extend (base :: names))
    (hpath' : e'.path dir = d.extend (base :: names')) (hfile : e.isDir = false)
    (hfile' : e'.isDir = false) {c c' : Bytes}
    (hcontent : fs.contentAt (source.extend names) = some c)
    (hcontent' : fs.contentAt (source.extend names') = some c') (harchive : e.path dir ≠ archive) :
    e.Compatible dir archive e' := by
  obtain ⟨f, hf, hfpath⟩ := mem_walk_of_contentAt (Path.within_extend source names) hcontent
  obtain ⟨g, hg, hgpath⟩ := mem_walk_of_contentAt (Path.within_extend source names') hcontent'
  have hnot {f g : File Bytes} {ns ms : List Name} (hf : f ∈ fs.walk source)
      (hg : g ∈ fs.walk source) (hfpath : f.path = source.extend ns)
      (hgpath : g.path = source.extend ms) :
      ¬ (d.extend (base :: ns)).Within (d.extend (base :: ms)).dir := by
    rw [Path.dir_extend_of_ne_nil _ (List.cons_ne_nil base ms), Path.extend_within_extend]
    intro hpre
    have hbelow := (List.cons_prefix_cons.mp (hpre.trans (List.dropLast_prefix _))).2
    have hwithin : f.path.Within g.path := by
      rw [hfpath, hgpath, Path.extend_within_extend]
      exact hbelow
    have hsame := htree.leaves f hf g hg hwithin
    rw [hfpath, hgpath] at hsame
    rw [Path.extend_inj hsame] at hpre
    have hlength := hpre.length_le
    rw [List.length_dropLast, List.length_cons] at hlength
    omega
  unfold ZipEntry.Compatible
  rw [hfile, hfile', hpath, hpath']
  refine ⟨fun _ heq => absurd heq (hpath ▸ harchive), ?_, ?_⟩
  · exact hnot hf hg hfpath hgpath
  · exact hnot hg hf hgpath hfpath

/-- The last text of a path below the base name is that of the file. -/
theorem lastText_zipEntries (hparent : parent ≠ .rel 0 []) (hdir : dir ≠ "")
    (hpacked : ∀ q c, (q, c) ∈ packed ↔ (parent.extend [base]).Within q ∧ fs.contentAt q = some c)
    (names : List Name) :
    lastText dir ((location dir).extend (base :: names)) (zipEntries (parent.extend [base]) packed) =
      fs.contentAt ((parent.extend [base]).extend names) := by
  have hfound {e : ZipEntry} (he : e ∈ zipEntries (parent.extend [base]) packed)
      (hpath : e.path dir = (location dir).extend (base :: names)) :
      fs.contentAt ((parent.extend [base]).extend names) = some e.text := by
    obtain ⟨ms, hms, -, -, hcontent⟩ := exists_of_mem_zipEntries hparent hdir hpacked he
    have hnames := (List.cons.inj (Path.extend_inj (hms.symm.trans hpath))).2
    rwa [hnames] at hcontent
  unfold lastText
  cases hfind : (zipEntries (parent.extend [base]) packed).reverse.find? fun e =>
      !e.isDir && decide (e.path dir = (location dir).extend (base :: names)) with
  | some e =>
    have hprop := List.find?_some hfind
    rw [Bool.and_eq_true, decide_eq_true_eq] at hprop
    exact (hfound (List.mem_reverse.mp (List.mem_of_find?_eq_some hfind)) hprop.2).symm
  | none =>
    symm
    rw [Option.map_none, Option.eq_none_iff_forall_not_mem]
    intro c hc
    have hmem := (hpacked _ c).mpr ⟨Path.within_extend _ names, hc⟩
    have hnone := List.find?_eq_none.mp hfind _
      (List.mem_reverse.mpr (List.mem_map_of_mem hmem))
    have hpath := @path_zipEntry parent base names dir hparent hdir c
    rw [Path.extend_extend, List.singleton_append] at hnone
    refine hnone ?_
    rw [hpath, decide_eq_true rfl]
    rfl

/-- Elsewhere there is no entry. -/
theorem lastText_zipEntries_elsewhere (hparent : parent ≠ .rel 0 []) (hdir : dir ≠ "")
    (hpacked : ∀ q c, (q, c) ∈ packed ↔ (parent.extend [base]).Within q ∧ fs.contentAt q = some c)
    (hnames : names.head? ≠ some base) :
    lastText dir ((location dir).extend names) (zipEntries (parent.extend [base]) packed) = none := by
  unfold lastText
  rw [Option.map_eq_none_iff, List.find?_eq_none]
  intro e he hprop
  rw [Bool.and_eq_true, decide_eq_true_eq] at hprop
  obtain ⟨ms, hms, -⟩ :=
    exists_of_mem_zipEntries hparent hdir hpacked (List.mem_reverse.mp he)
  rw [← Path.extend_inj (hms.symm.trans hprop.2)] at hnames
  exact hnames rfl

end Entries

/-! ## The claim -/

/-- **The round trip.** -/
theorem zipDir_unzip {openReader : Bytes → Option (List ZipEntry)}
    {pack : List (List Char × Bytes) → Bytes} (hread : ReadsBack openReader pack)
    (fs : FileSystem Bytes) {parent : Path} (hparent : parent ≠ .rel 0 []) (base : Name)
    (htree : DirectoryTree fs (parent.extend [base])) {target : Path}
    (houtside : ¬ (parent.extend [base]).Within target) (hcreate : fs.opens target = true) :
    ∃ fs₁ packed, zipDir pack (parent.extend [base]) target fs = some (fs₁, packed) ∧
      ∀ (fs₂ : FileSystem Bytes) (archive : Path) (dir : String), dir ≠ "" →
        fs₂.contentAt archive = fs₁.contentAt target → EmptyDirectory fs₂ (location dir) →
          ∃ zip entries fs₃, fs₂.contentAt archive = some zip ∧ openReader zip = some entries ∧
            unzip fs₂ dir archive entries = some fs₃ ∧
              Recreates fs (parent.extend [base]) base fs₃ (location dir) := by
  obtain ⟨fs₁, packed, hzip, hpacked, hwritten⟩ := zipDir_eq pack houtside hcreate
  have hnames : ∀ f ∈ packed.map fun f => (relPath (parent.extend [base]) f.1, f.2),
      IsZipFileName f.1 := by
    intro f hf
    obtain ⟨⟨q, c⟩, hq, rfl⟩ := List.mem_map.mp hf
    obtain ⟨hwithin, hcontent⟩ := (hpacked q c).mp hq
    obtain ⟨g, hg, rfl⟩ := mem_walk_of_contentAt hwithin hcontent
    refine ⟨?_, htree.fits g hg⟩
    obtain ⟨names, hnames⟩ := Path.within_iff_extend.mp hwithin
    dsimp only
    rw [hnames, Path.extend_extend]
    exact getLast?_relPath hparent
  have hentries := hread _ hnames
  rw [List.map_map] at hentries
  refine ⟨fs₁, packed, hzip, fun fs₂ archive dir hdir hsame hempty => ?_⟩
  have harchive : fs₂.contentAt archive ≠ none := by
    rw [hsame, hwritten]
    exact Option.some_ne_none _
  have hextractable : Extractable fs₂ dir archive (zipEntries (parent.extend [base]) packed) := by
    refine ⟨hempty.unblocked, fun e he => ?_, List.pairwise_of_forall_mem_list fun e he e' he' => ?_⟩
    · obtain ⟨names, hpath, hfile, hdata, -⟩ := exists_of_mem_zipEntries hparent hdir hpacked he
      exact fits_zipEntry hempty rfl hpath hfile hdata harchive
    · obtain ⟨names, hpath, hfile, -, hcontent⟩ := exists_of_mem_zipEntries hparent hdir hpacked he
      obtain ⟨names', hpath', hfile', -, hcontent'⟩ :=
        exists_of_mem_zipEntries hparent hdir hpacked he'
      refine compatible_zipEntries htree hpath hpath' hfile hfile' hcontent hcontent' fun heq => ?_
      rw [hpath] at heq
      exact harchive (heq ▸ hempty.contentAt (base :: names))
  obtain ⟨fs₃, hunzip⟩ := unzip_isSome.mpr hextractable
  refine ⟨_, _, fs₃, hsame.trans hwritten, hentries, hunzip, ?_, ?_⟩
  · intro names
    rw [contentAt_unzip hunzip, lastText_zipEntries hparent hdir hpacked, hempty.contentAt,
      Option.or_none]
  · intro names hhead
    rw [contentAt_unzip hunzip, lastText_zipEntries_elsewhere hparent hdir hpacked hhead,
      hempty.contentAt, Option.or_none]

/-! ## A run -/

/-- An archive of one number. -/
def packNumber (files : List (List Char × Bytes)) : Bytes :=
  [Encodable.encode (files.map fun f => (f.1.map Char.toNat, f.2))]

def readNumber (bytes : Bytes) : Option (List ZipEntry) :=
  bytes.head?.bind fun n => (Encodable.decode (α := List (List Nat × List Nat)) n).map
    fun files => files.map fun f => .ofFile (f.1.map Char.ofNat, f.2)

theorem readsBack_packNumber : ReadsBack readNumber packNumber := by
  intro files _
  have hchars (name : List Char) : (name.map Char.toNat).map Char.ofNat = name := by
    rw [List.map_map]
    exact List.map_id'' Char.ofNat_toNat name
  unfold readNumber packNumber
  rw [List.head?_cons, Option.bind_some, Encodable.encodek, Option.map_some, List.map_map]
  congr 2
  funext f
  exact congrArg (fun name => ZipEntry.ofFile (name, f.2)) (hchars f.1)

/-- A file system with an archive, and a directory beside it. -/
def besides (archive : Path) (zip : Bytes) (d : Path) : FileSystem Bytes :=
  { files := Relational.Table.empty.put { path := archive, number := 0, content := zip }
    dirs := [d] }

theorem mem_besides {archive d : Path} {zip : Bytes} {f : File Bytes} :
    f ∈ (besides archive zip d).files ↔ f = { path := archive, number := 0, content := zip } := by
  show f ∈ Relational.Table.put _ _ ↔ _
  rw [Relational.Table.mem_put]
  exact or_iff_left fun h => List.not_mem_nil h.1

theorem contentAt_besides (archive : Path) (zip : Bytes) (d : Path) :
    (besides archive zip d).contentAt archive = some zip :=
  FileSystem.contentAt_eq_some.mpr ⟨_, mem_besides.mpr rfl, rfl, rfl⟩

theorem emptyDirectory_besides {archive d : Path} {zip : Bytes} (habove : ¬ d.Within archive)
    (hbelow : ¬ archive.Within d) : EmptyDirectory (besides archive zip d) d := by
  constructor
  case directory =>
    exact FileSystem.isDir_iff.mpr (.inr (.inl ⟨d, List.mem_cons_self, Path.within_refl d⟩))
  case unblocked =>
    rw [Bool.eq_false_iff]
    intro h
    obtain ⟨f, hf, hwithin⟩ := FileSystem.isBlocked_iff.mp h
    rw [mem_besides.mp hf] at hwithin
    exact hbelow hwithin
  case empty =>
    intro p hp hne
    obtain ⟨names, rfl⟩ := Path.within_iff_extend.mp hp
    have hnames : names ≠ [] := fun h => hne (by rw [h, Path.extend_nil])
    rw [FileSystem.exists?, Bool.or_eq_false_iff]
    constructor
    · rw [Option.isSome_eq_false_iff, Option.isNone_iff_eq_none, Option.eq_none_iff_forall_not_mem]
      intro f hf
      obtain ⟨hmem, hpath⟩ := FileSystem.fileAt_eq_some.mp hf
      rw [mem_besides.mp hmem] at hpath
      have harchive : archive = d.extend names := hpath
      exact habove (harchive ▸ hp)
    · rw [Bool.eq_false_iff]
      intro h
      rcases FileSystem.isDir_iff.mp h with h | ⟨q, hq, hwithin⟩ | ⟨f, hf, hwithin, -⟩
      · cases d with
        | abs ns => exact hnames (List.append_eq_nil_iff.mp h).2
        | rel up ns => exact hnames (List.append_eq_nil_iff.mp h).2
      · rw [List.mem_singleton.mp hq] at hwithin
        have hself : (d.extend names).Within (d.extend []) := by
          rwa [Path.extend_nil]
        exact hnames (List.prefix_nil.mp (Path.extend_within_extend.mp hself))
      · rw [mem_besides.mp hf] at hwithin
        exact habove (Path.within_trans hp hwithin)

/-- A tree with an empty file in a directory of its own. -/
def dumpTree : FileSystem Bytes :=
  { driveWith [("/data/b/x.sql", [1, 2]), ("/data/b/sub/.keep", [])] with
    dirs := [location "/data/b", location "/tmp"] }

theorem zipDir_unzip_dumpTree : ∃ fs₁ packed,
    zipDir packNumber (location "/data/b") (location "/tmp/b.zip") dumpTree = some (fs₁, packed) ∧
      ∃ zip entries fs₃, fs₁.contentAt (location "/tmp/b.zip") = some zip ∧
        readNumber zip = some entries ∧
          unzip (besides (location "/tmp/b.zip") zip (location "/restore")) "/restore"
            (location "/tmp/b.zip") entries = some fs₃ ∧
              fs₃.contentAt (location "/restore/b/x.sql") = some [1, 2] ∧
                fs₃.contentAt (location "/restore/b/sub/.keep") = some [] := by
  have htree : DirectoryTree dumpTree (location "/data/b") :=
    ⟨by decide +kernel, by decide +kernel, by decide +kernel, by decide +kernel⟩
  obtain ⟨fs₁, packed, hzip, hrun⟩ := @zipDir_unzip readNumber packNumber readsBack_packNumber
    dumpTree (.abs [⟨"data".toList, by decide⟩]) (by decide) ⟨"b".toList, by decide⟩ htree
    (location "/tmp/b.zip") (by decide) (by decide +kernel)
  obtain ⟨fs₁', packed', hzip', -, hwritten⟩ := @zipDir_eq dumpTree (location "/tmp/b.zip")
    packNumber (location "/data/b") (by decide) (by decide +kernel)
  obtain ⟨rfl, rfl⟩ := Prod.mk.inj (Option.some.inj (hzip.symm.trans hzip'))
  obtain ⟨zip, entries, fs₃, hsame, hread, hunzip, hfiles, -⟩ :=
    hrun (besides (location "/tmp/b.zip") _ (location "/restore")) (location "/tmp/b.zip") "/restore"
      (by decide) ((contentAt_besides _ _ _).trans hwritten.symm)
      (emptyDirectory_besides (by decide) (by decide))
  obtain rfl := Option.some.inj ((contentAt_besides _ _ _).symm.trans hsame)
  have hdump := hfiles [⟨"x.sql".toList, by decide⟩]
  have hkeep := hfiles [⟨"sub".toList, by decide⟩, ⟨".keep".toList, by decide⟩]
  refine ⟨fs₁, packed, hzip, _, entries, fs₃, hwritten, hread, hunzip, hdump.trans ?_,
    hkeep.trans ?_⟩
  · decide +kernel
  · decide +kernel

end NextDBM
