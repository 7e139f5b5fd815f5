import NextDBM.Files.Archives

/-!
# Proofs: archives

Whether a round succeeds, and what it adds to what stands in the way of the later ones; from this,
when all rounds succeed. The content of a file after `Unzip` is that of the last entry with its path.
-/

namespace NextDBM

open FilePath MySqlText

variable {fs fs' : FileSystem Bytes} {target : String} {archive p q : Path} {e e' : ZipEntry}
  {es : List ZipEntry} {cut cut' : Bool}

namespace ZipEntry

/-- What `Fits` asks of a file system that has the target directory already. -/
def FitsIn (fs : FileSystem Bytes) (target : String) (archive : Path) (cut : Bool) (e : ZipEntry) :
    Prop :=
  (cut = true → e.isDir = true) ∧
    if e.isDir then fs.isBlocked (e.path target) = false
    else fs.isBlocked (e.path target).dir = false ∧ fs.isDir (e.path target) = false ∧
      e.data ≠ .unreadable ∧ (e.path target = archive → e.data = .bare)

theorem read_isSome {truncates : Bool} : (∃ text, e.read cut truncates = some text) ↔
    cut = false ∧ e.data ≠ .unreadable ∧ (truncates = true → e.data = .bare) := by
  unfold read
  cases e.data <;> cases cut <;> cases truncates <;> simp

theorem text_of_read {truncates : Bool} {text : Bytes} (h : e.read cut truncates = some text) :
    text = e.text := by
  unfold read at h
  unfold ZipEntry.text
  cases hdata : e.data with
  | bare =>
    rw [hdata] at h
    dsimp only at h
    split at h
    · cases h
    · exact (Option.some.inj h).symm
  | data b =>
    rw [hdata] at h
    dsimp only at h
    split at h
    · cases h
    · exact (Option.some.inj h).symm
  | unreadable =>
    rw [hdata] at h
    cases h

end ZipEntry

open ZipEntry

/-- After its directory is made, a file can be opened unless a directory has its path. -/
theorem opens_of_mkdirAll (h : fs.mkdirAll p.dir = some fs') :
    fs'.opens p = true ↔ fs.isDir p = false := by
  have hblocked : fs'.isBlocked p.dir = false := by
    rw [FileSystem.isBlocked_mkdirAll h]
    exact (FileSystem.mkdirAll_eq_some h).1
  have hdir : fs'.isDir p.dir = true := (FileSystem.isDir_mkdirAll h).mpr (.inr (Path.within_refl _))
  have hself : fs'.isDir p = true ↔ fs.isDir p = true := by
    rw [FileSystem.isDir_mkdirAll h]
    constructor
    · rintro (hp | hp)
      · exact hp
      · by_cases hnames : p.names = []
        · exact FileSystem.isDir_iff.mpr (.inl hnames)
        · exact absurd hp (Path.not_within_dir hnames)
    · exact .inl
  unfold FileSystem.opens
  rw [hblocked, hdir, Bool.and_true, Bool.not_false, Bool.and_true, Bool.not_eq_true', ← not_iff_not,
    Bool.not_eq_false, Bool.not_eq_false]
  exact hself

/-- A round on a directory. -/
theorem unzipEntry_dir (he : e.isDir = true) (h : unzipEntry target archive (fs, cut) e =
    some (fs', cut')) : fs.mkdirAll (e.path target) = some fs' ∧ cut' = cut := by
  unfold unzipEntry at h
  rw [if_pos he] at h
  obtain ⟨fs₁, hmk, heq⟩ := Option.map_eq_some_iff.mp h
  obtain ⟨rfl, rfl⟩ := Prod.mk.inj heq
  exact ⟨hmk, rfl⟩

/-- A round on a file makes its directory, reads the entry and opens the file. -/
theorem unzipEntry_steps (he : e.isDir = false) (h : unzipEntry target archive (fs, cut) e =
    some (fs', cut')) : ∃ fs₁ text, fs.mkdirAll (e.path target).dir = some fs₁ ∧
      e.read cut (decide (e.path target = archive)) = some text ∧
        (fs₁.openFile (e.path target) fun _ => text) = some fs' ∧
          cut' = (cut || decide (e.path target = archive)) := by
  unfold unzipEntry at h
  rw [if_neg (by rw [he]; exact Bool.false_ne_true)] at h
  obtain ⟨fs₁, hmk, h⟩ := Option.bind_eq_some_iff.mp h
  obtain ⟨text, hread, h⟩ := Option.bind_eq_some_iff.mp h
  obtain ⟨fs₂, hopen, heq⟩ := Option.map_eq_some_iff.mp h
  obtain ⟨rfl, rfl⟩ := Prod.mk.inj heq
  exact ⟨fs₁, text, hmk, hread, hopen, rfl⟩

theorem unzipEntry_file (he : e.isDir = false) (h : unzipEntry target archive (fs, cut) e =
    some (fs', cut')) : ∃ fs₁, fs.mkdirAll (e.path target).dir = some fs₁ ∧
      (fs₁.openFile (e.path target) fun _ => e.text) = some fs' ∧
        cut' = (cut || decide (e.path target = archive)) := by
  obtain ⟨fs₁, text, hmk, hread, hopen, hcut⟩ := unzipEntry_steps he h
  rw [text_of_read hread] at hopen
  exact ⟨fs₁, hmk, hopen, hcut⟩

theorem unzipEntry_isSome :
    (∃ s, unzipEntry target archive (fs, cut) e = some s) ↔ e.FitsIn fs target archive cut := by
  unfold FitsIn
  cases he : e.isDir with
  | true =>
    have hround : (∃ s, unzipEntry target archive (fs, cut) e = some s) ↔
        ∃ fs', fs.mkdirAll (e.path target) = some fs' := by
      unfold unzipEntry
      rw [if_pos he]
      constructor
      · rintro ⟨s, h⟩
        obtain ⟨fs', hmk, -⟩ := Option.map_eq_some_iff.mp h
        exact ⟨fs', hmk⟩
      · rintro ⟨fs', h⟩
        exact ⟨_, by rw [h]; rfl⟩
    rw [hround, FileSystem.mkdirAll_isSome, if_pos rfl]
    exact ⟨fun h => ⟨fun _ => rfl, h⟩, fun h => h.2⟩
  | false =>
    rw [if_neg Bool.false_ne_true]
    constructor
    · rintro ⟨⟨fs₂, cut'⟩, h⟩
      obtain ⟨fs₁, text, hmk, hread, hopen, -⟩ := unzipEntry_steps he h
      obtain ⟨hcut, hdata, hbare⟩ := read_isSome.mp ⟨text, hread⟩
      have hopens := (opens_of_mkdirAll hmk).mp (FileSystem.openFile_isSome.mp ⟨fs₂, hopen⟩)
      refine ⟨fun htrue => ?_, (FileSystem.mkdirAll_eq_some hmk).1, hopens, hdata, fun heq => ?_⟩
      · have hfalse : cut = false := hcut
        rw [hfalse] at htrue
        cases htrue
      · exact hbare (decide_eq_true heq)
    · rintro ⟨hcut, hblocked, hdir, hdata, hbare⟩
      obtain ⟨fs₁, hmk⟩ := FileSystem.mkdirAll_isSome.mpr hblocked
      have hcut' : cut = false := by
        cases cut with
        | false => rfl
        | true => cases hcut rfl
      obtain ⟨text, hread⟩ := read_isSome.mpr
        ⟨hcut', hdata, fun htrue => hbare (of_decide_eq_true htrue)⟩
      obtain ⟨fs₂, hopen⟩ := FileSystem.openFile_isSome (g := fun _ => text).mpr
        ((opens_of_mkdirAll hmk).mpr hdir)
      refine ⟨(fs₂, cut || decide (e.path target = archive)), ?_⟩
      unfold unzipEntry
      rw [if_neg (by rw [he]; exact Bool.false_ne_true), hmk, Option.bind_some, hread,
        Option.bind_some, hopen]
      rfl

/-- What a round leaves in the way of a later entry. -/
theorem fitsIn_unzipEntry (h : unzipEntry target archive (fs, cut) e = some (fs', cut')) :
    e'.FitsIn fs' target archive cut' ↔
      e'.FitsIn fs target archive cut ∧ e.Compatible target archive e' := by
  unfold FitsIn Compatible
  cases he : e.isDir with
  | true =>
    obtain ⟨hmk, rfl⟩ := unzipEntry_dir he h
    rw [FileSystem.isBlocked_mkdirAll hmk, FileSystem.isBlocked_mkdirAll hmk]
    cases he' : e'.isDir with
    | true => simp
    | false =>
      have hdir : fs'.isDir (e'.path target) = false ↔ fs.isDir (e'.path target) = false ∧
          ¬ (e'.path target).Within (e.path target) := by
        rw [← Bool.not_eq_true, FileSystem.isDir_mkdirAll hmk, not_or, Bool.not_eq_true]
      simp only [hdir, Bool.false_eq_true, if_false]
      constructor
      · rintro ⟨hcut, hblocked, ⟨hnot, hwithin⟩, hdata⟩
        exact ⟨⟨hcut, hblocked, hnot, hdata⟩, fun htrue => (by cases htrue), hwithin⟩
      · rintro ⟨⟨hcut, hblocked, hnot, hdata⟩, -, hwithin⟩
        exact ⟨hcut, hblocked, ⟨hnot, hwithin⟩, hdata⟩
  | false =>
    obtain ⟨fs₁, hmk, hopen, rfl⟩ := unzipEntry_file he h
    have hblocked (q : Path) : fs'.isBlocked q = false ↔ fs.isBlocked q = false ∧
        ¬ (e.path target).Within q := by
      rw [← Bool.not_eq_true, FileSystem.isBlocked_openFile hopen, not_or, Bool.not_eq_true,
        FileSystem.isBlocked_mkdirAll hmk]
    have hcut : (cut || decide (e.path target = archive)) = true ↔
        cut = true ∨ e.path target = archive := by
      rw [Bool.or_eq_true, decide_eq_true_eq]
    simp only [hblocked, hcut]
    cases he' : e'.isDir with
    | true => simp
    | false =>
      have hdir : fs'.isDir (e'.path target) = false ↔ fs.isDir (e'.path target) = false ∧
          ¬ (e'.path target).Within (e.path target).dir := by
        rw [← Bool.not_eq_true, FileSystem.isDir_openFile hopen, FileSystem.isDir_mkdirAll hmk, not_or,
          not_or, Bool.not_eq_true]
        constructor
        · rintro ⟨hnot, -⟩
          exact hnot
        · rintro ⟨hnot, hwithin⟩
          exact ⟨⟨hnot, hwithin⟩, fun hin => hwithin (Path.within_dir hin.1 hin.2)⟩
      simp only [hdir, Bool.false_eq_true, if_false]
      constructor
      · rintro ⟨hcut, ⟨hblocked, hbelow⟩, ⟨hnot, habove⟩, hdata⟩
        exact ⟨⟨fun h => hcut (.inl h), hblocked, hnot, hdata⟩, fun _ h => hcut (.inr h), hbelow, habove⟩
      · rintro ⟨⟨hcut, hblocked, hnot, hdata⟩, harchive, hbelow, habove⟩
        exact ⟨fun h => h.elim hcut (harchive trivial), ⟨hblocked, hbelow⟩, ⟨hnot, habove⟩, hdata⟩

theorem foldlM_unzipEntry_isSome :
    (∃ s, es.foldlM (unzipEntry target archive) (fs, cut) = some s) ↔
      (∀ e ∈ es, e.FitsIn fs target archive cut) ∧ es.Pairwise (ZipEntry.Compatible target archive) := by
  induction es generalizing fs cut with
  | nil => simp
  | cons e es ih =>
    rw [List.foldlM_cons, List.forall_mem_cons, List.pairwise_cons]
    constructor
    · rintro ⟨s, h⟩
      obtain ⟨⟨fs', cut'⟩, hround, hrest⟩ := Option.bind_eq_some_iff.mp h
      obtain ⟨hfits, hpair⟩ := ih.mp ⟨s, hrest⟩
      have hboth := fun e' he' => (fitsIn_unzipEntry hround).mp (hfits e' he')
      exact ⟨⟨unzipEntry_isSome.mp ⟨_, hround⟩, fun e' he' => (hboth e' he').1⟩,
        fun e' he' => (hboth e' he').2, hpair⟩
    · rintro ⟨⟨hfit, hfits⟩, hcompatible, hpair⟩
      obtain ⟨⟨fs', cut'⟩, hround⟩ := unzipEntry_isSome.mpr hfit
      have hnext := ih.mpr ⟨fun e' he' => (fitsIn_unzipEntry hround).mpr
        ⟨hfits e' he', hcompatible e' he'⟩, hpair⟩
      obtain ⟨s, hs⟩ := hnext
      exact ⟨s, by rw [hround]; exact hs⟩

theorem fitsIn_mkdirAll (h : fs.mkdirAll (location target) = some fs') :
    e.FitsIn fs' target archive false ↔ e.Fits fs target archive := by
  unfold FitsIn Fits
  rw [FileSystem.isBlocked_mkdirAll h, FileSystem.isBlocked_mkdirAll h]
  rw [FileSystem.isDir_mkdirAll_eq_false h]
  simp only [Bool.false_eq_true, false_implies, true_and, and_assoc]

/-- **When `Unzip` succeeds.** -/
theorem unzip_isSome :
    (∃ fs', unzip fs target archive es = some fs') ↔ Extractable fs target archive es := by
  constructor
  · rintro ⟨fs', h⟩
    obtain ⟨fs₁, hmk, h⟩ := Option.bind_eq_some_iff.mp h
    obtain ⟨s, hfold, -⟩ := Option.map_eq_some_iff.mp h
    obtain ⟨hfits, hpair⟩ := foldlM_unzipEntry_isSome.mp ⟨s, hfold⟩
    exact ⟨(FileSystem.mkdirAll_eq_some hmk).1, fun e he => (fitsIn_mkdirAll hmk).mp (hfits e he), hpair⟩
  · rintro ⟨htarget, hfits, hpair⟩
    obtain ⟨fs₁, hmk⟩ := FileSystem.mkdirAll_isSome.mpr htarget
    obtain ⟨s, hfold⟩ := foldlM_unzipEntry_isSome.mpr
      ⟨fun e he => (fitsIn_mkdirAll hmk).mpr (hfits e he), hpair⟩
    refine ⟨s.1, ?_⟩
    unfold unzip
    rw [hmk, Option.bind_some, hfold]
    rfl

/-! ## What is written -/

/-- The text of the last file with a path among the entries. -/
def lastText (target : String) (q : Path) (es : List ZipEntry) : Option Bytes :=
  (es.reverse.find? fun e => !e.isDir && decide (e.path target = q)).map ZipEntry.text

theorem contentAt_unzipEntry (h : unzipEntry target archive (fs, cut) e = some (fs', cut')) (q : Path) :
    fs'.contentAt q = if e.isDir = false ∧ e.path target = q then some e.text else fs.contentAt q := by
  cases he : e.isDir with
  | true =>
    obtain ⟨hmk, -⟩ := unzipEntry_dir he h
    rw [FileSystem.contentAt_mkdirAll hmk, if_neg (by simp)]
  | false =>
    obtain ⟨fs₁, hmk, hopen, -⟩ := unzipEntry_file he h
    rw [FileSystem.contentAt_openFile hopen, FileSystem.contentAt_mkdirAll hmk]
    exact if_congr (by rw [eq_comm]; simp) rfl rfl

theorem contentAt_foldlM {s : FileSystem Bytes × Bool}
    (h : es.foldlM (unzipEntry target archive) (fs, cut) = some s) (q : Path) :
    s.1.contentAt q = (lastText target q es).or (fs.contentAt q) := by
  induction es generalizing fs cut with
  | nil =>
    obtain rfl := Option.some.inj h
    rfl
  | cons e es ih =>
    rw [List.foldlM_cons] at h
    obtain ⟨⟨fs', cut'⟩, hround, hrest⟩ := Option.bind_eq_some_iff.mp h
    rw [ih hrest, contentAt_unzipEntry hround]
    unfold lastText
    rw [List.reverse_cons, List.find?_append]
    cases hlast : es.reverse.find? fun e => !e.isDir && decide (e.path target = q) with
    | some f => rfl
    | none =>
      by_cases he : e.isDir = false ∧ e.path target = q
      · rw [if_pos he]
        simp [he.1, he.2]
      · have hnot : (!e.isDir && decide (e.path target = q)) = false := by
          rw [Bool.eq_false_iff]
          intro htrue
          rw [Bool.and_eq_true, Bool.not_eq_true', decide_eq_true_eq] at htrue
          exact he htrue
        rw [if_neg he, List.find?_cons, hnot]
        rfl

/-- **What `Unzip` writes**: the files of the entries, and no other ones. -/
theorem contentAt_unzip (h : unzip fs target archive es = some fs') (q : Path) :
    fs'.contentAt q = (lastText target q es).or (fs.contentAt q) := by
  obtain ⟨fs₁, hmk, h⟩ := Option.bind_eq_some_iff.mp h
  obtain ⟨s, hfold, rfl⟩ := Option.map_eq_some_iff.mp h
  rw [contentAt_foldlM hfold, FileSystem.contentAt_mkdirAll hmk]

end NextDBM
