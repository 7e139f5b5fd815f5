import Mathlib.Data.Prod.Lex
import NextDBM.Library.FilePaths
import NextDBM.Library.Tables

/-!
# A file system

Files with their contents under clean paths, and the directories that were made. A directory exists
when it was made, when something lies below it, or when its path has no names. A file keeps its number
when it is renamed or overwritten, so that one who has opened it writes to the same file; who writes to
a file that is deleted writes to no file of the table.

`walk` visits files in the order of their names, level by level, which is the lexical order of the
paths.
-/

namespace FilePath

open Relational

/-- The directory that a file with the path is in. -/
def Path.dir : Path → Path
  | .abs ns => .abs ns.dropLast
  | .rel up [] => .rel (up - 1) []
  | .rel up (n :: ns) => .rel up (n :: ns).dropLast

/-- Absolute paths before relative ones, and then by the names. -/
def Path.rank : Path → Lex (Nat × List Name)
  | .abs ns => toLex (0, ns)
  | .rel up ns => toLex (up + 1, ns)

theorem Path.rank_injective : Function.Injective Path.rank := by
  intro p q h
  have hpair := congrArg ofLex h
  cases p with
  | abs ns =>
    cases q with
    | abs ms => exact congrArg Path.abs (Prod.mk.inj hpair).2
    | rel up ms => exact absurd (Prod.mk.inj hpair).1 (Nat.succ_ne_zero up).symm
  | rel up ns =>
    cases q with
    | abs ms => exact absurd (Prod.mk.inj hpair).1 (Nat.succ_ne_zero up)
    | rel up' ms =>
      obtain ⟨hup, rfl⟩ := Prod.mk.inj hpair
      rw [Nat.succ.inj hup]

instance : LinearOrder Path := LinearOrder.lift' Path.rank Path.rank_injective

/-- The files of a directory are in the order of their names. -/
theorem Path.extend_lt_extend {n m : Name} (p : Path) (h : n.val < m.val) :
    p.extend [n] < p.extend [m] := by
  have hnames (ns : List Name) : ns ++ [n] < ns ++ [m] :=
    List.append_left_lt (List.cons_lt_cons_iff.mpr (.inl h))
  cases p with
  | abs ns => exact Prod.Lex.toLex_lt_toLex.mpr (.inr ⟨rfl, hnames ns⟩)
  | rel up ns => exact Prod.Lex.toLex_lt_toLex.mpr (.inr ⟨rfl, hnames ns⟩)

/-- A file. -/
structure File (α : Type*) where
  path : Path
  number : Nat
  content : α

/-- The files, the directories that were made, and the number of the next new file. -/
structure FileSystem (α : Type*) where
  files : Table (File α) File.path := ∅
  dirs : List Path := []
  next : Nat := 0

namespace FileSystem

variable {α : Type*} (fs : FileSystem α) (p : Path)

def fileAt : Option (File α) := fs.files.findById p

def contentAt : Option α := (fs.fileAt p).map File.content

def isDir : Bool :=
  p.names.isEmpty || fs.dirs.any (fun d => decide (p.Within d)) ||
    fs.files.rows.any fun f => decide (p.Within f.path) && decide (f.path ≠ p)

def exists? : Bool := (fs.fileAt p).isSome || fs.isDir p

/-- A file stands at the path, or above it. -/
def isBlocked : Bool := fs.files.rows.any fun f => decide (f.path.Within p)

/-- Make a directory and those above it. -/
def mkdirAll : Option (FileSystem α) :=
  if fs.isBlocked p then none else some { fs with dirs := p :: fs.dirs }

/-- A file can be opened for writing at the path: its directory is there, and it is none itself. -/
def opens : Bool := !fs.isDir p && fs.isDir p.dir && !fs.isBlocked p.dir

/-- Open a file for writing, a new one if there is none, and write what `g` makes of the content. -/
def openFile (g : Option α → α) : Option (FileSystem α) :=
  if fs.opens p then
    match fs.fileAt p with
    | some f => some { fs with files := fs.files.put { f with content := g (some f.content) } }
    | none =>
      some { fs with
        files := fs.files.put { path := p, number := fs.next, content := g none }
        next := fs.next + 1 }
  else none

/-- Write to an open file. -/
def write (number : Nat) (g : α → α) : FileSystem α :=
  { fs with
    files := fs.files.modify
      (fun f => if f.number = number then { f with content := g f.content } else f) fun f => by
        split <;> rfl }

/-- Delete a file, or a directory with all that is in it. -/
def removeAll : FileSystem α :=
  { fs with
    files := fs.files.deleteWhere fun f => decide (p.Within f.path)
    dirs := fs.dirs.filter fun d => !decide (p.Within d) }

/-- The path of a file below `p` when `p` gets the path `q`. -/
def rebase (q : Path) (f : File α) : File α :=
  { f with path := q.extend (f.path.names.drop p.names.length) }

/-- Rename a file, in place of the one with the new path, or a directory. -/
def rename (q : Path) : Option (FileSystem α) :=
  if fs.isDir q || !fs.isDir q.dir || fs.isBlocked q.dir then none
  else match fs.fileAt p with
    | some f =>
      some { fs with files := (fs.files.deleteWhere fun f => decide (f.path = p)).put { f with path := q } }
    | none =>
      if fs.isDir p && !decide (p.Within q) && (fs.fileAt q).isNone then
        some { fs with
          files := ((fs.files.rows.filter fun f => decide (p.Within f.path)).map (rebase p q)).foldl
            Table.put (fs.removeAll p).files
          dirs := (fs.removeAll p).dirs ++ ((fs.dirs.filter fun d => decide (p.Within d)).map fun d =>
            q.extend (d.names.drop p.names.length)) }
      else none

/-- The files in a directory, or the file itself, in lexical order. -/
def walk : List (File α) := fs.files.sorted.filter fun f => decide (p.Within f.path)

variable {fs p} {fs' : FileSystem α} {f : File α} {g : Option α → α} {q : Path}

theorem fileAt_eq_some : fs.fileAt p = some f ↔ f ∈ fs.files ∧ f.path = p := Table.findById_eq_some

theorem mem_walk : f ∈ fs.walk p ↔ f ∈ fs.files ∧ p.Within f.path := by
  rw [walk, List.mem_filter, Table.mem_sorted, decide_eq_true_eq]

theorem pairwise_walk (fs : FileSystem α) (p : Path) :
    (fs.walk p).Pairwise fun f g => f.path ≤ g.path :=
  (Table.pairwise_sorted fs.files).filter _

/-- No path comes twice in a walk. -/
theorem nodup_walk (fs : FileSystem α) (p : Path) : ((fs.walk p).map File.path).Nodup := by
  have hsorted : (fs.files.sorted.map File.path).Nodup :=
    ((List.perm_insertionSort _ fs.files.rows).map File.path).nodup_iff.mpr fs.files.nodup
  exact hsorted.sublist (List.filter_sublist.map File.path)

theorem mkdirAll_eq_some (h : fs.mkdirAll p = some fs') :
    fs.isBlocked p = false ∧ fs' = { fs with dirs := p :: fs.dirs } := by
  unfold mkdirAll at h
  split at h
  · cases h
  · next hblocked => exact ⟨Bool.eq_false_iff.mpr hblocked, (Option.some.inj h).symm⟩

/-- What is written to an opened file, and that the other files stay. -/
theorem mem_openFile (h : fs.openFile p g = some fs') :
    f ∈ fs'.files ↔ (f.path = p ∧ f.content = g ((fs.fileAt p).map File.content) ∧
      f.number = ((fs.fileAt p).map File.number).getD fs.next) ∨ f ∈ fs.files ∧ f.path ≠ p := by
  unfold openFile at h
  split at h
  · cases hfile : fs.fileAt p with
    | some f₀ =>
      rw [hfile] at h
      obtain rfl := Option.some.inj h
      obtain ⟨-, rfl⟩ := fileAt_eq_some.mp hfile
      show f ∈ fs.files.put _ ↔ _
      rw [Table.mem_put]
      refine or_congr ⟨?_, ?_⟩ Iff.rfl
      · rintro rfl
        exact ⟨rfl, rfl, rfl⟩
      · obtain ⟨path, number, content⟩ := f
        rintro ⟨rfl, rfl, rfl⟩
        rfl
    | none =>
      rw [hfile] at h
      obtain rfl := Option.some.inj h
      show f ∈ fs.files.put _ ↔ _
      rw [Table.mem_put]
      refine or_congr ⟨?_, ?_⟩ Iff.rfl
      · rintro rfl
        exact ⟨rfl, rfl, rfl⟩
      · obtain ⟨path, number, content⟩ := f
        rintro ⟨rfl, rfl, rfl⟩
        rfl
  · cases h

/-! ### Contents, and what stands in the way -/

theorem contentAt_eq_some {c : α} :
    fs.contentAt p = some c ↔ ∃ f ∈ fs.files, f.path = p ∧ f.content = c := by
  unfold contentAt
  rw [Option.map_eq_some_iff]
  constructor
  · rintro ⟨f, hf, hc⟩
    obtain ⟨hmem, hpath⟩ := fileAt_eq_some.mp hf
    exact ⟨f, hmem, hpath, hc⟩
  · rintro ⟨f, hmem, hpath, hc⟩
    exact ⟨f, fileAt_eq_some.mpr ⟨hmem, hpath⟩, hc⟩

theorem mem_map_walk {c : α} : (q, c) ∈ (fs.walk p).map (fun f => (f.path, f.content)) ↔
    p.Within q ∧ fs.contentAt q = some c := by
  rw [List.mem_map, contentAt_eq_some]
  constructor
  · rintro ⟨f, hf, heq⟩
    obtain ⟨rfl, rfl⟩ := Prod.mk.inj heq
    obtain ⟨hmem, hwithin⟩ := mem_walk.mp hf
    exact ⟨hwithin, f, hmem, rfl, rfl⟩
  · rintro ⟨hwithin, f, hmem, rfl, rfl⟩
    exact ⟨f, mem_walk.mpr ⟨hmem, hwithin⟩, rfl⟩

theorem isBlocked_iff : fs.isBlocked p = true ↔ ∃ f ∈ fs.files, f.path.Within p := by
  unfold isBlocked
  rw [List.any_eq_true]
  exact exists_congr fun f => and_congr Iff.rfl decide_eq_true_iff

theorem isDir_iff : fs.isDir p = true ↔
    p.names = [] ∨ (∃ d ∈ fs.dirs, p.Within d) ∨ ∃ f ∈ fs.files, p.Within f.path ∧ f.path ≠ p := by
  unfold isDir
  rw [Bool.or_eq_true, Bool.or_eq_true, List.isEmpty_iff, List.any_eq_true, List.any_eq_true, or_assoc]
  refine or_congr Iff.rfl (or_congr (exists_congr fun d => ?_) (exists_congr fun f => ?_))
  · exact and_congr Iff.rfl decide_eq_true_iff
  · rw [Bool.and_eq_true, decide_eq_true_eq, decide_eq_true_eq]
    exact Iff.rfl

theorem mkdirAll_isSome : (∃ fs', fs.mkdirAll p = some fs') ↔ fs.isBlocked p = false := by
  unfold mkdirAll
  split
  next h => simp [h]
  next h => simp [h]

theorem files_mkdirAll (h : fs.mkdirAll p = some fs') : fs'.files = fs.files := by
  obtain ⟨-, rfl⟩ := mkdirAll_eq_some h
  rfl

theorem contentAt_mkdirAll (h : fs.mkdirAll p = some fs') (q : Path) :
    fs'.contentAt q = fs.contentAt q := by
  unfold contentAt fileAt
  rw [files_mkdirAll h]

theorem isBlocked_mkdirAll (h : fs.mkdirAll p = some fs') (q : Path) :
    fs'.isBlocked q = fs.isBlocked q := by
  unfold isBlocked
  rw [files_mkdirAll h]

theorem isDir_mkdirAll (h : fs.mkdirAll p = some fs') :
    fs'.isDir q = true ↔ fs.isDir q = true ∨ q.Within p := by
  obtain ⟨-, rfl⟩ := mkdirAll_eq_some h
  rw [isDir_iff, isDir_iff]
  simp only [List.mem_cons, exists_eq_or_imp]
  rw [or_comm (b := q.Within p), or_assoc, or_left_comm]

theorem isDir_mkdirAll_eq_false (h : fs.mkdirAll p = some fs') :
    fs'.isDir q = false ↔ fs.isDir q = false ∧ ¬ q.Within p := by
  rw [← Bool.not_eq_true, isDir_mkdirAll h, not_or, Bool.not_eq_true]

theorem openFile_isSome : (∃ fs', fs.openFile p g = some fs') ↔ fs.opens p = true := by
  unfold openFile
  split
  next h =>
    rw [h]
    cases fs.fileAt p <;> simp
  next h => simp [h]

theorem exists_mem_openFile (h : fs.openFile p g = some fs') {P : Path → Prop} :
    (∃ f ∈ fs'.files, P f.path) ↔ P p ∨ ∃ f ∈ fs.files, P f.path := by
  constructor
  · rintro ⟨f, hf, hP⟩
    rcases (mem_openFile h).mp hf with ⟨rfl, -⟩ | ⟨hmem, -⟩
    · exact .inl hP
    · exact .inr ⟨f, hmem, hP⟩
  · rintro (hP | ⟨f, hf, hP⟩)
    · exact ⟨⟨p, _, _⟩, (mem_openFile h).mpr (.inl ⟨rfl, rfl, rfl⟩), hP⟩
    · by_cases hpath : f.path = p
      · exact ⟨⟨p, _, _⟩, (mem_openFile h).mpr (.inl ⟨rfl, rfl, rfl⟩), hpath ▸ hP⟩
      · exact ⟨f, (mem_openFile h).mpr (.inr ⟨hf, hpath⟩), hP⟩

theorem dirs_openFile (h : fs.openFile p g = some fs') : fs'.dirs = fs.dirs := by
  unfold openFile at h
  split at h
  · split at h
    · obtain rfl := Option.some.inj h
      rfl
    · obtain rfl := Option.some.inj h
      rfl
  · cases h

theorem isBlocked_openFile (h : fs.openFile p g = some fs') :
    fs'.isBlocked q = true ↔ fs.isBlocked q = true ∨ p.Within q := by
  rw [isBlocked_iff, isBlocked_iff, or_comm]
  exact exists_mem_openFile h (P := fun f => f.Within q)

theorem isDir_openFile (h : fs.openFile p g = some fs') :
    fs'.isDir q = true ↔ fs.isDir q = true ∨ q.Within p ∧ p ≠ q := by
  have hfiles := exists_mem_openFile h (P := fun f => q.Within f ∧ f ≠ q)
  rw [isDir_iff, isDir_iff, dirs_openFile h, hfiles, or_comm (b := q.Within p ∧ p ≠ q)]
  simp only [or_left_comm]

theorem contentAt_openFile (h : fs.openFile p g = some fs') (q : Path) :
    fs'.contentAt q = if q = p then some (g (fs.contentAt p)) else fs.contentAt q := by
  split
  next heq =>
    rw [heq, contentAt_eq_some]
    exact ⟨⟨p, _, _⟩, (mem_openFile h).mpr (.inl ⟨rfl, rfl, rfl⟩), rfl, rfl⟩
  next hne =>
    apply Option.ext
    intro c
    rw [contentAt_eq_some, contentAt_eq_some]
    constructor
    · rintro ⟨f, hf, rfl, hc⟩
      rcases (mem_openFile h).mp hf with ⟨hpath, -⟩ | ⟨hmem, -⟩
      · exact absurd hpath hne
      · exact ⟨f, hmem, rfl, hc⟩
    · rintro ⟨f, hf, rfl, hc⟩
      exact ⟨f, (mem_openFile h).mpr (.inr ⟨hf, hne⟩), rfl, hc⟩

/-- A file that is renamed leaves the other files as they are. -/
theorem contentAt_rename {f : File α} {r : Path} (hf : fs.fileAt p = some f)
    (h : fs.rename p q = some fs') (hp : r ≠ p) (hq : r ≠ q) : fs'.contentAt r = fs.contentAt r := by
  unfold rename at h
  split at h
  · cases h
  · rw [hf] at h
    obtain rfl := Option.some.inj h
    apply Option.ext
    intro c
    rw [contentAt_eq_some, contentAt_eq_some]
    refine exists_congr fun g => ?_
    have hmem : g ∈ (fs.files.deleteWhere fun f => decide (f.path = p)).put { f with path := q } ↔
        g = { f with path := q } ∨ (g ∈ fs.files ∧ g.path ≠ p) ∧ g.path ≠ q := by
      rw [Table.mem_put, Table.mem_deleteWhere, decide_eq_false_iff_not]
    constructor
    · rintro ⟨hg, rfl, hc⟩
      rcases hmem.mp hg with rfl | hold
      · exact absurd rfl hq
      · exact ⟨hold.1.1, rfl, hc⟩
    · rintro ⟨hg, rfl, hc⟩
      exact ⟨hmem.mpr (.inr ⟨⟨hg, hp⟩, hq⟩), rfl, hc⟩

theorem mem_removeAll : f ∈ (fs.removeAll p).files ↔ f ∈ fs.files ∧ ¬ p.Within f.path := by
  show f ∈ fs.files.deleteWhere _ ↔ _
  rw [Table.mem_deleteWhere, decide_eq_false_iff_not]

/-- A write to the files of one number leaves the others. -/
theorem mem_write_of_ne {number : Nat} {w : α → α} {P : Path → Prop} (hP : P f.path)
    (h : ∀ g ∈ fs.files, g.number = number → ¬ P g.path) : f ∈ (fs.write number w).files ↔ f ∈ fs.files := by
  have hmem : f ∈ (fs.write number w).files ↔
      ∃ g ∈ fs.files, (if g.number = number then { g with content := w g.content } else g) = f := by
    unfold write
    rw [Table.mem_modify]
  rw [hmem]
  constructor
  · rintro ⟨g, hg, rfl⟩
    split at hP
    next hnumber => exact absurd hP (h g hg hnumber)
    next hnumber =>
      rw [if_neg hnumber]
      exact hg
  · intro hf
    exact ⟨f, hf, if_neg fun hnumber => h f hf hnumber hP⟩

theorem mem_foldl_put_of_ne {t : Table (File α) File.path} (moved : List (File α))
    (h : ∀ g ∈ moved, f.path ≠ g.path) : f ∈ moved.foldl Table.put t ↔ f ∈ t := by
  induction moved generalizing t with
  | nil => exact Iff.rfl
  | cons g moved ih =>
    have hg := h g List.mem_cons_self
    rw [List.foldl_cons, ih fun g' hg' => h g' (List.mem_cons_of_mem g hg'), Table.mem_put]
    constructor
    · rintro (rfl | ⟨hf, -⟩)
      · exact absurd rfl hg
      · exact hf
    · exact fun hf => .inr ⟨hf, hg⟩

/-- A renaming leaves what is neither where it takes from nor where it puts. -/
theorem mem_rename_of_ne (h : fs.rename p q = some fs')
    (hfile : f.path ≠ p ∧ f.path ≠ q)
    (hdir : fs.isDir p = true → ¬ p.Within q → ¬ p.Within f.path ∧ ¬ q.Within f.path) :
    f ∈ fs'.files ↔ f ∈ fs.files := by
  unfold rename at h
  split at h
  · cases h
  · cases hat : fs.fileAt p with
    | some g =>
      rw [hat] at h
      obtain rfl := Option.some.inj h
      show f ∈ (fs.files.deleteWhere fun f => decide (f.path = p)).put { g with path := q } ↔ _
      rw [Table.mem_put, Table.mem_deleteWhere, decide_eq_false_iff_not]
      constructor
      · rintro (rfl | ⟨⟨hf, -⟩, -⟩)
        · exact absurd rfl hfile.2
        · exact hf
      · exact fun hf => .inr ⟨⟨hf, hfile.1⟩, hfile.2⟩
    | none =>
      rw [hat] at h
      simp only [Bool.and_eq_true, Bool.not_eq_true', decide_eq_false_iff_not] at h
      split at h
      · next hguard =>
        obtain ⟨⟨hisDir, hnot⟩, -⟩ := hguard
        obtain ⟨hp, hq⟩ := hdir hisDir hnot
        obtain rfl := Option.some.inj h
        have hmoved : ∀ g ∈ (fs.files.rows.filter fun f => decide (p.Within f.path)).map (rebase p q),
            f.path ≠ g.path := by
          intro g hg heq
          obtain ⟨g₀, -, rfl⟩ := List.mem_map.mp hg
          exact hq (heq ▸ Path.within_extend q _)
        show f ∈ List.foldl Table.put (fs.removeAll p).files _ ↔ _
        rw [mem_foldl_put_of_ne _ hmoved, mem_removeAll]
        exact and_iff_left hp
      · cases h

/-- What every step of a fold keeps, the fold keeps. -/
theorem foldlM_keeps {β : Type*} {P : FileSystem α → Prop} {xs : List β}
    {step : FileSystem α → β → Option (FileSystem α)}
    (hstep : ∀ fs fs' b, step fs b = some fs' → P fs → P fs') (hP : P fs)
    (h : xs.foldlM step fs = some fs') : P fs' := by
  induction xs generalizing fs with
  | nil =>
    obtain rfl := Option.some.inj h
    exact hP
  | cons x xs ih =>
    rw [List.foldlM_cons] at h
    obtain ⟨fs₁, hx, hrest⟩ := Option.bind_eq_some_iff.mp h
    exact ih (hstep fs fs₁ x hx hP) hrest

theorem fileAt_openFile (h : fs.openFile p g = some fs') : ∃ f, fs'.fileAt p = some f := by
  have hcontent := contentAt_openFile h p
  rw [if_pos rfl] at hcontent
  obtain ⟨f, hf, -⟩ := Option.map_eq_some_iff.mp hcontent
  exact ⟨f, hf⟩

end FileSystem

/-! ### Directories of paths -/

theorem Path.dir_extend (p : Path) (n : Name) : (p.extend [n]).dir = p := by
  cases p with
  | abs ns => exact congrArg Path.abs List.dropLast_concat
  | rel up ns =>
    have hdrop : (ns ++ [n]).dropLast = ns := List.dropLast_concat
    cases ns with
    | nil => rfl
    | cons m ms => exact congrArg (Path.rel up) hdrop

theorem Path.dir_extend_of_ne_nil (p : Path) {ns : List Name} (hns : ns ≠ []) :
    (p.extend ns).dir = p.extend ns.dropLast := by
  have hlast := List.dropLast_append_getLast hns
  conv => lhs; rw [← hlast, ← extend_extend]
  exact dir_extend _ _

theorem Path.within_iff_extend {p q : Path} : p.Within q ↔ ∃ ns, q = p.extend ns := by
  constructor
  · intro h
    cases p with
    | abs ns =>
      cases q with
      | abs ms =>
        obtain ⟨ls, rfl⟩ := h
        exact ⟨ls, rfl⟩
      | rel up ms => exact h.elim
    | rel up ns =>
      cases q with
      | abs ms => exact h.elim
      | rel up' ms =>
        obtain ⟨rfl, ls, rfl⟩ := h
        exact ⟨ls, rfl⟩
  · rintro ⟨ns, rfl⟩
    exact within_extend p ns

theorem Path.extend_within_extend {p : Path} {ns ms : List Name} :
    (p.extend ns).Within (p.extend ms) ↔ ns <+: ms := by
  cases p with
  | abs ls => exact List.prefix_append_right_inj ls
  | rel up ls =>
    show up = up ∧ ls ++ ns <+: ls ++ ms ↔ _
    rw [List.prefix_append_right_inj]
    exact and_iff_right rfl

theorem Path.extend_inj {p : Path} {ns ms : List Name} (h : p.extend ns = p.extend ms) : ns = ms := by
  cases p with
  | abs ls => exact List.append_cancel_left (Path.abs.inj h)
  | rel up ls => exact List.append_cancel_left (Path.rel.inj h).2

/-- Two paths that lie above a third one: one of them lies above the other. -/
theorem Path.within_or_within {p q r : Path} (hp : p.Within r) (hq : q.Within r) :
    p.Within q ∨ q.Within p := by
  cases p <;> cases q <;> cases r
  all_goals first
    | exact hp.elim
    | exact hq.elim
    | exact List.prefix_or_prefix_of_prefix hp hq
    | skip
  obtain ⟨rfl, hp⟩ := hp
  obtain ⟨rfl, hq⟩ := hq
  exact (List.prefix_or_prefix_of_prefix hp hq).imp (⟨rfl, ·⟩) (⟨rfl, ·⟩)

theorem Path.not_within_dir {p : Path} (h : p.names ≠ []) : ¬ p.Within p.dir := by
  have hlong {ns : List Name} (hne : ns ≠ []) (hpre : ns <+: ns.dropLast) : False := by
    have hle := hpre.length_le
    have hpos := List.length_pos_iff.mpr hne
    rw [List.length_dropLast] at hle
    omega
  cases p with
  | abs ns => exact hlong h
  | rel up ns =>
    cases ns with
    | nil => exact absurd rfl h
    | cons n ns => exact fun hw => hlong h hw.2

/-- What lies strictly above a path lies above its directory. -/
theorem Path.within_dir {p q : Path} (h : q.Within p) (hne : p ≠ q) : q.Within p.dir := by
  have hdrop {ns ms : List Name} (hpre : ns <+: ms) (hne : ms ≠ ns) : ns <+: ms.dropLast := by
    obtain ⟨ls, rfl⟩ := hpre
    have hls : ls ≠ [] := fun heq => hne (by rw [heq, List.append_nil])
    rw [List.dropLast_append_of_ne_nil hls]
    exact List.prefix_append ns ls.dropLast
  cases p with
  | abs ms =>
    cases q with
    | abs ns => exact hdrop h fun heq => hne (congrArg Path.abs heq)
    | rel up ns => exact h.elim
  | rel up ms =>
    cases q with
    | abs ns => exact h.elim
    | rel up' ns =>
      obtain ⟨rfl, hpre⟩ := h
      have hms : ms ≠ ns := fun heq => hne (congrArg (Path.rel up') heq)
      cases ms with
      | nil => exact absurd (List.prefix_nil.mp hpre).symm hms
      | cons m ms => exact ⟨rfl, hdrop hpre hms⟩

theorem Path.within_trans {p q r : Path} (hpq : p.Within q) (hqr : q.Within r) : p.Within r := by
  cases p <;> cases q <;> cases r
  all_goals first
    | exact hpq.elim
    | exact hqr.elim
    | exact List.IsPrefix.trans hpq hqr
    | exact ⟨hpq.1.trans hqr.1, hpq.2.trans hqr.2⟩

end FilePath
