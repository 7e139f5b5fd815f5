import Mathlib.Algebra.GroupWithZero.Nat
import Mathlib.Data.List.Perm.Subperm
import NextDBM.Library.FileSystem

/-!
# Disk usage

Files of which only the sizes are known. `held` lists the files in a part of the tree by their numbers
and sizes, in no order that matters: a deletion or a renaming within the part leaves some of them, a
write changes the size of one, and an opening adds one or empties one.
-/

namespace FilePath.FileSystem

open Relational

/-- The numbers and sizes of the files with such paths. -/
def held (P : Path → Prop) [DecidablePred P] (files : List (File Nat)) : List (Nat × Nat) :=
  (files.filter fun f => decide (P f.path)).map fun f => (f.number, f.content)

def sizes (es : List (Nat × Nat)) : Nat := (es.map Prod.snd).sum

/-- The bytes in a directory, or of the file itself. -/
def usage (fs : FileSystem Nat) (d : Path) : Nat := ((fs.walk d).map File.content).sum

/-- The numbers tell the files apart, and the next one is new. -/
structure Numbered (fs : FileSystem Nat) : Prop where
  nodup : ((held (fun _ => True) fs.files.rows).map Prod.fst).Nodup
  fresh : ∀ e ∈ held (fun _ => True) fs.files.rows, e.1 < fs.next

variable {P Q : Path → Prop} [DecidablePred P] [DecidablePred Q] {fs fs' : FileSystem Nat}
  {p q d : Path} {f : File Nat} {files : List (File Nat)} {es es' : List (Nat × Nat)} {k c n : Nat}

/-! ## Lists of files -/

theorem mem_held : (k, c) ∈ held P files ↔ ∃ f ∈ files, P f.path ∧ f.number = k ∧ f.content = c := by
  unfold held
  simp only [List.mem_map, List.mem_filter, decide_eq_true_eq, Prod.mk.injEq, and_assoc]

theorem held_append (files' : List (File Nat)) :
    held P (files ++ files') = held P files ++ held P files' := by
  unfold held
  rw [List.filter_append, List.map_append]

theorem held_cons_of (h : P f.path) : held P (f :: files) = (f.number, f.content) :: held P files := by
  unfold held
  rw [List.filter_cons, if_pos (decide_eq_true h), List.map_cons]

theorem held_cons_of_not (h : ¬ P f.path) : held P (f :: files) = held P files := by
  unfold held
  rw [List.filter_cons, if_neg (by simpa using h)]

theorem held_sublist {files' : List (File Nat)} (h : files'.Sublist files) :
    (held P files').Sublist (held P files) := (h.filter _).map _

theorem held_perm {files' : List (File Nat)} (h : files'.Perm files) :
    (held P files').Perm (held P files) := (h.filter _).map _

theorem held_le_held (h : ∀ r, P r → Q r) : (held P files).Sublist (held Q files) :=
  (List.monotone_filter_right files fun f hf => by
    simp only [decide_eq_true_eq] at hf ⊢
    exact h f.path hf).map _

/-- Moving files without their numbers and sizes, into a part of the tree only from there. -/
theorem held_map_sublist {m : File Nat → File Nat}
    (hm : ∀ f, (m f).number = f.number ∧ (m f).content = f.content)
    (hP : ∀ f ∈ files, P (m f).path → P f.path) :
    (held P (files.map m)).Sublist (held P files) := by
  induction files with
  | nil => exact List.Sublist.refl _
  | cons f files ih =>
    have hrest := ih fun g hg => hP g (List.mem_cons_of_mem f hg)
    obtain ⟨hnumber, hcontent⟩ := hm f
    rw [List.map_cons]
    by_cases hf : P f.path
    · rw [held_cons_of hf]
      by_cases hmf : P (m f).path
      · rw [held_cons_of hmf, hnumber, hcontent]
        exact hrest.cons_cons _
      · rw [held_cons_of_not hmf]
        exact hrest.cons _
    · rw [held_cons_of_not hf, held_cons_of_not fun hmf => hf (hP f List.mem_cons_self hmf)]
      exact hrest

theorem sizes_cons (e : Nat × Nat) (es : List (Nat × Nat)) : sizes (e :: es) = e.2 + sizes es := rfl

theorem sizes_perm (h : es.Perm es') : sizes es = sizes es' := (h.map Prod.snd).sum_nat

theorem sizes_le_of_sublist (h : es.Sublist es') : sizes es ≤ sizes es' := by
  induction h with
  | slnil => exact le_rfl
  | cons e _ ih =>
    rw [sizes_cons]
    omega
  | cons_cons e _ ih =>
    rw [sizes_cons, sizes_cons]
    omega

theorem sizes_le_of_subperm (h : es.Subperm es') : sizes es ≤ sizes es' := by
  obtain ⟨l, hperm, hsub⟩ := h
  rw [← sizes_perm hperm]
  exact sizes_le_of_sublist hsub

theorem usage_eq : fs.usage d = sizes (held d.Within fs.files.rows) := by
  have hperm : (fs.walk d).Perm (fs.files.rows.filter fun f => decide (d.Within f.path)) :=
    (List.perm_insertionSort _ _).filter _
  unfold usage sizes held
  rw [List.map_map]
  exact (hperm.map File.content).sum_nat

/-- The bytes under a number grow by what a write may add. -/
theorem sizes_map_le {g : Nat → Nat} (hnodup : (es.map Prod.fst).Nodup)
    (hg : ∀ e ∈ es, e.1 = k → g e.2 ≤ e.2 + n) :
    sizes (es.map fun e => if e.1 = k then (e.1, g e.2) else e) ≤ sizes es + n := by
  induction es with
  | nil => exact Nat.zero_le _
  | cons e es ih =>
    obtain ⟨hnew, hnodup⟩ := List.nodup_cons.mp hnodup
    have hrest := ih hnodup fun e' he' => hg e' (List.mem_cons_of_mem e he')
    rw [List.map_cons, sizes_cons, sizes_cons]
    by_cases hk : e.1 = k
    · have hsame : (es.map fun e => if e.1 = k then (e.1, g e.2) else e) = es := by
        rw [List.map_congr_left (g := id), List.map_id]
        intro e' he'
        have hne : e'.1 ≠ k := by
          intro heq
          rw [← hk] at heq
          exact hnew (heq ▸ List.mem_map_of_mem he')
        exact if_neg hne
      have hone := hg e List.mem_cons_self hk
      rw [if_pos hk, hsame]
      show g e.2 + sizes es ≤ e.2 + sizes es + n
      omega
    · rw [if_neg hk]
      omega

/-! ## Operations -/

theorem held_removeAll : (held P (fs.removeAll p).files.rows).Sublist (held P fs.files.rows) :=
  held_sublist List.filter_sublist

/-- A row that is put adds its entry, and takes away at most that of the row at its path. -/
theorem held_put (t : Table (File Nat) File.path) (f : File Nat) :
    (held P (t.put f).rows).Sublist ((if P f.path then [(f.number, f.content)] else []) ++
      held P t.rows) := by
  have hrest : (held P (t.rows.filter fun g => !decide (g.path = f.path))).Sublist (held P t.rows) :=
    held_sublist List.filter_sublist
  show (held P (f :: t.rows.filter fun g => !decide (g.path = f.path))).Sublist _
  split
  · next hf =>
    rw [held_cons_of hf]
    exact hrest.cons_cons _
  · next hf =>
    rw [held_cons_of_not hf]
    exact hrest

/-- A row outside a part of the tree leaves it as it is. -/
theorem held_put_of_not {t : Table (File Nat) File.path} (hf : ¬ P f.path) :
    held P (t.put f).rows = held P t.rows := by
  show held P (f :: t.rows.filter fun g => !decide (g.path = f.path)) = held P t.rows
  rw [held_cons_of_not hf]
  unfold held
  rw [List.filter_filter]
  congr 1
  apply List.filter_congr
  intro g _
  by_cases hg : P g.path
  · have hne : g.path ≠ f.path := fun heq => hf (heq ▸ hg)
    simp [hg, hne]
  · simp [hg]

theorem held_foldl_put (moved : List (File Nat)) (t : Table (File Nat) File.path) :
    (held P (moved.foldl Table.put t).rows).Subperm (held P moved ++ held P t.rows) := by
  induction moved generalizing t with
  | nil => exact List.Subperm.refl _
  | cons f moved ih =>
    rw [List.foldl_cons]
    have hput := (held_put (P := P) t f).subperm
    have hone : held P (f :: moved) =
        (if P f.path then [(f.number, f.content)] else []) ++ held P moved := by
      split
      · next hf => exact held_cons_of hf
      · next hf => exact held_cons_of_not hf
    rw [hone, List.append_assoc]
    refine (ih (t.put f)).trans (((List.subperm_append_left _).mpr hput).trans ?_)
    rw [← List.append_assoc, ← List.append_assoc]
    exact (List.perm_append_comm.append_right _).subperm

/-- The files at other paths, and the one at the path. -/
theorem held_split (fs : FileSystem Nat) (h : P p) : (held P fs.files.rows).Perm
    (((fs.fileAt p).map fun f => (f.number, f.content)).toList ++
      held P (fs.files.rows.filter fun g => !decide (g.path = p))) := by
  cases hat : fs.fileAt p with
  | none =>
    have hkeep : fs.files.rows.filter (fun g => !decide (g.path = p)) = fs.files.rows := by
      refine List.filter_eq_self.mpr fun g hg => ?_
      have hne : g.path ≠ p := fun heq => by
        have hsome : fs.fileAt p = some g := fileAt_eq_some.mpr ⟨hg, heq⟩
        rw [hat] at hsome
        cases hsome
      simpa using hne
    rw [hkeep]
    exact List.Perm.refl _
  | some f =>
    obtain ⟨hf, hpath⟩ := fileAt_eq_some.mp hat
    have hone : (fs.files.rows.filter fun g => decide (g.path = p)) = [f] := by
      obtain ⟨pre, post, hrows⟩ := List.append_of_mem hf
      have hnodup := fs.files.nodup
      rw [hrows, List.map_append, List.map_cons, List.nodup_middle, List.nodup_cons,
        ← List.map_append] at hnodup
      have hother : ∀ g ∈ pre ++ post, ¬ decide (g.path = p) = true := by
        intro g hg heq
        refine hnodup.1 (List.mem_map.mpr ⟨g, hg, ?_⟩)
        exact (of_decide_eq_true heq).trans hpath.symm
      have hpre := List.filter_eq_nil_iff.mpr fun g hg => hother g (List.mem_append_left post hg)
      have hpost := List.filter_eq_nil_iff.mpr fun g hg => hother g (List.mem_append_right pre hg)
      rw [hrows, List.filter_append, hpre, List.nil_append, List.filter_cons,
        if_pos (decide_eq_true hpath), hpost]
    have hperm := held_perm (P := P)
      (List.filter_append_perm (fun g : File Nat => decide (g.path = p)) fs.files.rows)
    rw [hone, List.singleton_append, held_cons_of (hpath ▸ h)] at hperm
    exact hperm.symm

theorem rename_guard (h : fs.rename p q = some fs') :
    fs.isDir q = false ∧ fs.isBlocked q.dir = false := by
  unfold rename at h
  split at h
  · cases h
  · next hguard =>
    simp only [Bool.or_eq_true, Bool.not_eq_true', not_or, Bool.not_eq_true] at hguard
    exact ⟨hguard.1.1, hguard.2⟩

/-- What a renaming leaves in a part of the tree, when what it brings there was there before. -/
theorem held_rename (h : fs.rename p q = some fs')
    (hfile : fs.fileAt p ≠ none → P q → P p)
    (hdir : fs.fileAt p = none → fs.isDir p = true → ¬ p.Within q → ∀ r, p.Within r →
      P (q.extend (r.names.drop p.names.length)) → P r) :
    (held P fs'.files.rows).Subperm (held P fs.files.rows) ∧ fs'.next = fs.next := by
  unfold rename at h
  split at h
  · cases h
  · cases hat : fs.fileAt p with
    | some f =>
      rw [hat] at h hfile
      obtain rfl := Option.some.inj h
      refine ⟨?_, rfl⟩
      obtain ⟨hf, hpath⟩ := fileAt_eq_some.mp hat
      have hkept : (held P (fs.files.deleteWhere fun f => decide (f.path = p)).rows).Sublist
          (held P fs.files.rows) := held_sublist List.filter_sublist
      by_cases hq : P q
      · have hp : P f.path := hpath ▸ hfile (by simp) hq
        have hput := held_put (P := P) (fs.files.deleteWhere fun f => decide (f.path = p))
          { f with path := q }
        rw [if_pos hq] at hput
        have hparts := held_split fs (hpath ▸ hp)
        rw [hat] at hparts
        exact hput.subperm.trans hparts.symm.subperm
      · rw [held_put_of_not hq]
        exact hkept.subperm
    | none =>
      rw [hat] at h
      simp only [Bool.and_eq_true, Bool.not_eq_true', decide_eq_false_iff_not] at h
      split at h
      · next hguard =>
        obtain ⟨⟨hisDir, hnot⟩, -⟩ := hguard
        obtain rfl := Option.some.inj h
        refine ⟨(held_foldl_put _ _).trans ?_, rfl⟩
        have hmoved : (held P ((fs.files.rows.filter fun f => decide (p.Within f.path)).map
            (rebase p q))).Sublist (held P (fs.files.rows.filter fun f => decide (p.Within f.path))) := by
          refine held_map_sublist ?_ ?_
          · exact fun f => ⟨rfl, rfl⟩
          · intro f hf hP
            have hwithin : p.Within f.path := of_decide_eq_true (List.mem_filter.mp hf).2
            exact hdir hat hisDir hnot f.path hwithin hP
        have hparts : (held P (fs.files.rows.filter fun f => decide (p.Within f.path)) ++
            held P (fs.removeAll p).files.rows).Perm (held P fs.files.rows) := by
          rw [← held_append]
          exact held_perm (List.filter_append_perm _ _)
        exact ((List.subperm_append_right _).mpr hmoved.subperm).trans hparts.subperm
      · cases h

/-- What an opening that empties the file does to the table: the file keeps its number, and a new one
gets the next. -/
theorem files_openFile (h : fs.openFile p (fun _ => 0) = some fs') :
    ∃ k, fs'.files = fs.files.put ⟨p, k, 0⟩ ∧ (fs.fileAt p = none ∧ k = fs.next ∧
      fs'.next = fs.next + 1 ∨ (∃ c, fs.fileAt p = some ⟨p, k, c⟩) ∧ fs'.next = fs.next) := by
  unfold openFile at h
  split at h
  · cases hat : fs.fileAt p with
    | some f =>
      rw [hat] at h
      obtain rfl := Option.some.inj h
      obtain ⟨-, rfl⟩ := fileAt_eq_some.mp hat
      exact ⟨f.number, rfl, .inr ⟨⟨f.content, rfl⟩, rfl⟩⟩
    | none =>
      rw [hat] at h
      obtain rfl := Option.some.inj h
      exact ⟨fs.next, rfl, .inl ⟨rfl, rfl, rfl⟩⟩
  · cases h

/-- **An opening** takes the bytes of the file that it empties. -/
theorem usage_openFile (h : fs.openFile p (fun _ => 0) = some fs') (hd : d.Within p) :
    fs'.usage d + (fs.contentAt p).getD 0 = fs.usage d := by
  obtain ⟨k, hfiles, -⟩ := files_openFile h
  have hafter : held d.Within fs'.files.rows =
      (k, 0) :: held d.Within (fs.files.rows.filter fun g => !decide (g.path = p)) := by
    rw [hfiles]
    exact held_cons_of (f := ⟨p, k, 0⟩) hd
  have hbefore := sizes_perm (held_split (P := d.Within) fs hd)
  rw [usage_eq, usage_eq, hafter, sizes_cons, hbefore]
  unfold contentAt
  cases fs.fileAt p with
  | none => simp [sizes]
  | some f =>
    simp [sizes]
    omega

theorem held_write (fs : FileSystem Nat) (number : Nat) (g : Nat → Nat) :
    held P (fs.write number g).files.rows =
      (held P fs.files.rows).map fun e => if e.1 = number then (e.1, g e.2) else e := by
  unfold held write Table.modify
  rw [List.filter_map, List.map_map, List.map_map]
  have hpred : ((fun f : File Nat => decide (P f.path)) ∘ fun f =>
      if f.number = number then { f with content := g f.content } else f) =
      fun f => decide (P f.path) := by
    funext f
    show decide (P (if f.number = number then { f with content := g f.content } else f).path) = _
    split <;> rfl
  rw [hpred]
  apply List.map_congr_left
  intro f _
  show ((if f.number = number then { f with content := g f.content } else f : File Nat).number,
    (if f.number = number then { f with content := g f.content } else f : File Nat).content) =
    if f.number = number then (f.number, g f.content) else (f.number, f.content)
  split <;> rfl

/-! ## Numbers -/

/-- Two files of one number are one file. -/
theorem Numbered.eq_of_number (h : fs.Numbered) {f g : File Nat} (hf : f ∈ fs.files)
    (hg : g ∈ fs.files) (heq : f.number = g.number) : f = g := by
  have hnumbers : (held (fun _ => True) fs.files.rows).map Prod.fst =
      fs.files.rows.map File.number := by
    have hall : fs.files.rows.filter (fun _ => decide True) = fs.files.rows :=
      List.filter_eq_self.mpr fun _ _ => decide_eq_true trivial
    unfold held
    rw [hall, List.map_map]
    rfl
  exact List.inj_on_of_nodup_map (hnumbers ▸ h.nodup) hf hg heq

theorem Numbered.lt_next (h : fs.Numbered) (hf : f ∈ fs.files) : f.number < fs.next :=
  h.fresh (f.number, f.content) (mem_held.mpr ⟨f, hf, trivial, rfl, rfl⟩)

theorem Numbered.nodup_held (h : fs.Numbered) (P : Path → Prop) [DecidablePred P] :
    ((held P fs.files.rows).map Prod.fst).Nodup :=
  h.nodup.sublist ((held_le_held fun _ _ => trivial).map Prod.fst)

/-- Deletions and renamings keep the numbers apart. -/
theorem Numbered.of_subperm (h : fs.Numbered)
    (hheld : (held (fun _ => True) fs'.files.rows).Subperm (held (fun _ => True) fs.files.rows))
    (hnext : fs'.next = fs.next) : fs'.Numbered := by
  refine ⟨?_, fun e he => hnext ▸ h.fresh e (hheld.subset he)⟩
  obtain ⟨l, hperm, hsub⟩ := hheld
  exact ((hperm.map Prod.fst).nodup_iff).mp (h.nodup.sublist (hsub.map Prod.fst))

theorem Numbered.write (h : fs.Numbered) (number : Nat) (g : Nat → Nat) :
    (fs.write number g).Numbered := by
  have hfst : ∀ e : Nat × Nat, (if e.1 = number then (e.1, g e.2) else e).1 = e.1 := by
    intro e
    split <;> rfl
  refine ⟨?_, fun e he => ?_⟩
  · rw [held_write, List.map_map]
    have hsame := List.map_congr_left (l := held (fun _ => True) fs.files.rows) fun e _ => hfst e
    exact hsame.symm ▸ h.nodup
  · rw [held_write] at he
    obtain ⟨e', he', rfl⟩ := List.mem_map.mp he
    rw [hfst]
    exact h.fresh e' he'

/-- An opening gives a new file the next number. -/
theorem Numbered.openFile (h : fs.Numbered) (hopen : fs.openFile p (fun _ => 0) = some fs') :
    fs'.Numbered := by
  obtain ⟨k, hfiles, hk⟩ := files_openFile hopen
  have hafter : held (fun _ => True) fs'.files.rows =
      (k, 0) :: held (fun _ => True) (fs.files.rows.filter fun g => !decide (g.path = p)) := by
    rw [hfiles]
    exact held_cons_of (f := ⟨p, k, 0⟩) trivial
  have hbefore := held_split (P := fun _ => True) fs (p := p) trivial
  have hnodup := (hbefore.map Prod.fst).nodup_iff.mp h.nodup
  have hfresh : ∀ e ∈ held (fun _ => True) (fs.files.rows.filter fun g => !decide (g.path = p)),
      e.1 < fs.next := fun e he => h.fresh e (hbefore.symm.subset (List.mem_append_right _ he))
  rcases hk with ⟨hat, rfl, hnext⟩ | ⟨⟨c, hat⟩, hnext⟩
  · rw [hat] at hnodup
    refine ⟨?_, fun e he => ?_⟩
    · rw [hafter, List.map_cons, List.nodup_cons]
      refine ⟨fun hmem => ?_, hnodup⟩
      obtain ⟨e, he, heq⟩ := List.mem_map.mp hmem
      have hlt := hfresh e he
      omega
    · rw [hafter] at he
      rcases List.mem_cons.mp he with rfl | he
      · omega
      · have hlt := hfresh e he
        omega
  · rw [hat] at hnodup hbefore
    refine ⟨?_, fun e he => ?_⟩
    · rw [hafter]
      exact hnodup
    · rw [hafter] at he
      rw [hnext]
      rcases List.mem_cons.mp he with rfl | he
      · exact h.fresh (k, c) (hbefore.symm.subset List.mem_cons_self)
      · exact hfresh e he

end FilePath.FileSystem
