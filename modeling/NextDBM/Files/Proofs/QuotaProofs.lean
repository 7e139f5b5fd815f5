import NextDBM.Files.Proofs.StorageProofs
import NextDBM.Files.Quota

/-!
# Proofs: sizes of the storages

A path of a request leads into the directory of its storage, or to the drive, which lies in none. So a
request changes what one storage holds. The invariant says that a storage with a limit has room for what
its only writer has still to write.
-/

namespace NextDBM

open FilePath FilePath.FileSystem Relational Transition StorageService

namespace StorageServer

section

attribute [local irreducible] location

variable {drivePath id other : String} {fs fs' : FileSystem Nat} {p q : Path}

/-! ## Paths -/

/-- Inside the directory of the storage, or the drive itself. -/
def InStorage (drivePath id : String) (p : Path) : Prop :=
  (root drivePath id).Within p ∨ p = location drivePath

instance : Decidable (InStorage drivePath id p) := inferInstanceAs (Decidable (_ ∨ _))

theorem root_eq (hid : IsName id.toList) :
    root drivePath id = (location drivePath).extend [⟨id.toList, hid⟩] := location_storageDir hid

theorem drive_within_root (hid : IsName id.toList) :
    (location drivePath).Within (root drivePath id) := by
  rw [root_eq hid]
  exact Path.within_extend _ _

theorem not_root_within_drive (hid : IsName id.toList) :
    ¬ (root drivePath id).Within (location drivePath) := by
  rw [root_eq hid]
  exact Path.not_within_extend _ _

/-- The directories of two storages have nothing in common. -/
theorem not_within_other (hid : IsName id.toList) (hother : IsName other.toList) (hne : id ≠ other)
    (h : (root drivePath id).Within p) : ¬ (root drivePath other).Within p := by
  intro hin
  rw [root_eq hid] at h
  rw [root_eq hother] at hin
  exact hne (String.toList_inj.mp (congrArg Subtype.val (Path.within_extend_inj h hin)))

theorem inStorage_of_legal (hid : IsName id.toList) {t : String} (h : isIllegal t = false) :
    InStorage drivePath id (location (pathJoin [storageDir drivePath id, t])) := by
  have hwalk : location (pathJoin [storageDir drivePath id, t]) =
      (root drivePath id).walk t.toList := location_pathJoin hid [t]
  rw [hwalk]
  rcases ascent_of_not_infix (not_infix_of_legal h) with hzero | ⟨hone, hdown⟩
  · exact .inl (Path.within_walk_of_ascent _ hzero)
  · right
    rw [Path.walk_eq, hone, hdown, Path.extend_nil, root_eq hid, Path.climb_succ]
    show (((location drivePath).extend [⟨id.toList, hid⟩])).parent = _
    rw [Path.parent_extend _ (List.cons_ne_nil _ _)]
    exact Path.extend_nil _

theorem inStorage_of_path (hid : IsName id.toList) {r : StorageRequest}
    (h : path drivePath id r = some p) : InStorage drivePath id p := by
  unfold path at h
  split at h
  · next f htargets =>
    obtain rfl := Option.some.inj h
    obtain ⟨hpaths, hlegal⟩ := targets_ok htargets
    have hmem : f ∈ (texts r).map fun t => pathJoin [storageDir drivePath id, t] :=
      hpaths ▸ List.mem_singleton_self f
    obtain ⟨t, ht, rfl⟩ := List.mem_map.mp hmem
    exact inStorage_of_legal hid (hlegal t ht)
  · cases h

theorem inStorage_of_paths (hid : IsName id.toList) {r : StorageRequest} {pq : Path × Path}
    (h : paths drivePath id r = some pq) :
    InStorage drivePath id pq.1 ∧ InStorage drivePath id pq.2 := by
  unfold paths at h
  split at h
  · next f g htargets =>
    obtain rfl := Option.some.inj h
    obtain ⟨hpaths, hlegal⟩ := targets_ok htargets
    have hboth : ∀ u ∈ [f, g], InStorage drivePath id (location u) := by
      intro u hu
      have hmem : u ∈ (texts r).map fun t => pathJoin [storageDir drivePath id, t] := hpaths ▸ hu
      obtain ⟨t, ht, rfl⟩ := List.mem_map.mp hmem
      exact inStorage_of_legal hid (hlegal t ht)
    exact ⟨hboth f List.mem_cons_self, hboth g (List.mem_cons_of_mem f (List.mem_singleton_self g))⟩
  · cases h

/-! ## Renamings -/

theorem names_ne_nil_of_within {n : Name} (h : (p.extend [n]).Within q) : q.names ≠ [] := by
  have hlong {ns ms : List Name} (hpre : ns ++ [n] <+: ms) : ms ≠ [] := by
    rintro rfl
    exact absurd (List.prefix_nil.mp hpre) (List.append_ne_nil_of_right_ne_nil ns (by simp))
  cases p with
  | abs ns =>
    cases q with
    | abs ms => exact hlong h
    | rel up ms => exact h.elim
  | rel up ns =>
    cases q with
    | abs ms => exact h.elim
    | rel up' ms => exact hlong h.2

variable {P : Path → Prop} [DecidablePred P]

theorem isDir_drive_of_within (hid : IsName id.toList) (hp : (root drivePath id).Within p)
    (h : fs.fileAt p ≠ none ∨ fs.isDir p = true) : fs.isDir (location drivePath) = true := by
  have hdrive : (location drivePath).Within p := Path.within_trans (drive_within_root hid) hp
  have hbelow {f : File Nat} (hf : f ∈ fs.files) (hin : p.Within f.path) :
      fs.isDir (location drivePath) = true := by
    refine isDir_iff.mpr (.inr (.inr ⟨f, hf, Path.within_trans hdrive hin, fun heq => ?_⟩))
    exact not_root_within_drive hid (heq ▸ Path.within_trans hp hin)
  rcases h with hfile | hdir
  · obtain ⟨f, hf⟩ := Option.ne_none_iff_exists'.mp hfile
    obtain ⟨hmem, hpath⟩ := fileAt_eq_some.mp hf
    exact hbelow hmem (hpath ▸ Path.within_refl p)
  · rcases isDir_iff.mp hdir with hnames | ⟨d, hd, hin⟩ | ⟨f, hf, hin, -⟩
    · have hroot : p.names ≠ [] := by
        intro hnil
        rw [root_eq hid] at hp
        exact names_ne_nil_of_within hp hnil
      exact absurd hnames hroot
    · exact isDir_iff.mpr (.inr (.inl ⟨d, hd, Path.within_trans hdrive hin⟩))
    · exact hbelow hf hin

/-- A renaming inside a storage keeps what lies in a part of the tree that has all of the storage or
none of it. -/
theorem held_rename_inStorage (hid : IsName id.toList) (hp : InStorage drivePath id p)
    (hq : InStorage drivePath id q)
    (hP : ∀ a b, (root drivePath id).Within a → (root drivePath id).Within b → P a → P b)
    (h : fs.rename p q = some fs') :
    (held P fs'.files.rows).Subperm (held P fs.files.rows) ∧ fs'.next = fs.next := by
  obtain ⟨hnotDir, hnotBlocked⟩ := rename_guard h
  refine held_rename h (fun hfile hPq => ?_) fun hnone hisDir hnotIn r hr hPr => ?_
  · rcases hp with hp | rfl
    · rcases hq with hq | rfl
      · exact hP q p hq hp hPq
      · rw [isDir_drive_of_within hid hp (.inl hfile)] at hnotDir
        cases hnotDir
    · rcases hq with hq | rfl
      · obtain ⟨f, hf⟩ := Option.ne_none_iff_exists'.mp hfile
        obtain ⟨hmem, hpath⟩ := fileAt_eq_some.mp hf
        have hne : q ≠ location drivePath := fun heq => not_root_within_drive hid (heq ▸ hq)
        have hblocked : fs.isBlocked q.dir = true := isBlocked_iff.mpr ⟨f, hmem,
          hpath ▸ Path.within_dir (Path.within_trans (drive_within_root hid) hq) hne⟩
        rw [hblocked] at hnotBlocked
        cases hnotBlocked
      · exact hPq
  · rcases hp with hp | rfl
    · rcases hq with hq | rfl
      · exact hP _ _ (Path.within_trans hq (Path.within_extend _ _)) (Path.within_trans hp hr) hPr
      · rw [isDir_drive_of_within hid hp (.inr hisDir)] at hnotDir
        cases hnotDir
    · rcases hq with hq | rfl
      · exact absurd (Path.within_trans (drive_within_root hid) hq) hnotIn
      · exact absurd (Path.within_refl _) hnotIn

/-! ## What changes in the file system -/

/-- The numbers and sizes of the files of a storage. -/
def filesOf (drivePath : String) (fs : FileSystem Nat) (id : String) : List (Nat × Nat) :=
  held (root drivePath id).Within fs.files.rows

/-- The files that are neither in the storage nor the drive. -/
def othersOf (drivePath : String) (fs : FileSystem Nat) (id : String) : List (Nat × Nat) :=
  held (fun p => ¬ InStorage drivePath id p) fs.files.rows

/-- Files are deleted, or moved inside their storage. -/
structure Shrinks (drivePath : String) (fs fs' : FileSystem Nat) : Prop where
  inside : ∀ id, IsName id.toList →
    (filesOf drivePath fs' id).Subperm (filesOf drivePath fs id)
  outside : ∀ id, IsName id.toList →
    (othersOf drivePath fs' id).Subperm (othersOf drivePath fs id)
  all : (held (fun _ => True) fs'.files.rows).Subperm (held (fun _ => True) fs.files.rows)
  next : fs'.next = fs.next

theorem Shrinks.refl (drivePath : String) (fs : FileSystem Nat) : Shrinks drivePath fs fs :=
  ⟨fun _ _ => List.Subperm.refl _, fun _ _ => List.Subperm.refl _, List.Subperm.refl _, rfl⟩

theorem shrinks_mkdirAll (h : fs.mkdirAll p = some fs') : Shrinks drivePath fs fs' := by
  obtain ⟨-, rfl⟩ := mkdirAll_eq_some h
  exact ⟨fun _ _ => List.Subperm.refl _, fun _ _ => List.Subperm.refl _, List.Subperm.refl _, rfl⟩

theorem shrinks_removeAll (fs : FileSystem Nat) (p : Path) :
    Shrinks drivePath fs (fs.removeAll p) :=
  ⟨fun _ _ => held_removeAll.subperm, fun _ _ => held_removeAll.subperm, held_removeAll.subperm, rfl⟩

theorem shrinks_rename (hid : IsName id.toList) (hp : InStorage drivePath id p)
    (hq : InStorage drivePath id q) (h : fs.rename p q = some fs') : Shrinks drivePath fs fs' := by
  refine ⟨fun other hother => ?_, fun other hother => ?_, ?_, ?_⟩
  · refine (held_rename_inStorage hid hp hq (fun a b ha hb hin => ?_) h).1
    by_cases hne : id = other
    · exact hne ▸ hb
    · exact absurd hin (not_within_other hid hother hne ha)
  · refine (held_rename_inStorage hid hp hq (fun a b ha hb hout hin => ?_) h).1
    by_cases hne : id = other
    · exact hout (.inl (hne ▸ ha))
    · rcases hin with hin | rfl
      · exact not_within_other hid hother hne hb hin
      · exact not_root_within_drive hid hb
  · exact (held_rename_inStorage hid hp hq (fun _ _ _ _ _ => trivial) h).1
  · exact (held_rename_inStorage (P := fun _ => True) hid hp hq (fun _ _ _ _ _ => trivial) h).2

/-! ## Room for the writers -/

variable {s s' : StorageServer} {limit : Int} {t u : StorageTask} {i j k : Nat}

theorem used_eq (s : StorageServer) : s.used drivePath id = sizes (filesOf drivePath s.fs id) :=
  usage_eq

/-- A storage that holds no more than its limit, also when its only writer is done. -/
structure Fits (drivePath : String) (s : StorageServer) (id : String) (limit : Int) : Prop where
  used : (s.used drivePath id : Int) ≤ limit
  room : ∀ t ∈ s.tasks, ∀ m ∈ t.pending id, ((s.used drivePath id + m : Nat) : Int) ≤ limit
  single : ∀ (i j : Nat) (t u : StorageTask), s.tasks[i]? = some t → s.tasks[j]? = some u →
    t.pending id ≠ none → u.pending id ≠ none → i = j
  covered : ∀ t ∈ s.tasks, ∀ k written size, t = .copying id k written size →
    ∀ e ∈ filesOf drivePath s.fs id, e.1 = k → written ≤ e.2

/-- What a task may still write was there before, and it has not begun to copy. -/
def Continues (s : StorageServer) (id : String) (j : Nat) (u : StorageTask) : Prop :=
  ∃ t, s.tasks[j]? = some t ∧ t.pending id = u.pending id ∧
    ∀ k written size, u = .copying id k written size → t = u

theorem Continues.of_same (h : s.tasks[j]? = some u) : Continues s id j u :=
  ⟨u, h, rfl, fun _ _ _ _ => rfl⟩

/-- **Frame**: no new writer, and no new bytes. -/
theorem Fits.frame (h : Fits drivePath s id limit)
    (hfiles : (filesOf drivePath s'.fs id).Subperm (filesOf drivePath s.fs id))
    (htasks : ∀ j u, s'.tasks[j]? = some u → u.pending id ≠ none → Continues s id j u) :
    Fits drivePath s' id limit := by
  have hused : s'.used drivePath id ≤ s.used drivePath id := by
    rw [used_eq, used_eq]
    exact sizes_le_of_subperm hfiles
  refine ⟨?_, fun u hu m hm => ?_, fun i j t u ht hu hpt hpu => ?_, fun u hu k w size heq e he hk => ?_⟩
  · have hbound := h.used
    omega
  · obtain ⟨j, hj⟩ := List.mem_iff_getElem?.mp hu
    obtain ⟨t, ht, hpending, -⟩ := htasks j u hj (by rw [hm]; exact Option.some_ne_none m)
    have hbound := h.room t (List.mem_of_getElem? ht) m (hpending.trans hm)
    omega
  · obtain ⟨t', ht', hp', -⟩ := htasks i t ht hpt
    obtain ⟨u', hu', hq', -⟩ := htasks j u hu hpu
    exact h.single i j t' u' ht' hu' (hp' ▸ hpt) (hq' ▸ hpu)
  · obtain ⟨j, hj⟩ := List.mem_iff_getElem?.mp hu
    have hpending : u.pending id ≠ none := by
      rw [heq]
      simp [StorageTask.pending]
    obtain ⟨t, ht, -, hsame⟩ := htasks j u hj hpending
    obtain rfl := hsame k w size heq
    exact h.covered t (List.mem_of_getElem? ht) k w size heq e (hfiles.subset he) hk

theorem getElem?_set_cases {l : List StorageTask} (h : (l.set i t)[j]? = some u) :
    (j = i ∧ u = t) ∨ (j ≠ i ∧ l[j]? = some u) := by
  rw [List.getElem?_set] at h
  split at h
  · next heq =>
    split at h
    · exact .inl ⟨heq.symm, (Option.some.inj h).symm⟩
    · cases h
  · next hne => exact .inr ⟨fun heq => hne heq.symm, h⟩

/-- A storage whose only writer is one task. -/
theorem Fits.sole (htasks : s'.tasks = s.tasks.set i t)
    (hothers : ∀ j u, s.tasks[j]? = some u → j ≠ i → u.pending id = none)
    (hroom : ((s'.used drivePath id + (t.pending id).getD 0 : Nat) : Int) ≤ limit)
    (hcovered : ∀ k written size, t = .copying id k written size →
      ∀ e ∈ filesOf drivePath s'.fs id, e.1 = k → written ≤ e.2) :
    Fits drivePath s' id limit := by
  have honly {j : Nat} {u : StorageTask} (hu : s'.tasks[j]? = some u) (hp : u.pending id ≠ none) :
      j = i ∧ u = t := by
    rw [htasks] at hu
    rcases getElem?_set_cases hu with hsame | ⟨hne, hu⟩
    · exact hsame
    · exact absurd (hothers j u hu hne) hp
  refine ⟨?_, fun u hu m hm => ?_, fun a b x y hx hy hpx hpy => ?_, fun u hu k w size heq => ?_⟩
  · omega
  · obtain ⟨j, hj⟩ := List.mem_iff_getElem?.mp hu
    obtain ⟨-, rfl⟩ := honly hj (by rw [hm]; exact Option.some_ne_none m)
    rw [hm, Option.getD_some] at hroom
    exact hroom
  · rw [(honly hx hpx).1, (honly hy hpy).1]
  · obtain ⟨j, hj⟩ := List.mem_iff_getElem?.mp hu
    obtain ⟨-, rfl⟩ := honly hj (by rw [heq]; simp [StorageTask.pending])
    exact hcovered k w size heq

/-- Beside a writer of a limited storage there is no other one. -/
theorem Fits.noOther (h : Fits drivePath s id limit) (hi : s.tasks[i]? = some t)
    (ht : t.pending id ≠ none) : ∀ j u, s.tasks[j]? = some u → j ≠ i → u.pending id = none := by
  intro j u hu hne
  by_contra hp
  exact hne (h.single j i u t hu hi hp ht)

/-! ## The invariant -/

/-- The storage whose files a task is about. -/
def storageOf : StorageTask → Option String
  | .upload id _ _ _ | .found id _ _ _ _ | .allowed id _ _ _ | .placed id _ _ _ | .edit id _ _
  | .copying id _ _ _ => some id
  | _ => none

/-- A file that was opened for a storage is still in the storage, when it is still there. -/
def Opened (drivePath : String) (fs : FileSystem Nat) (id : String) (k : Nat) : Prop :=
  k < fs.next ∧ ∀ f ∈ fs.files, f.number = k → InStorage drivePath id f.path

structure Inv (drivePath : String) (s : StorageServer) : Prop where
  names : ∀ r ∈ s.storages, IsName r.id.toList
  numbered : s.fs.Numbered
  known : ∀ t ∈ s.tasks, ∀ id ∈ storageOf t, IsName id.toList
  opened : ∀ t ∈ s.tasks, ∀ id k written size, t = .copying id k written size →
    Opened drivePath s.fs id k
  fits : ∀ r ∈ s.storages, 0 < r.limitSize → Fits drivePath s r.id r.limitSize
  limited : ∀ t ∈ s.tasks, ∀ id item, t = .measured id item → 0 < item.limitSize →
    IsName id.toList → s.NoWriter id ∧ Fits drivePath s id item.limitSize

theorem Opened.shrink (h : Opened drivePath fs id k) (hid : IsName id.toList)
    (hfs : Shrinks drivePath fs fs') : Opened drivePath fs' id k := by
  refine ⟨hfs.next ▸ h.1, fun f hf hk => ?_⟩
  by_contra hout
  have hheld : (k, f.content) ∈ othersOf drivePath fs id :=
    (hfs.outside id hid).subset (mem_held.mpr ⟨f, hf, hout, hk, rfl⟩)
  obtain ⟨g, hg, hgout, hgk, -⟩ := mem_held.mp hheld
  exact hgout (h.2 g hg hgk)

theorem pending_copying (id : String) (k written size : Nat) :
    (StorageTask.copying id k written size).pending id = some (size - written) := if_pos rfl

/-- A task that does not become a writer, nor a limiter. -/
structure Quiet (s : StorageServer) (j : Nat) (u : StorageTask) : Prop where
  known : ∀ id ∈ storageOf u, IsName id.toList
  pending : ∀ id, u.pending id ≠ none → Continues s id j u
  limits : ∀ id, u.limits id = true → u ∈ s.tasks

theorem Inv.quiet (h : Inv drivePath s) (hj : s.tasks[j]? = some u) : Quiet s j u :=
  ⟨h.known u (List.mem_of_getElem? hj), fun _ _ => Continues.of_same hj,
    fun _ _ => List.mem_of_getElem? hj⟩

theorem NoWriter.frame {s s' : StorageServer} (h : s.NoWriter id)
    (htasks : ∀ j u, s'.tasks[j]? = some u → u.pending id ≠ none → Continues s id j u) :
    s'.NoWriter id := by
  intro u hu
  by_contra hp
  obtain ⟨j, hj⟩ := List.mem_iff_getElem?.mp hu
  obtain ⟨t, ht, hpending, -⟩ := htasks j u hj hp
  exact hp (hpending ▸ h t (List.mem_of_getElem? ht))

/-- **Frame** of the invariant. -/
theorem Inv.frame (h : Inv drivePath s) (hstorages : s'.storages = s.storages)
    (hfs : Shrinks drivePath s.fs s'.fs)
    (htasks : ∀ j u, s'.tasks[j]? = some u → Quiet s j u) : Inv drivePath s' := by
  have hcontinues (id : String) (j : Nat) (u : StorageTask) (hj : s'.tasks[j]? = some u)
      (hp : u.pending id ≠ none) : Continues s id j u := (htasks j u hj).pending id hp
  refine ⟨hstorages ▸ h.names, h.numbered.of_subperm hfs.all hfs.next, fun u hu => ?_,
    fun u hu id k w size heq => ?_, fun r hr hlimit => ?_, fun u hu id item heq hlimit hid => ?_⟩
  · obtain ⟨j, hj⟩ := List.mem_iff_getElem?.mp hu
    exact (htasks j u hj).known
  · obtain ⟨j, hj⟩ := List.mem_iff_getElem?.mp hu
    have hid : IsName id.toList := (htasks j u hj).known id (by rw [heq]; rfl)
    have hpending : u.pending id ≠ none := by
      rw [heq, pending_copying]
      exact Option.some_ne_none _
    obtain ⟨t, ht, -, hsame⟩ := hcontinues id j u hj hpending
    obtain rfl := hsame k w size heq
    exact (h.opened t (List.mem_of_getElem? ht) id k w size heq).shrink hid hfs
  · rw [hstorages] at hr
    exact (h.fits r hr hlimit).frame (hfs.inside r.id (h.names r hr)) (hcontinues r.id)
  · obtain ⟨j, hj⟩ := List.mem_iff_getElem?.mp hu
    have hlimits : u.limits id = true := by
      rw [heq]
      simp [StorageTask.limits, hlimit]
    obtain ⟨hno, hfits⟩ := h.limited u ((htasks j u hj).limits id hlimits) id item heq hlimit hid
    exact ⟨hno.frame (hcontinues id), hfits.frame (hfs.inside id hid) (hcontinues id)⟩

/-- Beside a writer nobody is about to limit its storage. -/
theorem Inv.noLimiter (h : Inv drivePath s) (hid : IsName id.toList) (hi : s.tasks[i]? = some t)
    (ht : t.pending id ≠ none) : s.NoLimiter id := by
  intro u hu
  refine Bool.eq_false_of_not_eq_true fun hlimits => ?_
  unfold StorageTask.limits at hlimits
  split at hlimits
  · next other item =>
    rw [Bool.and_eq_true, beq_iff_eq, decide_eq_true_eq] at hlimits
    obtain ⟨rfl, hlimit⟩ := hlimits
    exact ht ((h.limited _ hu other item rfl hlimit hid).1 t (List.mem_of_getElem? hi))
  · cases hlimits

/-- **A step of a writer** is checked at its own storage. -/
theorem Inv.writer (h : Inv drivePath s) (hid : IsName id.toList)
    (hstorages : s'.storages = s.storages) (htasks : s'.tasks = s.tasks.set i t)
    (hpending : ∀ other, other ≠ id → t.pending other = none)
    (hknown : ∀ other ∈ storageOf t, other = id) (hlimits : ∀ other, t.limits other = false)
    (hnumbered : s'.fs.Numbered)
    (hopened : ∀ u ∈ s'.tasks, ∀ other k written size, u = .copying other k written size →
      Opened drivePath s'.fs other k)
    (hfiles : ∀ other, other ≠ id → IsName other.toList →
      (filesOf drivePath s'.fs other).Subperm (filesOf drivePath s.fs other))
    (hlimiter : s.NoLimiter id)
    (hfits : ∀ r ∈ s.storages, r.id = id → 0 < r.limitSize → Fits drivePath s' id r.limitSize) :
    Inv drivePath s' := by
  have hcontinues (other : String) (hne : other ≠ id) (j : Nat) (u : StorageTask)
      (hj : s'.tasks[j]? = some u) (hp : u.pending other ≠ none) : Continues s other j u := by
    rw [htasks] at hj
    rcases getElem?_set_cases hj with ⟨-, rfl⟩ | ⟨-, hj⟩
    · exact absurd (hpending other hne) hp
    · exact Continues.of_same hj
  have hmem (u : StorageTask) (hu : u ∈ s'.tasks) : u = t ∨ u ∈ s.tasks := by
    rw [htasks] at hu
    exact (List.mem_or_eq_of_mem_set hu).symm
  refine ⟨hstorages ▸ h.names, hnumbered, fun u hu other hother => ?_, hopened,
    fun r hr hlimit => ?_, fun u hu other item heq hlimit hother => ?_⟩
  · rcases hmem u hu with rfl | hu
    · exact hknown other hother ▸ hid
    · exact h.known u hu other hother
  · rw [hstorages] at hr
    by_cases hne : r.id = id
    · exact hne.symm ▸ hfits r hr hne hlimit
    · exact (h.fits r hr hlimit).frame (hfiles r.id hne (h.names r hr)) (hcontinues r.id hne)
  · have hlimiting : u.limits other = true := by
      rw [heq]
      simp [StorageTask.limits, hlimit]
    rcases hmem u hu with rfl | hu
    · rw [hlimits] at hlimiting
      cases hlimiting
    · by_cases hne : other = id
      · rw [hne, hlimiter u hu] at hlimiting
        cases hlimiting
      · obtain ⟨hno, hfits⟩ := h.limited u hu other item heq hlimit hother
        exact ⟨hno.frame (hcontinues other hne),
          hfits.frame (hfiles other hne hother) (hcontinues other hne)⟩

/-- A task that stays as it is, or goes on quietly. -/
theorem Inv.setQuiet (h : Inv drivePath s) (hfs : Shrinks drivePath s.fs fs') (ht : Quiet s i t) :
    Inv drivePath { s with fs := fs', tasks := s.tasks.set i t } := by
  refine h.frame rfl hfs fun j u hu => ?_
  rcases getElem?_set_cases hu with ⟨rfl, rfl⟩ | ⟨-, hu⟩
  · exact ht
  · exact h.quiet hu

theorem Inv.finish (h : Inv drivePath s) (i : Nat) :
    Inv drivePath { s with tasks := s.tasks.set i .finished } := by
  refine h.setQuiet (Shrinks.refl drivePath s.fs) ⟨fun id hid => ?_, fun id hp => ?_, fun id hl => ?_⟩
  · cases hid
  · exact absurd rfl hp
  · cases hl

/-! ## Openings -/

theorem filesOf_openFile_other (hid : IsName id.toList) (hp : InStorage drivePath id p)
    (h : fs.openFile p (fun _ => 0) = some fs') (hne : other ≠ id) (hother : IsName other.toList) :
    filesOf drivePath fs' other = filesOf drivePath fs other := by
  obtain ⟨k, hfiles, -⟩ := files_openFile h
  have hout : ¬ (root drivePath other).Within p := by
    rcases hp with hp | rfl
    · exact not_within_other hid hother hne.symm hp
    · exact not_root_within_drive hother
  unfold filesOf
  rw [hfiles]
  exact held_put_of_not hout

/-- What is open stays in its storage. -/
theorem Opened.openFile (hopened : Opened drivePath fs id k)
    (h : fs.openFile p (fun _ => 0) = some fs') : Opened drivePath fs' id k := by
  obtain ⟨k', hfiles, hk'⟩ := files_openFile h
  obtain ⟨hlt, hin⟩ := hopened
  refine ⟨?_, fun f hf hk => ?_⟩
  · rcases hk' with ⟨-, -, hnext⟩ | ⟨-, hnext⟩
    · omega
    · omega
  · rw [hfiles] at hf
    rcases Table.mem_put.mp hf with rfl | ⟨hf, -⟩
    · rcases hk' with ⟨-, hnew, -⟩ | ⟨⟨c, hat⟩, -⟩
      · have hsame : k' = k := hk
        omega
      · exact hin ⟨p, k', c⟩ (fileAt_eq_some.mp hat).1 hk
    · exact hin f hf hk

theorem opened_openFile (hnumbered : fs.Numbered) (hp : InStorage drivePath id p)
    (h : fs.openFile p (fun _ => 0) = some fs') :
    Opened drivePath fs' id (((fs'.fileAt p).map File.number).getD 0) := by
  obtain ⟨k, hfiles, hk⟩ := files_openFile h
  have hmem : (⟨p, k, 0⟩ : File Nat) ∈ fs'.files := by
    rw [hfiles]
    exact Table.mem_put.mpr (.inl rfl)
  have hat : fs'.fileAt p = some ⟨p, k, 0⟩ := fileAt_eq_some.mpr ⟨hmem, rfl⟩
  rw [hat]
  refine ⟨(hnumbered.openFile h).lt_next hmem, fun f hf hnumber => ?_⟩
  have hsame := (hnumbered.openFile h).eq_of_number hf hmem hnumber
  rw [hsame]
  exact hp

/-- **An opening**: an upload or an edit begins to copy. -/
theorem Inv.openFor (h : Inv drivePath s) (hid : IsName id.toList)
    (hp : InStorage drivePath id p) {size : Nat}
    (hlimiter : s.fs.opens p = true → s.NoLimiter id)
    (hroom : s.fs.opens p = true → ∀ r ∈ s.storages, r.id = id → 0 < r.limitSize →
      (∀ j u, s.tasks[j]? = some u → j ≠ i → u.pending id = none) ∧
        ((s.used drivePath id + size : Nat) : Int) ≤ r.limitSize + s.emptied drivePath id p) :
    Inv drivePath { (s.openFor id size p).2 with
      tasks := s.tasks.set i (s.openFor id size p).1 } := by
  unfold StorageServer.openFor
  cases hopen : s.fs.openFile p fun _ => 0 with
  | none => exact h.finish i
  | some fs' =>
    have hopens : s.fs.opens p = true := openFile_isSome.mp ⟨fs', hopen⟩
    refine h.writer hid rfl rfl (fun other hne => if_neg hne.symm) (fun other hother => ?_)
      (fun _ => rfl) (h.numbered.openFile hopen) (fun u hu other k w size heq => ?_)
      (fun other hne hother => ?_) (hlimiter hopens) fun r hr hrid hlimit => ?_
    · exact (Option.some.inj hother).symm
    · rcases List.mem_or_eq_of_mem_set hu with hu | rfl
      · exact (h.opened u hu other k w size heq).openFile hopen
      · cases heq
        exact opened_openFile h.numbered hp hopen
    · rw [filesOf_openFile_other hid hp hopen hne hother]
    · obtain ⟨hothers, hbound⟩ := hroom hopens r hr hrid hlimit
      refine Fits.sole rfl hothers ?_ fun k w size heq e _ _ => ?_
      · rw [pending_copying, Option.getD_some]
        unfold emptied at hbound
        by_cases hin : (root drivePath id).Within p
        · have husage := usage_openFile hopen hin
          rw [if_pos hin] at hbound
          unfold used at hbound ⊢
          simp only
          omega
        · have hsame : filesOf drivePath fs' id = filesOf drivePath s.fs id := by
            obtain ⟨k, hfiles, -⟩ := files_openFile hopen
            unfold filesOf
            rw [hfiles]
            exact held_put_of_not hin
          rw [if_neg hin] at hbound
          rw [used_eq] at hbound ⊢
          simp only [hsame]
          omega
      · cases heq
        exact Nat.zero_le e.2

/-! ## Copies -/

theorem mem_write {f : File Nat} {g : Nat → Nat} (hf : f ∈ (fs.write k g).files) :
    ∃ f₀ ∈ fs.files, f₀.path = f.path ∧ f₀.number = f.number := by
  obtain ⟨f₀, hf₀, rfl⟩ := List.mem_map.mp hf
  refine ⟨f₀, hf₀, ?_⟩
  split
  · exact ⟨rfl, rfl⟩
  · exact ⟨rfl, rfl⟩

theorem Opened.write {j : Nat} (h : Opened drivePath fs id j) (g : Nat → Nat) :
    Opened drivePath (fs.write k g) id j := by
  refine ⟨h.1, fun f hf hj => ?_⟩
  obtain ⟨f₀, hf₀, hpath, hnumber⟩ := mem_write hf
  exact hpath ▸ h.2 f₀ hf₀ (hnumber.trans hj)

/-- A copy writes to no other storage. -/
theorem filesOf_write_other (hid : IsName id.toList) (hopened : Opened drivePath fs id k)
    (g : Nat → Nat) (hne : other ≠ id) (hother : IsName other.toList) :
    filesOf drivePath (fs.write k g) other = filesOf drivePath fs other := by
  unfold filesOf
  rw [held_write]
  refine (List.map_congr_left fun e he => if_neg fun hk => ?_).trans (List.map_id _)
  obtain ⟨f, hf, hin, hnumber, -⟩ := mem_held.mp he
  rcases hopened.2 f hf (hnumber.trans hk) with hmine | hdrive
  · exact not_within_other hid hother hne.symm hmine hin
  · exact not_root_within_drive hother (hdrive ▸ hin)

/-- **A copy**: what it writes it had room for. -/
theorem Inv.copy (h : Inv drivePath s) {written size n : Nat}
    (hi : s.tasks[i]? = some (.copying id k written size)) (hn : written + n ≤ size) :
    Inv drivePath { s with
      fs := s.fs.write k fun c => max c (written + n)
      tasks := s.tasks.set i
        (if written + n = size then .finished else .copying id k (written + n) size) } := by
  have hmem := List.mem_of_getElem? hi
  have hid : IsName id.toList := h.known _ hmem id rfl
  have hopened := h.opened _ hmem id k written size rfl
  have hwriter : (StorageTask.copying id k written size).pending id ≠ none := by
    rw [pending_copying]
    exact Option.some_ne_none _
  have hnext {other : String} {k' w' size' : Nat} (heq : (if written + n = size then
      StorageTask.finished else .copying id k (written + n) size) = .copying other k' w' size') :
      other = id ∧ k' = k ∧ w' = written + n := by
    split at heq
    · cases heq
    · cases heq
      exact ⟨rfl, rfl, rfl⟩
  refine h.writer hid rfl rfl (fun other hne => ?_) (fun other hother => ?_) (fun other => ?_)
    (h.numbered.write k fun c => max c (written + n)) (fun u hu other k' w' size' heq => ?_)
    (fun other hne hother => ?_) (h.noLimiter hid hi hwriter) fun r hr hrid hlimit => ?_
  · split
    · rfl
    · exact if_neg hne.symm
  · split at hother
    · cases hother
    · exact (Option.some.inj hother).symm
  · split
    · rfl
    · rfl
  · rcases List.mem_or_eq_of_mem_set hu with hu | rfl
    · exact (h.opened u hu other k' w' size' heq).write _
    · obtain ⟨rfl, rfl, -⟩ := hnext heq
      exact hopened.write _
  · rw [filesOf_write_other hid hopened _ hne hother]
  · have hfits : Fits drivePath s id r.limitSize := hrid ▸ h.fits r hr hlimit
    refine Fits.sole rfl (hfits.noOther hi hwriter) ?_ fun k' w' size' heq e he hk => ?_
    · have hgrow : sizes ((filesOf drivePath s.fs id).map fun e =>
          if e.1 = k then (e.1, max e.2 (written + n)) else e) ≤
          sizes (filesOf drivePath s.fs id) + n := by
        refine sizes_map_le (g := fun c => max c (written + n))
          (h.numbered.nodup_held (root drivePath id).Within) fun e he hk => ?_
        have hcovered := hfits.covered _ hmem k written size rfl e he hk
        omega
      have hroom := hfits.room _ hmem _ (pending_copying id k written size)
      have hleft : ((if written + n = size then StorageTask.finished
          else .copying id k (written + n) size).pending id).getD 0 ≤ size - (written + n) := by
        split
        · exact Nat.zero_le _
        · rw [pending_copying, Option.getD_some]
      have hafter : filesOf drivePath (s.fs.write k fun c => max c (written + n)) id =
          (filesOf drivePath s.fs id).map fun e =>
            if e.1 = k then (e.1, max e.2 (written + n)) else e := held_write s.fs k _
      rw [used_eq] at hroom ⊢
      simp only [hafter]
      omega
    · obtain ⟨-, rfl, rfl⟩ := hnext heq
      have hafter : e ∈ (filesOf drivePath s.fs id).map fun e =>
          if e.1 = k' then (e.1, max e.2 (written + n)) else e := by
        have hwrite := held_write (P := (root drivePath id).Within) s.fs k'
          fun c => max c (written + n)
        exact hwrite ▸ he
      obtain ⟨e₀, -, rfl⟩ := List.mem_map.mp hafter
      by_cases he₀ : e₀.1 = k'
      · rw [if_pos he₀]
        exact Nat.le_max_right _ _
      · rw [if_neg he₀] at hk
        exact absurd hk he₀

/-! ## Checks and limits -/

/-- A storage without a writer has room for what it holds. -/
theorem Fits.idle (hno : s.NoWriter id) (hused : (s.used drivePath id : Int) ≤ limit) :
    Fits drivePath s id limit := by
  refine ⟨hused, fun t ht m hm => ?_, fun i j t u ht _ hpt _ => ?_, fun t ht k w size heq => ?_⟩
  · rw [hno t ht] at hm
    cases hm
  · exact absurd (hno t (List.mem_of_getElem? ht)) hpt
  · have hnone := hno t ht
    rw [heq, pending_copying] at hnone
    cases hnone

theorem used_of_dirSize {d : Nat} (h : dirSize s.fs (root drivePath id) = some d) :
    s.used drivePath id = d := by
  unfold dirSize at h
  rw [Option.ite_none_right_eq_some] at h
  exact Option.some.inj h.2

theorem room_of_admits {size : Nat} (h : s.admits drivePath id size limit = true)
    (hlimit : 0 < limit) : ((s.used drivePath id + size : Nat) : Int) ≤ limit := by
  unfold admits at h
  rw [if_pos hlimit] at h
  cases hd : dirSize s.fs (root drivePath id) with
  | none =>
    rw [hd] at h
    cases h
  | some d =>
    rw [hd] at h
    rw [used_of_dirSize hd]
    exact of_decide_eq_true h

/-- **The check of an upload**. -/
theorem Inv.admit (h : Inv drivePath s) (hid : IsName id.toList) {dir name : String} {size : Nat}
    (hadmits : s.admits drivePath id size limit = true)
    (hok : s.KeepsUpload drivePath id size limit) :
    Inv drivePath { s with tasks := s.tasks.set i (.allowed id dir name size) } := by
  obtain ⟨hlimiter, hrow⟩ := hok hadmits
  refine h.writer hid rfl rfl (fun other hne => if_neg hne.symm) (fun other hother => ?_)
    (fun _ => rfl) h.numbered (fun u hu other k w size heq => ?_)
    (fun _ _ _ => List.Subperm.refl _) hlimiter fun r hr hrid hlimit => ?_
  · exact (Option.some.inj hother).symm
  · rcases List.mem_or_eq_of_mem_set hu with hu | rfl
    · exact h.opened u hu other k w size heq
    · cases heq
  · obtain ⟨hsame, hno⟩ := hrow r (Table.findById_eq_some.mpr ⟨hr, hrid⟩) hlimit
    refine Fits.sole rfl (fun j u hu _ => hno u (List.mem_of_getElem? hu)) ?_ fun k w size heq => ?_
    · have hpending : (StorageTask.allowed id dir name size).pending id = some size := if_pos rfl
      rw [hpending, Option.getD_some, ← hsame]
      exact room_of_admits hadmits (hsame ▸ hlimit)
    · cases heq

/-- **The check of a limit**. -/
theorem Inv.measure (h : Inv drivePath s) {item : Storage}
    (hidle : 0 < item.limitSize →
      s.NoWriter id ∧ (s.used drivePath id : Int) ≤ item.limitSize) :
    Inv drivePath { s with tasks := s.tasks.set i (.measured id item) } := by
  have hcontinues (other : String) (j : Nat) (u : StorageTask)
      (hj : (s.tasks.set i (.measured id item))[j]? = some u) (hp : u.pending other ≠ none) :
      Continues s other j u := by
    rcases getElem?_set_cases hj with ⟨-, rfl⟩ | ⟨-, hj⟩
    · exact absurd rfl hp
    · exact Continues.of_same hj
  refine ⟨h.names, h.numbered, fun u hu other hother => ?_, fun u hu other k w size heq => ?_,
    fun r hr hlimit => ?_, fun u hu other item' heq hlimit hother => ?_⟩
  · rcases List.mem_or_eq_of_mem_set hu with hu | rfl
    · exact h.known u hu other hother
    · cases hother
  · rcases List.mem_or_eq_of_mem_set hu with hu | rfl
    · exact h.opened u hu other k w size heq
    · cases heq
  · exact (h.fits r hr hlimit).frame (List.Subperm.refl _) (hcontinues r.id)
  · have hboth : s.NoWriter other ∧ Fits drivePath s other item'.limitSize := by
      rcases List.mem_or_eq_of_mem_set hu with hu | rfl
      · exact h.limited u hu other item' heq hlimit hother
      · cases heq
        obtain ⟨hno, hused⟩ := hidle hlimit
        exact ⟨hno, Fits.idle hno hused⟩
    exact ⟨hboth.1.frame (hcontinues other),
      hboth.2.frame (List.Subperm.refl _) (hcontinues other)⟩

/-- A storage gets a limit that it keeps. -/
theorem Inv.put (h : Inv drivePath s) {r : Storage} (hname : IsName r.id.toList)
    (hfits : 0 < r.limitSize → Fits drivePath s r.id r.limitSize) :
    Inv drivePath { s with storages := s.storages.put r } := by
  have hsame {id : String} {limit : Int} (hf : Fits drivePath s id limit) :
      Fits drivePath { s with storages := s.storages.put r } id limit :=
    ⟨hf.used, hf.room, hf.single, hf.covered⟩
  refine ⟨fun x hx => ?_, h.numbered, h.known, h.opened, fun x hx hlimit => ?_,
    fun u hu id item heq hlimit hid => ?_⟩
  · rcases Table.mem_put.mp hx with rfl | ⟨hx, -⟩
    · exact hname
    · exact h.names x hx
  · rcases Table.mem_put.mp hx with rfl | ⟨hx, -⟩
    · exact hsame (hfits hlimit)
    · exact hsame (h.fits x hx hlimit)
  · obtain ⟨hno, hf⟩ := h.limited u hu id item heq hlimit hid
    exact ⟨hno, hsame hf⟩

theorem Inv.save (h : Inv drivePath s) {item storage : Storage}
    (hi : s.tasks[i]? = some (.measured id item)) (hfind : s.storages.findById id = some storage) :
    Inv drivePath { s with
      storages := s.storages.put { storage with
        name := item.name, limitSize := item.limitSize, isShare := item.isShare }
      tasks := s.tasks.set i .finished } := by
  obtain ⟨hmem, rfl⟩ := Table.findById_eq_some.mp hfind
  have hname := h.names storage hmem
  refine (h.finish i).put hname fun hlimit => ?_
  obtain ⟨-, hfits⟩ := h.limited _ (List.mem_of_getElem? hi) storage.id item rfl hlimit hname
  refine hfits.frame (List.Subperm.refl _) fun j u hu hp => ?_
  rcases getElem?_set_cases hu with ⟨-, rfl⟩ | ⟨-, hu⟩
  · exact absurd rfl hp
  · exact Continues.of_same hu

/-! ## Steps -/

theorem shrinks_makeDir (drivePath : String) (h : s.makeDir p = some s') :
    ∃ fs', s' = { s with fs := fs' } ∧ Shrinks drivePath s.fs fs' := by
  unfold makeDir at h
  split at h
  · obtain rfl := Option.some.inj h
    exact ⟨s.fs, rfl, Shrinks.refl drivePath s.fs⟩
  · obtain ⟨fs', hmake, rfl⟩ := Option.map_eq_some_iff.mp h
    exact ⟨fs', rfl, shrinks_mkdirAll hmake⟩

/-- A copy writes what has come and goes on until it has it all. -/
theorem turn_copying {id : String} {n number written size : Nat} {r : StorageTask × StorageServer}
    (hturn : s.turn drivePath n (.copying id number written size) = some r) :
    written + n ≤ size ∧
      r = (if written + n = size then StorageTask.finished
          else .copying id number (written + n) size,
        { s with fs := s.fs.write number fun c => max c (written + n) }) := by
  have hcopy : (if written + n ≤ size then some
      (if written + n = size then StorageTask.finished
        else .copying id number (written + n) size,
      { s with fs := s.fs.write number fun c => max c (written + n) }) else none) = some r := hturn
  rw [Option.ite_none_right_eq_some] at hcopy
  exact ⟨hcopy.1, (Option.some.inj hcopy.2).symm⟩

/-- **A step of a task**. -/
theorem Inv.turn (h : Inv drivePath s) (hi : s.tasks[i]? = some t) (hok : s.KeepsTurn drivePath t)
    {n : Nat} {r : StorageTask × StorageServer} (hturn : s.turn drivePath n t = some r) :
    Inv drivePath { r.2 with tasks := s.tasks.set i r.1 } := by
  have hmem := List.mem_of_getElem? hi
  cases t with
  | upload id dir name size =>
    obtain rfl := Option.some.inj hturn
    refine h.setQuiet (Shrinks.refl drivePath s.fs)
      ⟨fun other hother => h.known _ hmem other hother, fun _ hp => absurd rfl hp, fun _ hl => ?_⟩
    cases hl
  | found id dir name size limitSize =>
    obtain rfl := Option.some.inj hturn
    cases hadmits : s.admits drivePath id size limitSize with
    | true => exact h.admit (h.known _ hmem id rfl) hadmits hok
    | false => exact h.finish i
  | allowed id dir name size =>
    rw [StorageServer.turn] at hturn
    split at hturn
    · next s₁ hmake =>
      obtain rfl := Option.some.inj hturn
      obtain ⟨pq, -, hmake⟩ := Option.bind_eq_some_iff.mp hmake
      obtain ⟨fs', rfl, hfs⟩ := shrinks_makeDir drivePath hmake
      refine h.setQuiet hfs ⟨fun other hother => h.known _ hmem other hother,
        fun other _ => ⟨_, hi, rfl, fun _ _ _ heq => ?_⟩, fun _ hl => ?_⟩
      · cases heq
      · cases hl
    · obtain rfl := Option.some.inj hturn
      exact h.finish i
  | placed id dir name size =>
    rw [StorageServer.turn] at hturn
    have hid := h.known _ hmem id rfl
    split at hturn
    · next pq hpaths =>
      obtain rfl := Option.some.inj hturn
      have hpending : (StorageTask.placed id dir name size).pending id = some size := if_pos rfl
      have hwriter : (StorageTask.placed id dir name size).pending id ≠ none := by
        rw [hpending]
        exact Option.some_ne_none size
      refine h.openFor hid (inStorage_of_paths hid hpaths).2 (fun _ => h.noLimiter hid hi hwriter)
        fun _ r hr hrid hlimit => ?_
      have hfits : Fits drivePath s id r.limitSize := hrid ▸ h.fits r hr hlimit
      have hroom := hfits.room _ hmem size hpending
      exact ⟨hfits.noOther hi hwriter, by omega⟩
    · obtain rfl := Option.some.inj hturn
      exact h.finish i
  | edit id file size =>
    rw [StorageServer.turn] at hturn
    have hid := h.known _ hmem id rfl
    split at hturn
    · next p hpath =>
      obtain rfl := Option.some.inj hturn
      refine h.openFor hid (inStorage_of_path hid hpath) (fun hopens => (hok p hpath hopens).1)
        fun hopens r hr hrid hlimit => ?_
      obtain ⟨hno, hroom⟩ := (hok p hpath hopens).2 r (Table.findById_eq_some.mpr ⟨hr, hrid⟩) hlimit
      exact ⟨fun j u hu _ => hno u (List.mem_of_getElem? hu), hroom⟩
    · obtain rfl := Option.some.inj hturn
      exact h.finish i
  | copying id number written size =>
    obtain ⟨hn, rfl⟩ := turn_copying hturn
    exact h.copy hi hn
  | update id item =>
    rw [StorageServer.turn] at hturn
    split at hturn
    · next d hd =>
      obtain rfl := Option.some.inj hturn
      by_cases hover : 0 < item.limitSize ∧ item.limitSize < d
      · simp only [if_pos hover]
        exact h.finish i
      · simp only [if_neg hover]
        refine h.measure fun hlimit => ?_
        have hle : (d : Int) ≤ item.limitSize := by omega
        obtain ⟨hsame, hno⟩ := hok d hd hlimit hle
        refine ⟨hno, ?_⟩
        rw [hsame] at hd
        rw [used_of_dirSize hd]
        exact hle
    · obtain rfl := Option.some.inj hturn
      exact h.finish i
  | measured id item =>
    rw [StorageServer.turn] at hturn
    split at hturn
    · next storage hfind =>
      obtain rfl := Option.some.inj hturn
      exact h.save hi hfind
    · obtain rfl := Option.some.inj hturn
      exact h.finish i
  | finished => cases hturn

/-- A request that arrives. -/
theorem Inv.arrive (h : Inv drivePath s) (hknown : ∀ id ∈ storageOf t, IsName id.toList)
    (hpending : ∀ id, t.pending id = none) (hlimits : ∀ id, t.limits id = false) :
    Inv drivePath (s.arrive t) := by
  refine h.frame rfl (Shrinks.refl drivePath s.fs) fun j u hu => ?_
  have hu : (s.tasks ++ [t])[j]? = some u := hu
  rw [List.getElem?_append] at hu
  split at hu
  · exact h.quiet hu
  · obtain rfl := List.mem_singleton.mp (List.mem_of_getElem? hu)
    refine ⟨hknown, fun id hp => absurd (hpending id) hp, fun id hl => ?_⟩
    rw [hlimits id] at hl
    cases hl

/-- Only the ids of storages are permitted. -/
theorem exists_of_permits {account : User} (h : s.permits account id = true) :
    ∃ storage ∈ s.storages, storage.id = id := by
  unfold permits at h
  split at h
  · next storage hfind => exact ⟨storage, Table.findById_eq_some.mp hfind⟩
  · cases h

theorem Inv.name_of_permits (h : Inv drivePath s) {account : User}
    (hpermits : s.permits account id = true) : IsName id.toList := by
  obtain ⟨storage, hmem, rfl⟩ := exists_of_permits hpermits
  exact h.names storage hmem

/-- Only the size of an upload is misread. -/
theorem misread_cases (h : s.misread i t = some s') : ∃ id dir name size,
    t = .upload id dir name size ∧
      s' = { s with tasks := s.tasks.set i (.found id dir name size 0) } := by
  unfold StorageServer.misread at h
  split at h
  · next id dir name size => exact ⟨id, dir, name, size, rfl, (Option.some.inj h).symm⟩
  · cases h

theorem step_fail (h : s.step drivePath (.fail i) = some s') :
    s' = { s with tasks := s.tasks.set i .finished } := by
  have hfail : (if i < s.tasks.length then
      some { s with tasks := s.tasks.set i .finished } else none) = some s' := h
  rw [Option.ite_none_right_eq_some] at hfail
  exact (Option.some.inj hfail.2).symm

theorem Inv.operate (h : Inv drivePath s) {fs? : Option (FileSystem Nat)}
    (hfs : ∀ fs' ∈ fs?, Shrinks drivePath s.fs fs') : Inv drivePath (s.operate fs?) := by
  refine h.frame rfl ?_ fun j u hu => h.quiet hu
  cases fs? with
  | none => exact Shrinks.refl drivePath s.fs
  | some fs' => exact hfs fs' rfl

theorem Inv.step {a : StorageAction} (h : Inv drivePath s) (hok : s.KeepsQuota drivePath a)
    (hstep : s.step drivePath a = some s') : Inv drivePath s' := by
  cases a with
  | upload account id dir name size =>
    obtain rfl := Option.some.inj hstep
    split
    · next hpermits =>
      refine h.arrive (fun other hother => ?_) (fun _ => rfl) fun _ => rfl
      exact Option.some.inj hother ▸ h.name_of_permits hpermits
    · exact h
  | edit account id file size =>
    obtain rfl := Option.some.inj hstep
    split
    · next hpermits =>
      refine h.arrive (fun other hother => ?_) (fun _ => rfl) fun _ => rfl
      exact Option.some.inj hother ▸ h.name_of_permits hpermits
    · exact h
  | update id item =>
    obtain rfl := Option.some.inj hstep
    refine h.arrive (fun other hother => ?_) (fun _ => rfl) fun _ => rfl
    cases hother
  | advance i n =>
    obtain ⟨t, ht, hstep⟩ := Option.bind_eq_some_iff.mp hstep
    obtain ⟨r, hturn, rfl⟩ := Option.map_eq_some_iff.mp hstep
    exact h.turn ht (hok t ht) hturn
  | misread i =>
    obtain ⟨t, ht, hstep⟩ := Option.bind_eq_some_iff.mp hstep
    obtain ⟨id, dir, name, size, rfl, rfl⟩ := misread_cases hstep
    refine h.setQuiet (Shrinks.refl drivePath s.fs) ⟨fun other hother =>
      h.known _ (List.mem_of_getElem? ht) other hother, fun _ hp => absurd rfl hp, fun _ hl => ?_⟩
    cases hl
  | fail i =>
    obtain rfl := step_fail hstep
    exact h.finish i
  | mkDir account id dir =>
    obtain rfl := Option.some.inj hstep
    split
    · refine h.operate fun fs' hfs' => ?_
      obtain ⟨p, -, hmake⟩ := Option.bind_eq_some_iff.mp hfs'
      exact shrinks_mkdirAll hmake
    · exact h
  | rm account id file =>
    obtain rfl := Option.some.inj hstep
    split
    · refine h.operate fun fs' hfs' => ?_
      obtain ⟨p, -, rfl⟩ := Option.map_eq_some_iff.mp hfs'
      exact shrinks_removeAll s.fs p
    · exact h
  | rename account id oldName newName =>
    obtain rfl := Option.some.inj hstep
    split
    · next hpermits =>
      have hid := h.name_of_permits hpermits
      refine h.operate fun fs' hfs' => ?_
      obtain ⟨pq, hpaths, hrename⟩ := Option.bind_eq_some_iff.mp hfs'
      obtain ⟨hp, hq⟩ := inStorage_of_paths hid hpaths
      exact shrinks_rename hid hp hq hrename
    · exact h

/-! ## Runs -/

theorem Initial.inv (h : Initial drivePath s) : Inv drivePath s := by
  have hno (t : StorageTask) (ht : t ∈ s.tasks) : False := by
    rw [h.tasks] at ht
    exact absurd ht List.not_mem_nil
  refine ⟨h.names, h.numbered, fun t ht => (hno t ht).elim, fun t ht => (hno t ht).elim,
    fun r hr hlimit => ?_, fun t ht => (hno t ht).elim⟩
  exact Fits.idle (fun t ht => (hno t ht).elim) (h.limits r hr hlimit)

end

/-! ## Two runs -/

/-- A storage for ten bytes, and its empty directory. -/
def tenBytes : StorageServer :=
  { storages := ⟨[{ id := "a1", limitSize := 10 }], by decide⟩
    fs := { dirs := [location "/drive/a1"] } }

theorem initial_tenBytes : Initial "/drive" tenBytes := by
  refine ⟨?_, ⟨List.nodup_nil, fun e he => absurd he List.not_mem_nil⟩, rfl, by decide⟩
  intro r hr
  obtain rfl := List.mem_singleton.mp hr
  decide

def admin : User := { type := nd.typeAdmin }

/-- An upload of four bytes in two pieces, an edit to six bytes, and a limit of eight bytes. -/
def oneAfterAnother : List StorageAction :=
  [.upload admin "a1" "docs" "f" 4, .advance 0 0, .advance 0 0, .advance 0 0, .advance 0 0,
    .advance 0 1, .advance 0 3, .edit admin "a1" "docs/f" 6, .advance 1 0, .advance 1 6,
    .update "a1" { id := "a1", limitSize := 8 }, .advance 2 0, .advance 2 0]

/-- An edit that writes more than the storage may hold. -/
def longEdit : List StorageAction :=
  [.edit admin "a1" "notes" 11, .advance 0 0, .advance 0 11]

end StorageServer

end NextDBM
