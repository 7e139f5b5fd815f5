import NextDBM.Files.Proofs.QuotaProofs
import NextDBM.Files.SessionFiles

/-!
# Proofs: files of the sessions

Whatever a step does to the file system, it does for one storage, and inside its directory. So the
files of a storage stay as they are while nobody asks for it. A session without a storage works in the
drive itself.
-/

namespace NextDBM

open FilePath FilePath.FileSystem Relational Transition StorageService StorageServer

namespace SessionFiles

section

attribute [local irreducible] location

variable {drivePath id x : String} {fs fs' : FileSystem Nat} {p q : Path} {k : Nat}
  {P : String → Prop} {escapes : Prop} {s s' : StorageServer} {t u : StorageTask}

/-! ## Effects on the file system -/

/-- What is done to the file system for one of the storages `P`; only a deletion of the whole drive
escapes. -/
inductive Effect (drivePath : String) (P : String → Prop) (escapes : Prop) (fs : FileSystem Nat) :
    FileSystem Nat → Prop
  | same : Effect drivePath P escapes fs fs
  | makeDir {p : Path} {fs' : FileSystem Nat} (h : fs.mkdirAll p = some fs') :
    Effect drivePath P escapes fs fs'
  | openFile {id : String} {p : Path} {fs' : FileSystem Nat} (hid : P id)
    (hp : InStorage drivePath id p) (h : fs.openFile p (fun _ => 0) = some fs') :
    Effect drivePath P escapes fs fs'
  | write {id : String} {k : Nat} (hid : P id) (hopened : Opened drivePath fs id k) (g : Nat → Nat) :
    Effect drivePath P escapes fs (fs.write k g)
  | removeAll {id : String} {p : Path} (hid : P id) (hp : InStorage drivePath id p)
    (hescapes : p = location drivePath → escapes) : Effect drivePath P escapes fs (fs.removeAll p)
  | rename {id : String} {p q : Path} {fs' : FileSystem Nat} (hid : P id)
    (hp : InStorage drivePath id p) (hq : InStorage drivePath id q) (h : fs.rename p q = some fs') :
    Effect drivePath P escapes fs fs'

/-- An effect deletes or moves files, or opens one, or writes to one. -/
theorem Effect.forms (hP : ∀ id, P id → IsName id.toList) (h : Effect drivePath P escapes fs fs') :
    StorageServer.Shrinks drivePath fs fs' ∨ (∃ p, fs.openFile p (fun _ => 0) = some fs') ∨
      ∃ k g, fs' = fs.write k g := by
  cases h with
  | same => exact .inl (StorageServer.Shrinks.refl drivePath fs)
  | makeDir h => exact .inl (shrinks_mkdirAll h)
  | openFile _ _ h => exact .inr (.inl ⟨_, h⟩)
  | write _ _ g => exact .inr (.inr ⟨_, g, rfl⟩)
  | removeAll => exact .inl (shrinks_removeAll fs _)
  | rename hid hp hq h => exact .inl (shrinks_rename (hP _ hid) hp hq h)

theorem Effect.numbered (hP : ∀ id, P id → IsName id.toList) (h : Effect drivePath P escapes fs fs')
    (hfs : fs.Numbered) : fs'.Numbered := by
  rcases h.forms hP with hshrinks | ⟨p, hopen⟩ | ⟨k, g, rfl⟩
  · exact hfs.of_subperm hshrinks.all hshrinks.next
  · exact hfs.openFile hopen
  · exact hfs.write k g

theorem Effect.opened (hP : ∀ id, P id → IsName id.toList) (h : Effect drivePath P escapes fs fs')
    (hid : IsName id.toList) (hopened : Opened drivePath fs id k) : Opened drivePath fs' id k := by
  rcases h.forms hP with hshrinks | ⟨p, hopen⟩ | ⟨j, g, rfl⟩
  · exact hopened.shrink hid hshrinks
  · exact hopened.openFile hopen
  · exact hopened.write g

/-- The files of the storage `x` are the same. -/
def Kept (drivePath x : String) (fs fs' : FileSystem Nat) : Prop :=
  ∀ f : File Nat, (root drivePath x).Within f.path → (f ∈ fs'.files ↔ f ∈ fs.files)

theorem Kept.refl (fs : FileSystem Nat) : Kept drivePath x fs fs := fun _ _ => Iff.rfl

/-- A path for another storage is not that of a file of `x`. -/
theorem ne_of_inStorage (hx : IsName x.toList) (hid : IsName id.toList) (hne : id ≠ x)
    (hp : InStorage drivePath id p) (hq : (root drivePath x).Within q) : q ≠ p := by
  rintro rfl
  rcases hp with hp | rfl
  · exact not_within_other hid hx hne hp hq
  · exact not_root_within_drive hx hq

theorem not_within_of_within (hx : IsName x.toList) (hid : IsName id.toList) (hne : id ≠ x)
    (hp : (root drivePath id).Within p) (hq : (root drivePath x).Within q) : ¬ p.Within q :=
  fun h => not_within_other hid hx hne (Path.within_trans hp h) hq

/-- **Frame**: what is done for other storages keeps the files of `x`. -/
theorem Effect.kept (hx : IsName x.toList) (hP : ∀ id, P id → IsName id.toList ∧ id ≠ x)
    (hescapes : ¬ escapes) (h : Effect drivePath P escapes fs fs') : Kept drivePath x fs fs' := by
  intro f hf
  cases h with
  | same => exact Iff.rfl
  | makeDir h =>
    rw [files_mkdirAll h]
  | openFile hid hp h =>
    obtain ⟨hname, hne⟩ := hP _ hid
    have hpath := ne_of_inStorage hx hname hne hp hf
    rw [mem_openFile h]
    exact ⟨fun hor => hor.elim (fun hnew => absurd hnew.1 hpath) And.left, fun hold => .inr ⟨hold, hpath⟩⟩
  | write hid hopened g =>
    obtain ⟨hname, hne⟩ := hP _ hid
    refine mem_write_of_ne (P := (root drivePath x).Within) hf fun f' hf' hnumber hin => ?_
    exact ne_of_inStorage hx hname hne (hopened.2 f' hf' hnumber) hin rfl
  | removeAll hid hp hdrive =>
    obtain ⟨hname, hne⟩ := hP _ hid
    rw [mem_removeAll, and_iff_left]
    rcases hp with hp | hp
    · exact not_within_of_within hx hname hne hp hf
    · exact absurd (hdrive hp) hescapes
  | @rename id p q _ hid hp hq h =>
    obtain ⟨hname, hne⟩ := hP _ hid
    refine mem_rename_of_ne h ⟨ne_of_inStorage hx hname hne hp hf, ne_of_inStorage hx hname hne hq hf⟩
      fun hisDir hnot => ?_
    rcases hp with hp | rfl
    · refine ⟨not_within_of_within hx hname hne hp hf, ?_⟩
      rcases hq with hq | rfl
      · exact not_within_of_within hx hname hne hq hf
      · -- The drive is a directory, and nothing is renamed to it.
        have hdir := isDir_drive_of_within hname hp (.inr hisDir)
        rw [(rename_guard h).1] at hdir
        cases hdir
    · rcases hq with hq | rfl
      · exact absurd (Path.within_trans (drive_within_root hname) hq) hnot
      · exact absurd (Path.within_refl _) hnot

/-! ## Steps of the storages -/

/-- The storages have names, and what is open is in its storage. -/
structure Sound (drivePath : String) (s : StorageServer) : Prop where
  names : ∀ r ∈ s.storages, IsName r.id.toList
  numbered : s.fs.Numbered
  known : ∀ t ∈ s.tasks, ∀ id ∈ storageOf t, IsName id.toList
  opened : ∀ t ∈ s.tasks, ∀ id k written size, t = .copying id k written size →
    Opened drivePath s.fs id k

/-- No task is about the storage. -/
def Idle (x : String) (s : StorageServer) : Prop := ∀ t ∈ s.tasks, x ∉ storageOf t

/-- A step for one of the storages `P`. -/
structure Acts (drivePath : String) (P : String → Prop) (escapes : Prop) (s s' : StorageServer) :
    Prop where
  names : (∀ r ∈ s.storages, IsName r.id.toList) → ∀ r ∈ s'.storages, IsName r.id.toList
  fs : Effect drivePath P escapes s.fs s'.fs
  tasks : ∀ u ∈ s'.tasks, u ∈ s.tasks ∨ (∀ id ∈ storageOf u, P id) ∧
    ∀ id k written size, u = .copying id k written size → Opened drivePath s'.fs id k

theorem Acts.sound (hP : ∀ id, P id → IsName id.toList) (hacts : Acts drivePath P escapes s s')
    (h : Sound drivePath s) : Sound drivePath s' := by
  refine ⟨hacts.names h.names, hacts.fs.numbered hP h.numbered, fun u hu id hid => ?_,
    fun u hu id k written size heq => ?_⟩
  · rcases hacts.tasks u hu with hold | ⟨hnew, -⟩
    · exact h.known u hold id hid
    · exact hP id (hnew id hid)
  · rcases hacts.tasks u hu with hold | ⟨-, hopened⟩
    · have hid : IsName id.toList := h.known u hold id (by rw [heq]; rfl)
      exact hacts.fs.opened hP hid (h.opened u hold id k written size heq)
    · exact hopened id k written size heq

theorem Acts.elsewhere (hx : IsName x.toList) (hP : ∀ id, P id → IsName id.toList ∧ id ≠ x)
    (hescapes : ¬ escapes) (hacts : Acts drivePath P escapes s s') (hidle : Idle x s) :
    Idle x s' ∧ Kept drivePath x s.fs s'.fs := by
  refine ⟨fun u hu hin => ?_, hacts.fs.kept hx hP hescapes⟩
  rcases hacts.tasks u hu with hold | ⟨hnew, -⟩
  · exact hidle u hold hin
  · exact (hP x (hnew x hin)).2 rfl

theorem Acts.refl (s : StorageServer) : Acts drivePath P escapes s s :=
  ⟨fun h => h, .same, fun _ hu => .inl hu⟩

/-- A task goes on. -/
theorem Acts.set {i : Nat} (hnames : (∀ r ∈ s.storages, IsName r.id.toList) →
      ∀ r ∈ s'.storages, IsName r.id.toList)
    (hfs : Effect drivePath P escapes s.fs s'.fs) (hstorage : ∀ id ∈ storageOf t, P id)
    (hopened : ∀ id k written size, t = .copying id k written size → Opened drivePath s'.fs id k) :
    Acts drivePath P escapes s { s' with tasks := s.tasks.set i t } := by
  refine ⟨hnames, hfs, fun u hu => ?_⟩
  rcases List.mem_or_eq_of_mem_set hu with hold | rfl
  · exact .inl hold
  · exact .inr ⟨hstorage, hopened⟩

theorem Acts.finish (s : StorageServer) (i : Nat) :
    Acts drivePath P escapes s { s with tasks := s.tasks.set i .finished } := by
  refine Acts.set (fun h => h) .same (fun id hid => ?_) fun id k written size heq => ?_
  · cases hid
  · cases heq

theorem Acts.arrive (hstorage : ∀ id ∈ storageOf t, P id)
    (hnew : ∀ id k written size, t ≠ .copying id k written size) :
    Acts drivePath P escapes s (s.arrive t) := by
  refine ⟨fun h => h, .same, fun u hu => ?_⟩
  rcases List.mem_append.mp hu with hold | hlast
  · exact .inl hold
  · obtain rfl := List.mem_singleton.mp hlast
    exact .inr ⟨hstorage, fun id k written size heq => absurd heq (hnew id k written size)⟩

theorem Acts.operate {fs? : Option (FileSystem Nat)}
    (hfs : ∀ fs' ∈ fs?, Effect drivePath P escapes s.fs fs') :
    Acts drivePath P escapes s (s.operate fs?) := by
  refine ⟨fun h => h, ?_, fun u hu => .inl hu⟩
  cases fs? with
  | none => exact .same
  | some fs' => exact hfs fs' rfl

/-- An upload or an edit begins to copy. -/
theorem Acts.openFor {i size : Nat} (h : Sound drivePath s) (hid : P id)
    (hp : InStorage drivePath id p) : Acts drivePath P escapes s { (s.openFor id size p).2 with
      tasks := s.tasks.set i (s.openFor id size p).1 } := by
  unfold StorageServer.openFor
  cases hopen : s.fs.openFile p fun _ => 0 with
  | none => exact Acts.finish s i
  | some fs' =>
    refine Acts.set (fun hn => hn) (.openFile hid hp hopen)
      (fun other hother => Option.some.inj hother ▸ hid) fun other k written size' heq => ?_
    cases heq
    exact opened_openFile h.numbered hp hopen

theorem Effect.mono {Q : String → Prop} {escapes' : Prop} (hPQ : ∀ id, P id → Q id)
    (hescapes : escapes → escapes') (h : Effect drivePath P escapes fs fs') :
    Effect drivePath Q escapes' fs fs' := by
  cases h with
  | same => exact .same
  | makeDir h => exact .makeDir h
  | openFile hid hp h => exact .openFile (hPQ _ hid) hp h
  | write hid hopened g => exact .write (hPQ _ hid) hopened g
  | removeAll hid hp hdrive => exact .removeAll (hPQ _ hid) hp fun heq => hescapes (hdrive heq)
  | rename hid hp hq h => exact .rename (hPQ _ hid) hp hq h

theorem Acts.mono {Q : String → Prop} {escapes' : Prop} (hPQ : ∀ id, P id → Q id)
    (hescapes : escapes → escapes') (h : Acts drivePath P escapes s s') :
    Acts drivePath Q escapes' s s' := by
  refine ⟨h.names, h.fs.mono hPQ hescapes, fun u hu => ?_⟩
  rcases h.tasks u hu with hold | ⟨hnew, hopened⟩
  · exact .inl hold
  · exact .inr ⟨fun id hid => hPQ id (hnew id hid), hopened⟩

/-- The directory of an upload is made. -/
theorem acts_allowed {id dir name : String} {i n size : Nat} {r : StorageTask × StorageServer}
    (hturn : s.turn drivePath n (.allowed id dir name size) = some r) :
    Acts drivePath (fun other => other ∈ some id) False s { r.2 with tasks := s.tasks.set i r.1 } := by
  rw [StorageServer.turn] at hturn
  split at hturn
  · next s₁ hmake =>
    obtain rfl := Option.some.inj hturn
    obtain ⟨pq, -, hmake⟩ := Option.bind_eq_some_iff.mp hmake
    unfold makeDir at hmake
    have hfs : Effect drivePath (fun other => other ∈ some id) False s.fs s₁.fs ∧
        s₁.storages = s.storages := by
      split at hmake
      · obtain rfl := Option.some.inj hmake
        exact ⟨.same, rfl⟩
      · obtain ⟨fs', hdir, rfl⟩ := Option.map_eq_some_iff.mp hmake
        exact ⟨.makeDir hdir, rfl⟩
    refine Acts.set (fun hn => hfs.2 ▸ hn) hfs.1 (fun other hother => hother)
      fun other k w size' heq => ?_
    cases heq
  · obtain rfl := Option.some.inj hturn
    exact Acts.finish s i

/-- A copy writes to the file that it has open. -/
theorem acts_copying {id : String} {i n number written size : Nat}
    {r : StorageTask × StorageServer} (hopened : Opened drivePath s.fs id number)
    (hturn : s.turn drivePath n (.copying id number written size) = some r) :
    Acts drivePath (fun other => other ∈ some id) False s { r.2 with tasks := s.tasks.set i r.1 } := by
  obtain ⟨-, rfl⟩ := turn_copying hturn
  have hid : id ∈ some id := rfl
  refine Acts.set (fun hn => hn) (.write hid hopened fun c => max c (written + n))
    (fun other hother => ?_) fun other k w size' heq => ?_
  · split at hother
    · cases hother
    · exact hother
  · split at heq
    · cases heq
    · cases heq
      exact hopened.write _

/-- **A step of a task** is for its storage. -/
theorem acts_turn (h : Sound drivePath s) {i n : Nat} (hi : s.tasks[i]? = some t)
    {r : StorageTask × StorageServer} (hturn : s.turn drivePath n t = some r) :
    Acts drivePath (fun id => id ∈ storageOf t) False s { r.2 with tasks := s.tasks.set i r.1 } := by
  have hmem := List.mem_of_getElem? hi
  cases t with
  | upload id dir name size =>
    obtain rfl := Option.some.inj hturn
    refine Acts.set (fun hn => hn) .same (fun other hother => hother) fun other k w size' heq => ?_
    cases heq
  | found id dir name size limitSize =>
    obtain rfl := Option.some.inj hturn
    cases s.admits drivePath id size limitSize with
    | true =>
      refine Acts.set (fun hn => hn) .same (fun other hother => hother) fun other k w size' heq => ?_
      cases heq
    | false => exact Acts.finish s i
  | allowed id dir name size => exact acts_allowed hturn
  | placed id dir name size =>
    rw [StorageServer.turn] at hturn
    split at hturn
    · next pq hpaths =>
      obtain rfl := Option.some.inj hturn
      exact Acts.openFor h rfl (inStorage_of_paths (h.known _ hmem id rfl) hpaths).2
    · obtain rfl := Option.some.inj hturn
      exact Acts.finish s i
  | edit id file size =>
    rw [StorageServer.turn] at hturn
    split at hturn
    · next p hpath =>
      obtain rfl := Option.some.inj hturn
      exact Acts.openFor h rfl (inStorage_of_path (h.known _ hmem id rfl) hpath)
    · obtain rfl := Option.some.inj hturn
      exact Acts.finish s i
  | copying id number written size =>
    exact acts_copying (h.opened _ hmem id number written size rfl) hturn
  | update id item =>
    rw [StorageServer.turn] at hturn
    split at hturn
    · obtain rfl := Option.some.inj hturn
      refine Acts.set (fun hn => hn) .same (fun other hother => ?_) fun other k w size' heq => ?_
      · split at hother
        · cases hother
        · cases hother
      · split at heq
        · cases heq
        · cases heq
    · obtain rfl := Option.some.inj hturn
      exact Acts.finish s i
  | measured id item =>
    rw [StorageServer.turn] at hturn
    split at hturn
    · next storage hfind =>
      obtain rfl := Option.some.inj hturn
      refine Acts.set (fun hn r hr => ?_) .same (fun other hother => ?_) fun other k w size' heq => ?_
      · rcases Table.mem_put.mp hr with rfl | ⟨hr, -⟩
        · exact hn storage (Table.findById_eq_some.mp hfind).1
        · exact hn r hr
      · cases hother
      · cases heq
    · obtain rfl := Option.some.inj hturn
      exact Acts.finish s i
  | finished => cases hturn

theorem ne_drive_of_staysDown (hid : IsName id.toList) {file : String}
    (hpath : StorageServer.path drivePath id (.rm file) = some p) (hdown : StaysDown file) :
    p ≠ location drivePath := by
  unfold StorageServer.path at hpath
  split at hpath
  · next f htargets =>
    obtain rfl := Option.some.inj hpath
    obtain ⟨hpaths, hlegal⟩ := targets_ok htargets
    obtain rfl := List.singleton_inj.mp hpaths
    exact ((inside_iff hid (hlegal file List.mem_cons_self)).mpr hdown).notDrive
  · cases hpath

/-- **A request** is for its storage, and only a deletion can escape. -/
theorem acts_perform (hid : IsName id.toList) (s : StorageServer) (size : Nat) (r : StorageRequest) :
    Acts drivePath (· = id) (Escapes r) s (s.perform drivePath id size r) := by
  cases r with
  | upload dir name =>
    refine Acts.arrive (fun other hother => (Option.some.inj hother).symm) fun other k w size' heq => ?_
    cases heq
  | edit file =>
    refine Acts.arrive (fun other hother => (Option.some.inj hother).symm) fun other k w size' heq => ?_
    cases heq
  | mkDir dir =>
    refine Acts.operate fun fs' hfs' => ?_
    obtain ⟨p, -, hmake⟩ := Option.bind_eq_some_iff.mp hfs'
    exact .makeDir hmake
  | rm file =>
    refine Acts.operate fun fs' hfs' => ?_
    obtain ⟨p, hpath, rfl⟩ := Option.map_eq_some_iff.mp hfs'
    refine .removeAll rfl (inStorage_of_path hid hpath) fun hdrive => ⟨file, rfl, fun hdown => ?_⟩
    exact ne_drive_of_staysDown hid hpath hdown hdrive
  | rename oldName newName =>
    refine Acts.operate fun fs' hfs' => ?_
    obtain ⟨pq, hpaths, hrename⟩ := Option.bind_eq_some_iff.mp hfs'
    obtain ⟨hp, hq⟩ := inStorage_of_paths hid hpaths
    exact .rename rfl hp hq hrename
  | download file => exact Acts.refl s
  | ls dir => exact Acts.refl s

/-- The storages that an action is about: that of a request that is permitted, or that of a task. -/
def Concerns (s : StorageServer) (a : StorageAction) (id : String) : Prop :=
  (∃ account r, asked a = some (account, id, r) ∧ s.permits account id = true) ∨
    ∃ t ∈ s.tasks, id ∈ storageOf t

def Flees (s : StorageServer) (a : StorageAction) : Prop :=
  ∃ account id r, asked a = some (account, id, r) ∧ s.permits account id = true ∧ Escapes r

theorem Sound.name_of_permits (h : Sound drivePath s) {account : User}
    (hpermits : s.permits account id = true) : IsName id.toList := by
  obtain ⟨storage, hmem, rfl⟩ := exists_of_permits hpermits
  exact h.names storage hmem

theorem name_of_concerns (h : Sound drivePath s) {a : StorageAction} (hid : Concerns s a id) :
    IsName id.toList := by
  rcases hid with ⟨account, r, -, hpermits⟩ | ⟨t, ht, hin⟩
  · exact h.name_of_permits hpermits
  · exact h.known t ht id hin

/-- A request with the id of a storage. -/
theorem acts_asked (h : Sound drivePath s) {a : StorageAction} {account : User} (size : Nat)
    (r : StorageRequest) (hasked : asked a = some (account, id, r)) :
    Acts drivePath (Concerns s a) (Flees s a) s
      (if s.permits account id then s.perform drivePath id size r else s) := by
  split
  · next hpermits =>
    refine (acts_perform (h.name_of_permits hpermits) s size r).mono ?_ ?_
    · rintro other rfl
      exact .inl ⟨account, r, hasked, hpermits⟩
    · exact fun hescapes => ⟨account, id, r, hasked, hpermits, hescapes⟩
  · exact Acts.refl s

theorem acts_step (h : Sound drivePath s) {a : StorageAction}
    (hstep : s.step drivePath a = some s') : Acts drivePath (Concerns s a) (Flees s a) s s' := by
  cases a with
  | upload account id dir name size =>
    obtain rfl := Option.some.inj hstep
    exact acts_asked h size (.upload dir name) rfl
  | edit account id file size =>
    obtain rfl := Option.some.inj hstep
    exact acts_asked h size (.edit file) rfl
  | update id item =>
    obtain rfl := Option.some.inj hstep
    refine Acts.arrive (fun other hother => ?_) fun other k w size' heq => ?_
    · cases hother
    · cases heq
  | advance i n =>
    obtain ⟨t, ht, hstep⟩ := Option.bind_eq_some_iff.mp hstep
    obtain ⟨r, hturn, rfl⟩ := Option.map_eq_some_iff.mp hstep
    refine (acts_turn h ht hturn).mono (fun id hid => ?_) False.elim
    exact .inr ⟨t, List.mem_of_getElem? ht, hid⟩
  | misread i =>
    obtain ⟨t, ht, hstep⟩ := Option.bind_eq_some_iff.mp hstep
    obtain ⟨id, dir, name, size, rfl, rfl⟩ := misread_cases hstep
    refine Acts.set (fun hn => hn) .same (fun other hother => ?_) fun other k w size' heq => ?_
    · exact .inr ⟨_, List.mem_of_getElem? ht, hother⟩
    · cases heq
  | fail i =>
    obtain rfl := step_fail hstep
    exact Acts.finish s i
  | mkDir account id dir =>
    obtain rfl := Option.some.inj hstep
    exact acts_asked h 0 (.mkDir dir) rfl
  | rm account id file =>
    obtain rfl := Option.some.inj hstep
    exact acts_asked h 0 (.rm file) rfl
  | rename account id oldName newName =>
    obtain rfl := Option.some.inj hstep
    exact acts_asked h 0 (.rename oldName newName) rfl

/-- A new storage. -/
theorem acts_create (s : StorageServer) (item : Storage) (hname : IsName item.id.toList)
    (served : Bool) : Acts drivePath P escapes s (s.create drivePath item served) := by
  unfold StorageServer.create
  cases hmake : s.fs.mkdirAll (root drivePath item.id) with
  | none => exact Acts.refl s
  | some fs =>
    refine ⟨fun hn r hr => ?_, .makeDir hmake, fun u hu => .inl hu⟩
    simp only at hr
    split at hr
    · cases hinsert : s.storages.insert item with
      | none =>
        rw [hinsert] at hr
        exact hn r hr
      | some storages =>
        rw [hinsert] at hr
        rcases (Table.mem_of_insert hinsert).mp hr with rfl | hr
        · exact hname
        · exact hn r hr
    · exact hn r hr

/-- A storage is deleted with its directory. -/
theorem acts_delete (h : Sound drivePath s) (force served : Bool) :
    Acts drivePath (fun other => other = id ∧ IsName id.toList) False s
      (s.delete drivePath id force served) := by
  unfold StorageServer.delete
  cases hfind : s.storages.findById id with
  | none => exact Acts.refl s
  | some storage =>
    obtain ⟨hmem, rfl⟩ := Table.findById_eq_some.mp hfind
    have hname := h.names storage hmem
    simp only
    split
    · exact Acts.refl s
    · refine ⟨fun hn r hr => ?_, .removeAll ⟨rfl, hname⟩ (.inl (Path.within_refl _)) fun hdrive => ?_,
        fun u hu => .inl hu⟩
      · simp only at hr
        split at hr
        · exact hn r (Table.mem_deleteWhere.mp hr).1
        · exact hn r hr
      · have hin : (root drivePath storage.id).Within (location drivePath) := by
          rw [hdrive]
          exact Path.within_refl _
        exact not_root_within_drive hname hin

/-! ## Steps of the sessions -/

/-- The storages have names, what is open is in its storage, and the sessions of remote desktops have
storages. -/
structure Ready (drivePath : String) (s : State) : Prop where
  server : Sound drivePath s.server
  driven : Driven s.sessions

/-- A session that works in a storage is one of a remote desktop that has it. -/
theorem endpoint_eq_storage {s : State} {sessionId : String} {account : Option User} {connected : Bool}
    {r : StorageRequest} (h : (s.endpoint sessionId account connected r).1 = .storage id) :
    ∃ session ∈ s.sessions, session.id = sessionId ∧ nd.rdp = session.protocol ∧
      session.storageId = id := by
  have hserve {session : Session} (h : serve session connected r = .storage id) :
      nd.rdp = session.protocol ∧ session.storageId = id := by
    unfold serve at h
    split at h
    · split at h
      · cases h
      · cases h
    · split at h
      · next hrdp =>
        cases h
        exact ⟨hrdp, rfl⟩
      · split at h
        · cases h
        · cases h
        · cases h
        · cases h
        · cases h
        · cases h
        · cases h
  unfold State.endpoint SessionFiles.endpoint at h
  split at h
  · cases h
  · next session hfind =>
    obtain ⟨hmem, hkey⟩ := Table.findById_eq_some.mp hfind
    refine ⟨session, hmem, hkey, ?_⟩
    split at h
    · split at h
      · exact hserve h
      · cases h
      · exact hserve h
    · cases h

/-- A request through a session. -/
theorem acts_request {s : State} (h : Ready drivePath s) (sessionId : String) (account : Option User)
    (connected saved : Bool) (size : Nat) (r : StorageRequest) :
    Acts drivePath
      (fun id => IsName id.toList ∧ (s.endpoint sessionId account connected r).1 = .storage id)
      ((∃ id, (s.endpoint sessionId account connected r).1 = .storage id) ∧ Escapes r) s.server
      (s.request drivePath sessionId account connected saved size r).server := by
  show Acts drivePath _ _ s.server
    (proceed drivePath s.server size r (s.endpoint sessionId account connected r).1)
  cases hending : (s.endpoint sessionId account connected r).1 with
  | storage id =>
    obtain ⟨session, hmem, -, hrdp, rfl⟩ := endpoint_eq_storage hending
    have hname := h.driven session hmem hrdp
    refine (acts_perform hname s.server size r).mono ?_ fun hescapes => ⟨⟨_, rfl⟩, hescapes⟩
    rintro other rfl
    exact ⟨hname, rfl⟩
  | error err => exact Acts.refl s.server
  | panics => exact Acts.refl s.server
  | silent => exact Acts.refl s.server

/-- **A step** acts for storages with names, and an action elsewhere acts for other ones than `x`. -/
theorem step_acts {s s' : State} (h : Ready drivePath s) {a : Action} (hok : Proper s a)
    (hstep : step drivePath s a = some s') : Driven s'.sessions ∧ ∃ (P : String → Prop) (escapes : Prop),
      (∀ id, P id → IsName id.toList) ∧ Acts drivePath P escapes s.server s'.server ∧
        (Elsewhere x s a → Idle x s.server → (∀ id, P id → id ≠ x) ∧ ¬ escapes) := by
  cases a with
  | storage a =>
    obtain ⟨server, hserver, rfl⟩ := Option.map_eq_some_iff.mp hstep
    refine ⟨h.driven, _, _, fun id => name_of_concerns h.server, acts_step h.server hserver,
      fun helsewhere hidle => ⟨?_, ?_⟩⟩
    · rintro id (⟨account, r, hasked, hpermits⟩ | ⟨t, ht, hin⟩)
      · exact (helsewhere account id r hasked hpermits).1
      · rintro rfl
        exact hidle t ht hin
    · rintro ⟨account, id, r, hasked, hpermits, hescapes⟩
      exact (helsewhere account id r hasked hpermits).2 hescapes
  | session sessionId account connected saved size r =>
    obtain rfl := Option.some.inj hstep
    refine ⟨h.driven, _, _, fun id hid => hid.1, acts_request h sessionId account connected saved size r,
      fun helsewhere _ => ⟨fun id hid => (helsewhere id hid.2).1, ?_⟩⟩
    rintro ⟨⟨id, hid⟩, hescapes⟩
    exact (helsewhere id hid).2 hescapes
  | create uuid account item served =>
    obtain rfl := Option.some.inj hstep
    refine ⟨h.driven, fun _ => False, False, fun _ hid => hid.elim, ?_,
      fun _ _ => ⟨fun _ hid => hid.elim, not_false⟩⟩
    exact acts_create s.server { item with id := uuid, owner := account.id } hok served
  | delete id force served =>
    obtain rfl := Option.some.inj hstep
    refine ⟨h.driven, fun other => other = id ∧ IsName id.toList, False, ?_,
      acts_delete h.server force served, fun helsewhere _ => ⟨?_, not_false⟩⟩
    · rintro other ⟨rfl, hname⟩
      exact hname
    · rintro other ⟨rfl, -⟩
      exact helsewhere
  | sessions sessions =>
    obtain rfl := Option.some.inj hstep
    exact ⟨hok, fun _ => False, False, fun _ hid => hid.elim, Acts.refl s.server,
      fun _ _ => ⟨fun _ hid => hid.elim, not_false⟩⟩

theorem Ready.step {s s' : State} (h : Ready drivePath s) {a : Action} (hok : Proper s a)
    (hstep : SessionFiles.step drivePath s a = some s') : Ready drivePath s' := by
  obtain ⟨hdriven, P, escapes, hP, hacts, -⟩ := step_acts (x := "") h hok hstep
  exact ⟨hacts.sound hP h.server, hdriven⟩

theorem Initial.ready {s : State} (h : Initial s) : Ready drivePath s := by
  have hno (t : StorageTask) (ht : t ∈ s.server.tasks) : False := by
    rw [h.tasks] at ht
    exact absurd ht List.not_mem_nil
  exact ⟨⟨h.names, h.numbered, fun t ht => (hno t ht).elim, fun t ht => (hno t ht).elim⟩, h.driven⟩

end

/-! ## Sessions without a storage -/

section

variable {drivePath x : String} {db db' : Database} {session : Session}

/-- A session whose file system is switched off is one of a remote desktop, and has no storage. -/
theorem create_switchedOff {uuid clientIp assetId mode : String} {user : User}
    (h : SessionService.create db uuid clientIp assetId mode user = .ok (db', session))
    (hoff : session.fileSystem = "0") : session.protocol = nd.rdp ∧ session.storageId = "" := by
  unfold SessionService.create at h
  obtain ⟨asset, -, h⟩ := bind_eq_ok.mp h
  obtain ⟨strategy, -, h⟩ := bind_eq_ok.mp h
  obtain ⟨⟨fileSystem, storageId⟩, hdrive, h⟩ := bind_eq_ok.mp h
  simp only at h
  obtain ⟨s₁, hs₁, h⟩ := bind_eq_ok.mp h
  obtain ⟨db₁, -, h⟩ := bind_eq_ok.mp h
  obtain ⟨rfl, rfl⟩ := Prod.mk.inj (Except.ok.inj h)
  have hsame : s₁.protocol = asset.protocol ∧ s₁.fileSystem = fileSystem ∧ s₁.storageId = storageId := by
    unfold SessionService.linkAccount at hs₁
    split at hs₁
    · obtain ⟨r, -, hs₁⟩ := bind_eq_ok.mp hs₁
      obtain rfl := Except.ok.inj hs₁
      unfold Session.linkCredential
      split
      · exact ⟨rfl, rfl, rfl⟩
      · exact ⟨rfl, rfl, rfl⟩
    · obtain rfl := Except.ok.inj hs₁
      exact ⟨rfl, rfl, rfl⟩
  obtain ⟨hprotocol, hsystem, hstorage⟩ := hsame
  rw [hsystem] at hoff
  rw [hprotocol, hstorage]
  unfold SessionService.drive at hdrive
  split at hdrive
  · next hrdp =>
    obtain ⟨attr, -, hdrive⟩ := bind_eq_ok.mp hdrive
    split at hdrive
    · obtain ⟨rfl, -⟩ := Prod.mk.inj (Except.ok.inj hdrive)
      exact absurd hoff (by decide)
    · obtain ⟨-, rfl⟩ := Prod.mk.inj (Except.ok.inj hdrive)
      exact ⟨hrdp.symm, rfl⟩
  · obtain ⟨rfl, -⟩ := Prod.mk.inj (Except.ok.inj hdrive)
    exact absurd hoff (by decide)

/-- The directory of the empty id is the drive. -/
theorem location_storageDir_empty (drivePath : String) :
    location (storageDir drivePath "") = location drivePath := by
  unfold location storageDir
  rw [toList_pathJoin]
  show clean (join [drivePath.toList, []]) = clean drivePath.toList
  by_cases hdrive : drivePath.toList = []
  · rw [hdrive]
    rfl
  · rw [clean_join hdrive, List.foldl_cons, List.foldl_nil, Path.walk_nil]

/-- A file of the drive that has the name of a storage is the directory of the storage. -/
theorem location_of_noStorage (hx : IsName x.toList) :
    location (pathJoin [storageDir drivePath "", x]) = root drivePath x := by
  have hempty := location_storageDir_empty drivePath
  unfold location at hempty
  unfold root
  rw [location_storageDir hx]
  unfold location
  rw [toList_pathJoin, ← hempty]
  exact clean_join_name (storageDir drivePath "").toList ⟨x.toList, hx⟩

theorem legal_of_isName (hx : IsName x.toList) : isIllegal x = false := by
  unfold isIllegal Text.hasInfix
  rw [decide_eq_false_iff_not]
  intro hdots
  exact hx.2.2.2 (hdots.subset (by simp))

end

/-! ## Two runs -/

/-- A remote desktop without a drive, and its session. -/
def desktop : Asset := { id := "d1", protocol := nd.rdp, owner := "u1", ip := "10.0.0.7", port := 3389 }

def switchedOff : Session :=
  { id := "s1", assetId := "d1", protocol := nd.rdp, ip := "10.0.0.7", port := 3389,
    status := nd.noConnect, clientIP := "10.0.0.9", mode := nd.guacd, fileSystem := "0", upload := "1",
    download := "1", delete := "1", rename := "1", edit := "1", copy := "1", paste := "1",
    creator := "u1" }

/-- Two storages with a file each, and a session that has one of them. -/
def twoStorages : State :=
  { sessions := .single { switchedOff with fileSystem := "1", storageId := "a1" }
    server :=
      { storages := (Table.single { id := "a1" }).put { id := "b1", owner := "u2" }
        fs :=
          { files := (Table.single ⟨location "/drive/a1/f", 0, 3⟩).put ⟨location "/drive/b1/f", 1, 4⟩
            next := 2 } } }

theorem initial_twoStorages : Initial twoStorages := by
  refine ⟨?_, ⟨by decide, by decide⟩, rfl, ?_⟩
  · decide
  · intro session hsession _
    obtain rfl := List.mem_singleton.mp hsession
    decide

/-- A deletion and an upload through the session, and then the storage of the session is deleted. -/
def forTheOther : List Action :=
  [.session "s1" (some { id := "u1" }) true true 0 (.rm "f"),
    .session "s1" (some { id := "u1" }) true true 2 (.upload "docs" "g"), .storage (.advance 0 0),
    .delete "a1" false true]

end SessionFiles

end NextDBM
