import NextDBM.Files.Storage
import NextDBM.Library.DiskUsage
import NextDBM.Library.Runs
import NextDBM.Model.Rows

/-!
# Sizes of the storages

The requests on the storages run beside each other, each as a task that takes one access to the
database or the file system at a time. Of a file only its size counts. `DirSize` sees a directory as
it is at one moment, and so does `RemoveAll`; a copy writes any number of bytes at a time.
-/

namespace NextDBM

open FilePath Relational StorageService

/-- A request under way. -/
inductive StorageTask
  /-- `StorageUpload`, before it reads the storage. -/
  | upload (storageId remoteDir filename : String) (size : Nat)
  /-- It has read the limit. -/
  | found (storageId remoteDir filename : String) (size : Nat) (limitSize : Int)
  /-- The file fits. -/
  | allowed (storageId remoteDir filename : String) (size : Nat)
  /-- The directory is there. -/
  | placed (storageId remoteDir filename : String) (size : Nat)
  /-- `StorageEdit`, before it opens the file. -/
  | edit (storageId file : String) (size : Nat)
  /-- Either of them, with the number of the open file and the bytes written so far. -/
  | copying (storageId : String) (number written size : Nat)
  /-- `StorageUpdateEndpoint`, with the id of the path and the body. -/
  | update (id : String) (item : Storage)
  /-- It has measured the directory. -/
  | measured (id : String) (item : Storage)
  | finished
  deriving DecidableEq

structure StorageServer where
  storages : Table Storage Storage.id := ∅
  fs : FileSystem Nat := {}
  tasks : List StorageTask := []

inductive StorageAction
  | upload (account : User) (storageId remoteDir filename : String) (size : Nat)
  | edit (account : User) (storageId file : String) (size : Nat)
  | update (id : String) (item : Storage)
  /-- The task takes its next step; a copy writes `n` bytes. -/
  | advance (i n : Nat)
  /-- The upload cannot read its storage, and goes on with the zero value. -/
  | misread (i : Nat)
  /-- The task ends with an error. -/
  | fail (i : Nat)
  | mkDir (account : User) (storageId remoteDir : String)
  | rm (account : User) (storageId file : String)
  | rename (account : User) (storageId oldName newName : String)

namespace StorageServer

/-- `PermissionCheck` -/
def permits (s : StorageServer) (account : User) (storageId : String) : Bool :=
  match s.storages.findById storageId with
  | some storage => account.type == nd.typeAdmin || storage.owner == account.id
  | none => false

/-- `utils.DirSize`, of a path that is there. -/
def dirSize (fs : FileSystem Nat) (p : Path) : Option Nat :=
  if fs.exists? p then some (fs.usage p) else none

variable (drivePath : String)

/-- The directory of a storage. -/
def root (storageId : String) : Path := location (storageDir drivePath storageId)

/-- The path of a request that has one. -/
def path (storageId : String) (r : StorageRequest) : Option Path :=
  match targets drivePath storageId r with
  | .ok [p] => some (location p)
  | _ => none

/-- The paths of a request that has two. -/
def paths (storageId : String) (r : StorageRequest) : Option (Path × Path) :=
  match targets drivePath storageId r with
  | .ok [p, q] => some (location p, location q)
  | _ => none

/-- The check of `StorageUpload`. -/
def admits (s : StorageServer) (storageId : String) (size : Nat) (limitSize : Int) : Bool :=
  if 0 < limitSize then
    match dirSize s.fs (root drivePath storageId) with
    | some d => decide (((d + size : Nat) : Int) ≤ limitSize)
    | none => false
  else true

/-- `os.Create`, and `os.OpenFile` of `StorageEdit`: the file is emptied. -/
def openFor (s : StorageServer) (storageId : String) (size : Nat) (p : Path) :
    StorageTask × StorageServer :=
  match s.fs.openFile p fun _ => 0 with
  | some fs =>
    (.copying storageId (((fs.fileAt p).map File.number).getD 0) 0 size, { s with fs })
  | none => (.finished, s)

/-- `MkdirAll`, unless something is there. -/
def makeDir (s : StorageServer) (p : Path) : Option StorageServer :=
  if s.fs.exists? p then some s else (s.fs.mkdirAll p).map fun fs => { s with fs }

/-- The next step of a task. -/
def turn (s : StorageServer) (n : Nat) : StorageTask → Option (StorageTask × StorageServer)
  | .upload id dir name size =>
    some (.found id dir name size (((s.storages.findById id).map Storage.limitSize).getD 0), s)
  | .found id dir name size limitSize =>
    some (if s.admits drivePath id size limitSize then .allowed id dir name size else .finished, s)
  | .allowed id dir name size =>
    match (paths drivePath id (.upload dir name)).bind fun p => s.makeDir p.1 with
    | some s' => some (.placed id dir name size, s')
    | none => some (.finished, s)
  | .placed id dir name size =>
    match paths drivePath id (.upload dir name) with
    | some p => some (s.openFor id size p.2)
    | none => some (.finished, s)
  | .edit id file size =>
    match path drivePath id (.edit file) with
    | some p => some (s.openFor id size p)
    | none => some (.finished, s)
  | .copying id number written size =>
    if written + n ≤ size then
      some (if written + n = size then .finished else .copying id number (written + n) size,
        { s with fs := s.fs.write number fun c => max c (written + n) })
    else none
  | .update id item =>
    match dirSize s.fs (root drivePath item.id) with
    | some d =>
      some (if 0 < item.limitSize ∧ item.limitSize < d then .finished else .measured id item, s)
    | none => some (.finished, s)
  | .measured id item =>
    match s.storages.findById id with
    | some storage =>
      some (.finished, { s with storages := s.storages.put { storage with
        name := item.name, limitSize := item.limitSize, isShare := item.isShare } })
    | none => some (.finished, s)
  | .finished => none

/-- An operation of the file system; one that fails changes nothing. -/
def operate (s : StorageServer) (fs : Option (FileSystem Nat)) : StorageServer :=
  { s with fs := fs.getD s.fs }

def storageMkDir (s : StorageServer) (storageId remoteDir : String) : StorageServer :=
  s.operate ((path drivePath storageId (.mkDir remoteDir)).bind s.fs.mkdirAll)

def storageRm (s : StorageServer) (storageId file : String) : StorageServer :=
  s.operate ((path drivePath storageId (.rm file)).map s.fs.removeAll)

def storageRename (s : StorageServer) (storageId oldName newName : String) : StorageServer :=
  s.operate ((paths drivePath storageId (.rename oldName newName)).bind fun p =>
    s.fs.rename p.1 p.2)

/-- A request that goes on as a task. -/
def arrive (s : StorageServer) (t : StorageTask) : StorageServer :=
  { s with tasks := s.tasks ++ [t] }

def advance (s : StorageServer) (i n : Nat) (t : StorageTask) : Option StorageServer :=
  (s.turn drivePath n t).map fun r => { r.2 with tasks := s.tasks.set i r.1 }

/-- `storage, _ := FindById`. -/
def misread (s : StorageServer) (i : Nat) : StorageTask → Option StorageServer
  | .upload id dir name size => some { s with tasks := s.tasks.set i (.found id dir name size 0) }
  | _ => none

def step (s : StorageServer) : StorageAction → Option StorageServer
  | .upload account id dir name size =>
    some (if s.permits account id then s.arrive (.upload id dir name size) else s)
  | .edit account id file size =>
    some (if s.permits account id then s.arrive (.edit id file size) else s)
  | .update id item => some (s.arrive (.update id item))
  | .advance i n => s.tasks[i]?.bind (s.advance drivePath i n)
  | .misread i => s.tasks[i]?.bind (s.misread i)
  | .fail i =>
    if i < s.tasks.length then some { s with tasks := s.tasks.set i .finished } else none
  | .mkDir account id dir =>
    some (if s.permits account id then s.storageMkDir drivePath id dir else s)
  | .rm account id file =>
    some (if s.permits account id then s.storageRm drivePath id file else s)
  | .rename account id oldName newName =>
    some (if s.permits account id then s.storageRename drivePath id oldName newName else s)

/-- The bytes stored under a storage. -/
def used (s : StorageServer) (id : String) : Nat := s.fs.usage (root drivePath id)

/-- No storage with a limit holds more. -/
def WithinLimits (s : StorageServer) : Prop :=
  ∀ r ∈ s.storages, 0 < r.limitSize → (s.used drivePath r.id : Int) ≤ r.limitSize

/-- Storages with directories of their own, and no request under way. -/
structure Initial (s : StorageServer) : Prop where
  names : ∀ r ∈ s.storages, IsName r.id.toList
  numbered : s.fs.Numbered
  tasks : s.tasks = []
  limits : s.WithinLimits drivePath

end StorageServer

/-! ## When the limits hold -/

/-- What a task that may write to a storage has still to write. -/
def StorageTask.pending (id : String) : StorageTask → Option Nat
  | .allowed storageId _ _ size => if storageId = id then some size else none
  | .placed storageId _ _ size => if storageId = id then some size else none
  | .copying storageId _ written size => if storageId = id then some (size - written) else none
  | _ => none

/-- The task is about to give the storage a limit. -/
def StorageTask.limits (id : String) : StorageTask → Bool
  | .measured storageId item => storageId == id && decide (0 < item.limitSize)
  | _ => false

namespace StorageServer

def NoWriter (s : StorageServer) (id : String) : Prop := ∀ t ∈ s.tasks, t.pending id = none

def NoLimiter (s : StorageServer) (id : String) : Prop := ∀ t ∈ s.tasks, t.limits id = false

variable (drivePath : String)

/-- The bytes of the storage that an opening at the path empties. -/
def emptied (s : StorageServer) (id : String) (p : Path) : Nat :=
  if (root drivePath id).Within p then (s.fs.contentAt p).getD 0 else 0

/-- An upload passes its check alone and with the limit that holds. -/
def KeepsUpload (s : StorageServer) (id : String) (size : Nat) (limitSize : Int) : Prop :=
  s.admits drivePath id size limitSize = true → s.NoLimiter id ∧
    ∀ r ∈ s.storages.findById id, 0 < r.limitSize → limitSize = r.limitSize ∧ s.NoWriter id

/-- An edit has the storage for itself, and its file fits. -/
def KeepsEdit (s : StorageServer) (id file : String) (size : Nat) : Prop :=
  ∀ p ∈ path drivePath id (.edit file), s.fs.opens p = true → s.NoLimiter id ∧
    ∀ r ∈ s.storages.findById id, 0 < r.limitSize → s.NoWriter id ∧
      ((s.used drivePath id + size : Nat) : Int) ≤ r.limitSize + s.emptied drivePath id p

/-- A limit is measured alone, and at the storage that gets it. -/
def KeepsUpdate (s : StorageServer) (id : String) (item : Storage) : Prop :=
  ∀ d ∈ dirSize s.fs (root drivePath item.id), 0 < item.limitSize → (d : Int) ≤ item.limitSize →
    item.id = id ∧ s.NoWriter id

def KeepsTurn (s : StorageServer) : StorageTask → Prop
  | .found id _ _ size limitSize => s.KeepsUpload drivePath id size limitSize
  | .edit id file size => s.KeepsEdit drivePath id file size
  | .update id item => s.KeepsUpdate drivePath id item
  | _ => True

/-- The condition: what the checks of the code leave out. -/
def KeepsQuota (s : StorageServer) : StorageAction → Prop
  | .advance i _ => ∀ t ∈ s.tasks[i]?, s.KeepsTurn drivePath t
  | _ => True

section Decide

variable {drivePath : String} (s : StorageServer)

instance : Decidable (s.WithinLimits drivePath) :=
  inferInstanceAs (Decidable (∀ r ∈ s.storages.rows, _))

instance (id : String) : Decidable (s.NoWriter id) :=
  inferInstanceAs (Decidable (∀ t ∈ s.tasks, t.pending id = none))

instance (id : String) : Decidable (s.NoLimiter id) :=
  inferInstanceAs (Decidable (∀ t ∈ s.tasks, t.limits id = false))

instance (id : String) (size : Nat) (limitSize : Int) :
    Decidable (s.KeepsUpload drivePath id size limitSize) :=
  inferInstanceAs (Decidable (s.admits drivePath id size limitSize = true → s.NoLimiter id ∧
    ∀ r ∈ s.storages.findById id, 0 < r.limitSize → limitSize = r.limitSize ∧ s.NoWriter id))

instance (id file : String) (size : Nat) : Decidable (s.KeepsEdit drivePath id file size) :=
  inferInstanceAs (Decidable (∀ p ∈ path drivePath id (.edit file), s.fs.opens p = true →
    s.NoLimiter id ∧ ∀ r ∈ s.storages.findById id, 0 < r.limitSize → s.NoWriter id ∧
      ((s.used drivePath id + size : Nat) : Int) ≤ r.limitSize + s.emptied drivePath id p))

instance (id : String) (item : Storage) : Decidable (s.KeepsUpdate drivePath id item) :=
  inferInstanceAs (Decidable (∀ d ∈ dirSize s.fs (root drivePath item.id), 0 < item.limitSize →
    (d : Int) ≤ item.limitSize → item.id = id ∧ s.NoWriter id))

instance : (t : StorageTask) → Decidable (s.KeepsTurn drivePath t)
  | .found id _ _ size limitSize =>
    inferInstanceAs (Decidable (s.KeepsUpload drivePath id size limitSize))
  | .edit id file size => inferInstanceAs (Decidable (s.KeepsEdit drivePath id file size))
  | .update id item => inferInstanceAs (Decidable (s.KeepsUpdate drivePath id item))
  | .upload .. | .allowed .. | .placed .. | .copying .. | .measured .. | .finished =>
    inferInstanceAs (Decidable True)

instance : (a : StorageAction) → Decidable (s.KeepsQuota drivePath a)
  | .advance i _ => inferInstanceAs (Decidable (∀ t ∈ s.tasks[i]?, s.KeepsTurn drivePath t))
  | .upload .. | .edit .. | .update .. | .misread _ | .fail _ | .mkDir .. | .rm .. | .rename .. =>
    inferInstanceAs (Decidable True)

end Decide

end StorageServer

end NextDBM
