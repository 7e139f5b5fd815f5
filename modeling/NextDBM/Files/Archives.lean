import NextDBM.Files.Storage
import NextDBM.Library.FileSystem
import NextDBM.Library.MySqlText

/-!
# Archives

`Unzip` writes the entries of an archive one after the other, each under its name joined to the target
directory. The entries are read from the archive while they are written.
-/

namespace NextDBM

open FilePath MySqlText

/-- What an archive holds of an entry. -/
inductive ZipData
  /-- Nothing: the entry is empty, and no descriptor follows its header. -/
  | bare
  | data (text : Bytes)
  /-- The entry cannot be opened, or reading it fails. -/
  | unreadable
  deriving DecidableEq, Repr

/-- An entry of an archive. -/
structure ZipEntry where
  name : String
  isDir : Bool
  data : ZipData
  deriving DecidableEq, Repr

namespace ZipEntry

/-- `filePath` of the entry. -/
def path (target : String) (e : ZipEntry) : Path := location (pathJoin [target, e.name])

def text (e : ZipEntry) : Bytes :=
  match e.data with
  | .data text => text
  | .bare | .unreadable => []

/-- What is read of an entry. From an archive that was truncated not even the header can be read, and
from one that the entry itself has truncated nothing after it. -/
def read (e : ZipEntry) (truncated truncates : Bool) : Option Bytes :=
  match e.data with
  | .bare => if truncated then none else some []
  | .data text => if truncated || truncates then none else some text
  | .unreadable => none

end ZipEntry

/-- One round of `Unzip`. The flag tells that an entry has taken the place of the archive. -/
def unzipEntry (target : String) (archive : Path) (s : FileSystem Bytes × Bool) (e : ZipEntry) :
    Option (FileSystem Bytes × Bool) :=
  if e.isDir then (s.1.mkdirAll (e.path target)).map fun fs => (fs, s.2)
  else
    (s.1.mkdirAll (e.path target).dir).bind fun fs =>
      (e.read s.2 (decide (e.path target = archive))).bind fun text =>
        (fs.openFile (e.path target) fun _ => text).map fun fs =>
          (fs, s.2 || decide (e.path target = archive))

/-- `Unzip` of an archive with these entries; `none` is an error. -/
def unzip (fs : FileSystem Bytes) (target : String) (archive : Path) (entries : List ZipEntry) :
    Option (FileSystem Bytes) :=
  (fs.mkdirAll (location target)).bind fun fs =>
    (entries.foldlM (unzipEntry target archive) (fs, false)).map Prod.fst

/-! ## What stands in the way -/

namespace ZipEntry

/-- Nothing in the file system stands in the way of the entry: no file above it, no directory in its
place if it is a file. An entry in place of the archive has no content. -/
def Fits (fs : FileSystem Bytes) (target : String) (archive : Path) (e : ZipEntry) : Prop :=
  if e.isDir then fs.isBlocked (e.path target) = false
  else fs.isBlocked (e.path target).dir = false ∧ fs.isDir (e.path target) = false ∧
    ¬ (e.path target).Within (location target) ∧ e.data ≠ .unreadable ∧
      (e.path target = archive → e.data = .bare)

/-- A later entry is not in the way of an earlier one, nor below it if this is a file. After one in
place of the archive only directories can follow. -/
def Compatible (target : String) (archive : Path) (e e' : ZipEntry) : Prop :=
  (e.isDir = false → e.path target = archive → e'.isDir = true) ∧
    match e.isDir, e'.isDir with
    | true, true => True
    | true, false => ¬ (e'.path target).Within (e.path target)
    | false, true => ¬ (e.path target).Within (e'.path target)
    | false, false => ¬ (e.path target).Within (e'.path target).dir ∧
        ¬ (e'.path target).Within (e.path target).dir

end ZipEntry

/-- The entries can be written to the target directory, all of them. -/
structure Extractable (fs : FileSystem Bytes) (target : String) (archive : Path)
    (entries : List ZipEntry) : Prop where
  unblocked : fs.isBlocked (location target) = false
  fits : ∀ e ∈ entries, e.Fits fs target archive
  compatible : entries.Pairwise (ZipEntry.Compatible target archive)

end NextDBM
