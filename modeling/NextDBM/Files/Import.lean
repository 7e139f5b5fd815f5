import NextDBM.Files.Archives

/-!
# Imports of a database

An import writes the entries of the archive that the message names to a directory of the drive, and then
walks through the directory and gives the text of every `.sql` file to the database, in one transaction.
-/

namespace NextDBM

open FilePath MySqlText

/-- The attributes of a message of the editor that imports or exports. -/
structure TransferAttr where
  storageId : String
  filePath : String
  fileName : String
  deriving DecidableEq, Repr

namespace TransferAttr

variable (drivePath : String) (attr : TransferAttr)

def sourceZip : String := pathJoin [pathJoin [drivePath, attr.storageId], attr.filePath, attr.fileName]

def targetDir : String := pathJoin [pathJoin [drivePath, attr.storageId], attr.filePath]

end TransferAttr

/-- `filepath.Ext` of a name. -/
def fileExt (name : List Char) : List Char :=
  if '.' ∈ name then '.' :: (name.reverse.takeWhile fun c => c ≠ '.').reverse else []

def isSql (p : Path) : Bool := p.names.getLast?.any fun n => fileExt n.val = ".sql".toList

/-- The database: whether a transaction can be started, whether it accepts a text after others, and
whether it can be committed after the texts. -/
structure ImportDb where
  begins : Bool
  accepts : List Bytes → Bytes → Bool
  commits : List Bytes → Bool

namespace ImportDb

/-- The files whose texts are executed after other texts, up to the first one that is refused. -/
def exec (db : ImportDb) (done : List Bytes) : List (Path × Bytes) → List (Path × Bytes) × Bool
  | [] => ([], true)
  | f :: files =>
    if db.accepts done f.2 then
      (f :: (db.exec (done ++ [f.2]) files).1, (db.exec (done ++ [f.2]) files).2)
    else ([f], false)

/-- The database accepts the texts one after the other. -/
def acceptsAll (db : ImportDb) (done : List Bytes) : List Bytes → Bool
  | [] => true
  | t :: ts => db.accepts done t && db.acceptsAll (done ++ [t]) ts

/-- A transaction of the texts goes through. -/
def takes (db : ImportDb) (texts : List Bytes) : Bool :=
  db.begins && db.acceptsAll [] texts && db.commits texts

end ImportDb

/-- The files that were executed, and whether the transaction was committed. -/
structure ImportOutcome where
  executed : List (Path × Bytes) := []
  committed : Bool := false
  deriving DecidableEq

/-- The files whose execution has not been rolled back. -/
def ImportOutcome.ran (o : ImportOutcome) : List (Path × Bytes) := if o.committed then o.executed else []

/-- The directory is made if nothing stands at its path. -/
def ensureDir (fs : FileSystem Bytes) (p : Path) : Option (FileSystem Bytes) :=
  if fs.exists? p then some fs else fs.mkdirAll p

/-- The `.sql` files below a directory in the order of the walk. -/
def sqlFiles (fs : FileSystem Bytes) (dir : Path) : List (Path × Bytes) :=
  ((fs.walk dir).map fun f => (f.path, f.content)).filter fun f => isSql f.1

/-- What is in the drive when the walk begins; `none` if the handling ends before that. -/
def extractArchive (openReader : Bytes → Option (List ZipEntry)) (fs : FileSystem Bytes)
    (drivePath : String) (attr : TransferAttr) : Option (FileSystem Bytes) := do
  let fs ← ensureDir fs (location (attr.sourceZip drivePath))
  let fs ← ensureDir fs (location (attr.targetDir drivePath))
  let zip ← fs.contentAt (location (attr.sourceZip drivePath))
  let entries ← openReader zip
  unzip fs (attr.targetDir drivePath) (location (attr.sourceZip drivePath)) entries

/-- `importDatabaseJsonResult`. The selection of the database before the transaction, whose failure is
only logged, is a part of what the database does. -/
def importDatabase (openReader : Bytes → Option (List ZipEntry)) (db : ImportDb) (fs : FileSystem Bytes)
    (drivePath : String) (attr : TransferAttr) : ImportOutcome :=
  match extractArchive openReader fs drivePath attr with
  | none => {}
  | some fs =>
    if db.begins then
      let run := db.exec [] (sqlFiles fs (location (attr.targetDir drivePath)))
      { executed := run.1, committed := run.2 && db.commits (run.1.map Prod.snd) }
    else {}

/-- The `.sql` entries of an archive, with the paths they are written to. -/
def sqlEntries (target : String) (entries : List ZipEntry) : List (Path × Bytes) :=
  ((entries.filter fun e => !e.isDir).map fun e => (e.path target, e.text)).filter fun f => isSql f.1

/-- An import executes the `.sql` entries of the archive, each of them once, and nothing else. -/
def ExecutesArchive (o : ImportOutcome) (target : String) (entries : List ZipEntry) : Prop :=
  o.ran.Perm (sqlEntries target entries)

/-- Files in the order of their paths. -/
def inOrder (files : List (Path × Bytes)) : List (Path × Bytes) :=
  files.insertionSort fun f g => f.1 ≤ g.1

/-- The `.sql` entries can be written, to different files in the target directory, every other `.sql`
file in it is replaced by one of them, and the database takes their texts in the order of the paths. -/
structure OnlyArchive (db : ImportDb) (fs : FileSystem Bytes) (target : String) (archive : Path)
    (entries : List ZipEntry) : Prop where
  extractable : Extractable fs target archive entries
  distinct : ((sqlEntries target entries).map Prod.fst).Nodup
  within : ∀ f ∈ sqlEntries target entries, (location target).Within f.1
  replaced : ∀ f ∈ sqlFiles fs (location target), f.1 ∈ (sqlEntries target entries).map Prod.fst
  taken : db.takes ((inOrder (sqlEntries target entries)).map Prod.snd) = true

/-- For each table the file of the structure is executed, and after it that of the data. -/
def StructFirst (dir : String) (tables : List String) (o : ImportOutcome) : Prop :=
  ∀ t ∈ tables,
    [location (pathJoin [dir, t ++ "-struct.sql"]),
      location (pathJoin [dir, t ++ "-data.sql"])].Sublist (o.executed.map Prod.fst)

/-- The entries that an export writes for its tables, in a folder of the archive. -/
def tableEntries (folder : String) (struct data : String → Bytes) (tables : List String) :
    List ZipEntry :=
  tables.flatMap fun t =>
    [{ name := folder ++ "/" ++ t ++ "-data.sql", isDir := false, data := .data (data t) },
      { name := folder ++ "/" ++ t ++ "-struct.sql", isDir := false, data := .data (struct t) }]

end NextDBM
