import Mathlib.Algebra.GroupWithZero.Nat
import NextDBM.Files.Import
import NextDBM.Library.MySqlText

/-!
# Exports of a database or a table

An export writes for each table a file of its structure and, page by page, a file of its rows to a
directory of the drive, packs the directory into an archive and moves the archive to it. A query or a
use of the file system that fails ends the export without an archive.
-/

namespace NextDBM

open FilePath MySqlText
open FilePath

section Export

/-! ## INSERT statements of an export

`RowsToInsertStatements` writes one statement for each row of a result. Texts of Go are lists of bytes
here. A value is what `Scan` puts into an `interface{}`; the driver of MySQL gives byte slices and `nil`.
-/

/-- What `Scan` gives for a column. -/
inductive SqlValue
  | bytes (b : Bytes)
  | text (s : Bytes)
  | null
  /-- A value of another type, as `%v` prints it. -/
  | other (printed : Bytes)
  deriving DecidableEq, Repr

namespace SqlValue

/-- `nil`, or the text of the value. -/
def denotes : SqlValue → Option Bytes
  | bytes b | text b | other b => some b
  | null => none

def rowValue : SqlValue → Bytes
  | bytes b => [39] ++ b ++ [39]
  | text s => [39] ++ s ++ [39]
  | null => ascii "NULL"
  | other printed => [39] ++ printed ++ [39]

end SqlValue

/-- `strings.Join`. -/
def joinBytes (elems : List Bytes) (sep : Bytes) : Bytes := sep.intercalate elems

def insertStatement (tableName : Bytes) (columns : List Bytes) (values : List SqlValue) : Bytes :=
  ascii "INSERT INTO " ++ tableName ++ ascii " (" ++ joinBytes columns (ascii ", ") ++
    ascii ") VALUES (" ++ joinBytes (values.map SqlValue.rowValue) (ascii ", ") ++ ascii ");"

/-- The statements of the rows, one on a line. Each row comes with the outcome of its `Scan`. -/
def rowsToInsertStatements (columns : Except String (List Bytes))
    (rows : List (Except String (List SqlValue))) (tableName : Bytes) : Except String Bytes :=
  match columns with
  | .error err => .error ("获取列名失败: " ++ err)
  | .ok columns =>
    match rows.mapM id with
    | .error err => .error ("Scan失败: " ++ err)
    | .ok rows => .ok (joinBytes (rows.map (insertStatement tableName columns)) [10])

/-- The name of the table as the exports give it to `RowsToInsertStatements`. -/
def tableFormat (tableName : Bytes) : Bytes := [96] ++ tableName ++ ascii "` "

/-- The statement of a row is an INSERT of the row into the table. -/
def InsertsRow (reserved : Bytes → Bool) (tableName : Bytes) (columns : List Bytes)
    (values : List SqlValue) : Prop :=
  parseInsert reserved (insertStatement (tableFormat tableName) columns values) =
    some { table := tableName, columns, values := values.map SqlValue.denotes }

/-! ## Exports -/

/-- The bytes of a text. -/
def utf8 (s : String) : Bytes := s.toUTF8.data.toList.map UInt8.toNat

namespace TransferAttr

variable (drivePath : String) (attr : TransferAttr)

def targetZip : String := pathJoin [pathJoin [drivePath, attr.storageId], "/export/", attr.fileName]

def structFile (key : String) : String :=
  pathJoin [pathJoin [drivePath, attr.storageId], attr.filePath, key ++ "-struct.sql"]

def dataFile (table : String) : String :=
  pathJoin [pathJoin [drivePath, attr.storageId], attr.filePath, table ++ "-data.sql"]

end TransferAttr

/-- What the database answers to the queries of an export: the tables that the query of the message
lists, or the structures that it gives; for a table its structure, the number of its rows, and the
columns and rows of a page with some limit and offset. Structures come in the order of the map. -/
structure ExportDb where
  tables : Option (List String)
  struct : Option (List (String × Bytes))
  showCreate : String → Option (List (String × Bytes))
  count : String → Option Nat
  page : String → Nat → Nat →
    Option (Except String (List Bytes) × List (Except String (List SqlValue)))

def pageSize : Nat := 100000

def totalPages (totalRows : Nat) : Nat := (totalRows + pageSize - 1) / pageSize

def writeStructs (drivePath : String) (attr : TransferAttr) (structs : List (String × Bytes))
    (fs : FileSystem Bytes) : Option (FileSystem Bytes) :=
  structs.foldlM (fun fs s => fs.openFile (location (attr.structFile drivePath s.1)) fun _ => s.2) fs

/-- One round of the loop over the pages: the statements of a page are appended to the file. -/
def writePage (db : ExportDb) (drivePath : String) (attr : TransferAttr) (table : String)
    (fs : FileSystem Bytes) (currentPage : Nat) : Option (FileSystem Bytes) :=
  (db.page table pageSize (currentPage * pageSize)).bind fun dataRows =>
    (rowsToInsertStatements dataRows.1 dataRows.2 (tableFormat (utf8 table))).toOption.bind
      fun jsonResult =>
        fs.openFile (location (attr.dataFile drivePath table)) fun old => old.getD [] ++ jsonResult

def writeData (db : ExportDb) (drivePath : String) (attr : TransferAttr) (table : String)
    (fs : FileSystem Bytes) : Option (FileSystem Bytes) :=
  (db.count table).bind fun totalRows =>
    (List.range (totalPages totalRows)).foldlM (writePage db drivePath attr table) fs

/-- The messages that export. -/
inductive ExportKind
  | databaseOnlyStruct
  | databaseStructData
  | tableOnlyStruct
  | tableStructData (table : String)
  deriving DecidableEq, Repr

/-- The files that are written before the archive is made. -/
def writeFiles (db : ExportDb) (drivePath : String) (attr : TransferAttr) (kind : ExportKind)
    (fs : FileSystem Bytes) : Option (FileSystem Bytes) :=
  match kind with
  | .databaseOnlyStruct =>
    db.tables.bind fun tables => tables.foldlM
      (fun fs table => (db.showCreate table).bind fun structs =>
        writeStructs drivePath attr structs fs) fs
  | .databaseStructData =>
    db.tables.bind fun tables => tables.foldlM
      (fun fs table => (db.showCreate table).bind fun structs =>
        (writeStructs drivePath attr structs fs).bind (writeData db drivePath attr table)) fs
  | .tableOnlyStruct => db.struct.bind fun structs => writeStructs drivePath attr structs fs
  | .tableStructData table => db.struct.bind fun structs =>
    (writeStructs drivePath attr structs fs).bind (writeData db drivePath attr table)

/-- `strings.TrimPrefix` of a path and the directory that the packed directory is in. -/
def relPath (source p : Path) : List Char :=
  if source.dir.text <+: p.text then p.text.drop source.dir.text.length else p.text

/-- `ZipDir`, with the files that are packed. The archive, when it is made in the directory itself, is
packed as far as it has grown; it is left out here. -/
def zipDir (pack : List (List Char × Bytes) → Bytes) (source target : Path) (fs : FileSystem Bytes) :
    Option (FileSystem Bytes × List (Path × Bytes)) :=
  (fs.openFile target fun _ => []).bind fun fs =>
    let packed := ((fs.walk source).map fun f => (f.path, f.content)).filter
      fun f => decide (f.1 ≠ target)
    (fs.openFile target fun _ => pack (packed.map fun f => (relPath source f.1, f.2))).map
      fun fs => (fs, packed)

/-- `filepath.Base`. -/
def baseName (p : Path) : String :=
  match p.names.getLast?, p with
  | some n, _ => String.ofList n.val
  | none, .abs _ => "/"
  | none, .rel 0 _ => "."
  | none, .rel (_ + 1) _ => ".."

/-- `dstPath` of `MoveFile`. -/
def dstPath (srcPath dstDir : String) : String := pathJoin [dstDir, baseName (location srcPath)]

/-- The handling of a message that exports, up to its answer, with the files that are in the archive. -/
def exportArchive (pack : List (List Char × Bytes) → Bytes) (db : ExportDb) (drivePath : String)
    (attr : TransferAttr) (kind : ExportKind) (fs : FileSystem Bytes) :
    Option (FileSystem Bytes × List (Path × Bytes)) :=
  (ensureDir fs (location (attr.targetDir drivePath))).bind fun fs =>
    (writeFiles db drivePath attr kind fs).bind fun fs =>
      (zipDir pack (location (attr.targetDir drivePath)) (location (attr.targetZip drivePath)) fs).bind
        fun zipped =>
          (zipped.1.rename (location (attr.targetZip drivePath))
            (location (dstPath (attr.targetZip drivePath) (attr.targetDir drivePath)))).map
              fun fs => (fs, zipped.2)

/-! ## The rows of a table -/

/-- The tables whose rows are exported. -/
def ExportKind.dataTables (db : ExportDb) : ExportKind → List String
  | .databaseStructData => db.tables.getD []
  | .tableStructData table => [table]
  | .databaseOnlyStruct | .tableOnlyStruct => []

/-- The content of a table. -/
structure TableRows where
  columns : List Bytes
  rows : List (List SqlValue)
  deriving DecidableEq, Repr

def TableRows.statements (table : String) (content : TableRows) : List Bytes :=
  content.rows.map (insertStatement (tableFormat (utf8 table)) content.columns)

/-- The count is that of the rows, and the pages part the rows, in any order. -/
structure PagesPart (db : ExportDb) (table : String) (content : TableRows) : Prop where
  count : db.count table = some content.rows.length
  pages : ∃ parts : List (List (List SqlValue)), parts.length = totalPages content.rows.length ∧
    parts.flatten.Perm content.rows ∧
      ∀ (k : Nat) (part : List (List SqlValue)), parts[k]? = some part →
        db.page table pageSize (k * pageSize) = some (.ok content.columns, part.map .ok)

/-- There is nothing to be seen in a text. -/
def Blank (t : Bytes) : Prop := ∀ c ∈ t, isSpace c = true

/-- A text of statements, with space around them. -/
def Script : Bytes → List Bytes → Prop
  | t, [] => Blank t
  | t, s :: ss => ∃ space rest, Blank space ∧ t = space ++ s ++ rest ∧ Script rest ss

/-- A text has exactly one statement for each row. -/
def RowsOnce (t : Bytes) (statements : List Bytes) : Prop :=
  ∃ written : List Bytes, written.Perm statements ∧ Script t written

/-- The text of a file among packed ones; empty if it is not there. -/
def packedText (packed : List (Path × Bytes)) (p : Path) : Bytes :=
  ((packed.find? fun f => decide (f.1 = p)).map Prod.snd).getD []

/-- The text of a file; empty if it is not there. -/
def textAt (fs : FileSystem Bytes) (p : Path) : Bytes := (fs.contentAt p).getD []

/-- Every data file goes to the archive, and had nothing in it before; no two tables with rows share
one. -/
structure Fresh (fs : FileSystem Bytes) (dir zip : Path) (data : String → Path)
    (content : String → TableRows) (tables : List String) : Prop where
  blank : ∀ t ∈ tables, data t ≠ zip → dir.Within (data t) → Blank (textAt fs (data t))
  packed : ∀ t ∈ tables, (content t).rows ≠ [] → data t ≠ zip ∧ dir.Within (data t)
  apart : tables.Pairwise fun t u => data t = data u → (content t).rows = [] ∧ (content u).rows = []

/-! ## Packing a directory and unpacking it elsewhere

What `ZipDir` packs, and what `Unzip` should make of it in an empty directory. The format of the archive
is that of `archive/zip`: its writer and its reader are parameters, and the reader has to read what the
writer has written.
-/

/-- The longest name that `CreateHeader` takes, in bytes. -/
def maxNameSize : Nat := 65535

/-- A name that `CreateHeader` takes, and takes for that of a file. -/
structure IsZipFileName (name : List Char) : Prop where
  file : name.getLast? ≠ some '/'
  fits : (String.ofList name).utf8ByteSize ≤ maxNameSize

/-- An entry that has been written with its name and content. -/
def ZipEntry.ofFile (f : List Char × Bytes) : ZipEntry :=
  { name := String.ofList f.1, isDir := false, data := .data f.2 }

/-- What `zip.Writer` has written, `zip.OpenReader` reads. -/
def ReadsBack (openReader : Bytes → Option (List ZipEntry)) (pack : List (List Char × Bytes) → Bytes) :
    Prop :=
  ∀ files : List (List Char × Bytes), (∀ f ∈ files, IsZipFileName f.1) →
    openReader (pack files) = some (files.map ZipEntry.ofFile)

/-- A directory with files, of which none is above another. Their paths are not so long that no header
has room for them; the paths of a real file system are much shorter. -/
structure DirectoryTree (fs : FileSystem Bytes) (source : Path) : Prop where
  directory : fs.isDir source = true
  unblocked : fs.isBlocked source = false
  leaves : ∀ f ∈ fs.walk source, ∀ g ∈ fs.walk source, f.path.Within g.path → f.path = g.path
  fits : ∀ f ∈ fs.walk source, (String.ofList (relPath source f.path)).utf8ByteSize ≤ maxNameSize

structure EmptyDirectory (fs : FileSystem Bytes) (dir : Path) : Prop where
  directory : fs.isDir dir = true
  unblocked : fs.isBlocked dir = false
  empty : ∀ p : Path, dir.Within p → p ≠ dir → fs.exists? p = false

/-- The files of the tree are there again, below the base name of the source, and no other ones. -/
structure Recreates (fs : FileSystem Bytes) (source : Path) (base : Name) (fs' : FileSystem Bytes)
    (dir : Path) : Prop where
  files : ∀ names : List Name,
    fs'.contentAt (dir.extend (base :: names)) = fs.contentAt (source.extend names)
  only : ∀ names : List Name, names.head? ≠ some base → fs'.contentAt (dir.extend names) = none

end Export

/-! ## Where imports and exports lead

The paths that a message of the editor imports from or exports to are joined from texts of the client,
names of tables and names of the entries of an archive. Each of them is a text that is read from the
drive on.
-/

section Transfer

/-- A message that imports an archive with some entries, or that exports structures under some keys and
the rows of some tables. -/
inductive Transfer
  | importArchive (entries : List ZipEntry)
  | exportFiles (keys tables : List String)
  deriving Repr

namespace Transfer

variable (drivePath : String) (attr : TransferAttr)

def entries : Transfer → List ZipEntry
  | importArchive entries => entries
  | exportFiles _ _ => []

/-- The files and directories that are read, extracted or created. -/
def paths : Transfer → List String
  | importArchive entries => [attr.sourceZip drivePath, attr.targetDir drivePath] ++
      entries.map fun e => pathJoin [attr.targetDir drivePath, e.name]
  | exportFiles keys tables => [attr.targetDir drivePath, attr.targetZip drivePath,
      dstPath (attr.targetZip drivePath) (attr.targetDir drivePath)] ++
        keys.map (attr.structFile drivePath) ++ tables.map (attr.dataFile drivePath)

/-- The elements of a path after the drive. -/
def fromDrive (elem : List String) : List Char := ['/'].intercalate (elem.map String.toList)

/-- The paths as texts that are read from the drive on. -/
def texts : Transfer → List (List Char)
  | importArchive entries => [fromDrive [attr.storageId, attr.filePath, attr.fileName],
      fromDrive [attr.storageId, attr.filePath]] ++
        entries.map fun e => fromDrive [attr.storageId, attr.filePath, e.name]
  | exportFiles keys tables => [fromDrive [attr.storageId, attr.filePath],
      fromDrive [attr.storageId, "/export/", attr.fileName],
      fromDrive [attr.storageId, attr.filePath, baseName (location (attr.targetZip drivePath))]] ++
        (keys.map fun key => fromDrive [attr.storageId, attr.filePath, key ++ "-struct.sql"]) ++
          tables.map fun table => fromDrive [attr.storageId, attr.filePath, table ++ "-data.sql"]

/-- Everything is in the directory of the user's own storage, and what is extracted in the target
directory. -/
structure Confined (own : String) (t : Transfer) : Prop where
  within : ∀ p ∈ paths drivePath attr t,
    (location (pathJoin [drivePath, own])).Within (location p)
  extracted : ∀ e ∈ t.entries,
    (location (attr.targetDir drivePath)).Within (e.path (attr.targetDir drivePath))

end Transfer

/-- A text goes up from a directory as far as the directory has names, and down again through these
names and some more ones. -/
def LeadsInto (dir : Path) (names : List Name) (t : List Char) : Prop :=
  dir.Reaches (ascent t) ∧ dir.lastNames (ascent t) ++ names <+: descent t

end Transfer

end NextDBM
