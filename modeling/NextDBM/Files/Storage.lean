import NextDBM.Library.FilePaths

/-!
# Paths of the storages

A storage is a directory of the drive, named by its id. The requests on its files take paths from the
client. A path that contains `../` is refused; any other one is joined to the directory.
-/

namespace NextDBM

/-- `path.Join`. -/
def pathJoin (elem : List String) : String :=
  String.ofList (FilePath.join (elem.map String.toList))

/-- What a path leads to. -/
def location (path : String) : FilePath.Path := FilePath.clean path.toList

/-- The errors of the storage service. -/
inductive StorageError
  /-- `非法请求 :(` -/
  | illegalRequest
  /-- `可用空间不足` -/
  | insufficientSpace
  /-- `空间大小不能小于已使用大小` -/
  | limitBelowUsedSize
  | recordNotFound
  /-- An operation of the file system fails. -/
  | file
  deriving DecidableEq, Repr

/-- The requests on the files of a storage, with what the client submits. -/
inductive StorageRequest
  | upload (remoteDir filename : String)
  | edit (file : String)
  | download (file : String)
  | ls (remoteDir : String)
  | mkDir (remoteDir : String)
  | rm (file : String)
  | rename (oldName newName : String)
  deriving DecidableEq, Repr

namespace StorageService

def storageDir (drivePath storageId : String) : String := pathJoin [drivePath, storageId]

/-- `strings.Contains(path, "../")`. -/
def isIllegal (path : String) : Bool := Text.hasInfix path "../"

/-- `remoteFile` of an upload. -/
def remoteFile (remoteDir filename : String) : String := pathJoin [remoteDir, filename]

/-- The function that a request is for, up to its use of the file system: the paths that it acts on. -/
def targets (drivePath storageId : String) : StorageRequest → Except StorageError (List String)
  | .upload remoteDir filename =>
    if isIllegal remoteDir then .error .illegalRequest
    else if isIllegal (remoteFile remoteDir filename) then .error .illegalRequest
    else .ok [pathJoin [storageDir drivePath storageId, remoteDir],
      pathJoin [storageDir drivePath storageId, remoteFile remoteDir filename]]
  | .edit file =>
    if isIllegal file then .error .illegalRequest
    else .ok [pathJoin [storageDir drivePath storageId, file]]
  | .download file =>
    if isIllegal file then .error .illegalRequest
    else .ok [pathJoin [storageDir drivePath storageId, file]]
  | .ls remoteDir =>
    if isIllegal remoteDir then .error .illegalRequest
    else .ok [pathJoin [storageDir drivePath storageId, remoteDir]]
  | .mkDir remoteDir =>
    if isIllegal remoteDir then .error .illegalRequest
    else .ok [pathJoin [storageDir drivePath storageId, remoteDir]]
  | .rm file =>
    if isIllegal file then .error .illegalRequest
    else .ok [pathJoin [storageDir drivePath storageId, file]]
  | .rename oldName newName =>
    if isIllegal oldName then .error .illegalRequest
    else if isIllegal newName then .error .illegalRequest
    else .ok [pathJoin [storageDir drivePath storageId, oldName],
      pathJoin [storageDir drivePath storageId, newName]]

/-- The texts that are checked, each of which is joined to the directory of the storage. -/
def texts : StorageRequest → List String
  | .upload remoteDir filename => [remoteDir, remoteFile remoteDir filename]
  | .edit file | .download file | .rm file => [file]
  | .ls remoteDir | .mkDir remoteDir => [remoteDir]
  | .rename oldName newName => [oldName, newName]

/-- A path inside the directory of the storage; it is then neither the drive nor inside another
storage. -/
structure Inside (drivePath storageId path : String) : Prop where
  within : (location (storageDir drivePath storageId)).Within (location path)
  notDrive : location path ≠ location drivePath
  others : ∀ other, FilePath.IsName other.toList → other ≠ storageId →
    ¬ (location (storageDir drivePath other)).Within (location path)

/-- A request that passes the check acts on paths inside the directory of the storage. -/
def Confined (drivePath storageId : String) (r : StorageRequest) : Prop :=
  ∀ paths, targets drivePath storageId r = .ok paths → ∀ p ∈ paths, Inside drivePath storageId p

/-- The path goes up no directory: apart from empty elements and `.` it is not `..` alone. -/
def StaysDown (path : String) : Prop := FilePath.ascent path.toList = 0

end StorageService

end NextDBM
