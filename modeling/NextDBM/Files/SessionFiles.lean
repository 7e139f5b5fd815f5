import NextDBM.Assets.EntryPoints
import NextDBM.Files.Quota

/-!
# Files of the sessions

The files of a storage are reached in two ways: by its id, which its owner and the administrators may
use, and through a session of a remote desktop, which has the id of its storage and flags of its own.
An endpoint of a session looks at the flag, writes a line to the log of the storages, and calls the same
functions as the endpoint of a storage.

The terminals have no SFTP client, so a session of SSH ends at a nil pointer.
-/

namespace NextDBM

open FilePath Relational StorageService StorageServer

/-- `model.StorageLog`. -/
structure StorageLog where
  assetId : String
  sessionId : String
  userId : String
  action : String
  fileName : String
  deriving DecidableEq

namespace nd

def ssh : String := "ssh"
def storageLogActionRm : String := "rm"
def storageLogActionUpload : String := "upload"
def storageLogActionDownload : String := "download"
def storageLogActionMkdir : String := "mkdir"
def storageLogActionRename : String := "rename"

end nd

namespace StorageServer

variable (drivePath : String)

/-- The function of the storage service that a request is for; an upload and an edit go on as tasks. -/
def perform (s : StorageServer) (id : String) (size : Nat) : StorageRequest → StorageServer
  | .upload dir name => s.arrive (.upload id dir name size)
  | .edit file => s.arrive (.edit id file size)
  | .mkDir dir => s.storageMkDir drivePath id dir
  | .rm file => s.storageRm drivePath id file
  | .rename oldName newName => s.storageRename drivePath id oldName newName
  | .download _ | .ls _ => s

/-- `StorageCreateEndpoint`; the row may not be stored (`served`). -/
def create (s : StorageServer) (item : Storage) (served : Bool) : StorageServer :=
  match s.fs.mkdirAll (root drivePath item.id) with
  | none => s
  | some fs =>
    { s with
      fs
      storages := if served then (s.storages.insert item).getD s.storages else s.storages }

/-- `DeleteStorageById`. -/
def delete (s : StorageServer) (id : String) (force served : Bool) : StorageServer :=
  match s.storages.findById id with
  | none => s
  | some storage =>
    if !force && storage.isDefault then s
    else
      { s with
        fs := s.fs.removeAll (root drivePath id)
        storages := if served then s.storages.deleteWhere fun r => r.id == id else s.storages }

end StorageServer

namespace SessionFiles

/-- The flag that the endpoint checks. -/
def flag (s : Session) : StorageRequest → Option String
  | .upload .. | .mkDir _ => some s.upload
  | .edit _ => some s.edit
  | .download _ => some s.download
  | .ls _ => none
  | .rm _ => some s.delete
  | .rename .. => some s.rename

def allows (s : Session) (r : StorageRequest) : Bool := (flag s r).all fun f => f == "1"

/-- The action and the file name of the log. -/
def logged : StorageRequest → Option (String × String)
  | .upload dir name => some (nd.storageLogActionUpload, remoteFile dir name)
  | .download file => some (nd.storageLogActionDownload, file)
  | .mkDir dir => some (nd.storageLogActionMkdir, dir)
  | .rm file => some (nd.storageLogActionRm, file)
  | .rename oldName _ => some (nd.storageLogActionRename, oldName)
  | .edit _ | .ls _ => none

/-- How an endpoint goes on. -/
inductive Ending
  | error (err : Error)
  /-- A nil pointer. -/
  | panics
  /-- It returns without an answer. -/
  | silent
  /-- The storage service takes the request. -/
  | storage (id : String)
  deriving DecidableEq

/-- The branches for the protocols; `connected` says whether `GlobalSessionManager` has the session. -/
def serve (s : Session) (connected : Bool) (r : StorageRequest) : Ending :=
  if nd.ssh = s.protocol then
    if connected then .panics else .error (.text "获取会话失败")
  else if nd.rdp = s.protocol then .storage s.storageId
  else
    match r with
    | .upload .. | .edit _ | .download _ => .silent
    | .ls _ | .mkDir _ | .rm _ | .rename .. => .error (.text "当前协议不支持此操作")

/-- An endpoint: how it goes on, and what it writes to the log before. -/
def endpoint (found : Option Session) (sessionId : String) (account : Option User)
    (connected : Bool) (r : StorageRequest) : Ending × Option StorageLog :=
  match found with
  | none => (.error .recordNotFound, none)
  | some session =>
    if allows session r then
      match logged r, account with
      | none, _ => (serve session connected r, none)
      | some _, none => (.panics, none)
      | some (action, fileName), some account =>
        (serve session connected r,
          some { assetId := session.assetId, sessionId, userId := account.id, action, fileName })
    else (.error (.text "禁止操作"), none)

structure State where
  sessions : Table Session Session.id := ∅
  storageLogs : List StorageLog := []
  server : StorageServer := {}

inductive Action
  /-- A request with the id of a storage, or a step of a task. -/
  | storage (a : StorageAction)
  /-- A request with the id of a session; `account` is the user of the token, `saved` says whether the line
  of the log is stored. -/
  | session (sessionId : String) (account : Option User) (connected saved : Bool) (size : Nat)
      (r : StorageRequest)
  | create (uuid : String) (account : User) (item : Storage) (served : Bool)
  | delete (id : String) (force served : Bool)
  /-- The rest of the server writes the sessions. -/
  | sessions (sessions : Table Session Session.id)

variable (drivePath : String)

def proceed (server : StorageServer) (size : Nat) (r : StorageRequest) : Ending → StorageServer
  | .storage id => server.perform drivePath id size r
  | .error _ | .panics | .silent => server

namespace State

def endpoint (s : State) (sessionId : String) (account : Option User) (connected : Bool)
    (r : StorageRequest) : Ending × Option StorageLog :=
  SessionFiles.endpoint (s.sessions.findById sessionId) sessionId account connected r

def request (s : State) (sessionId : String) (account : Option User) (connected saved : Bool) (size : Nat)
    (r : StorageRequest) : State :=
  let (ending, line) := s.endpoint sessionId account connected r
  { s with
    storageLogs := if saved then s.storageLogs ++ line.toList else s.storageLogs
    server := proceed drivePath s.server size r ending }

end State

def step (s : State) : Action → Option State
  | .storage a => (s.server.step drivePath a).map fun server => { s with server }
  | .session sessionId account connected saved size r =>
    some (s.request drivePath sessionId account connected saved size r)
  | .create uuid account item served =>
    some { s with server := s.server.create drivePath { item with id := uuid, owner := account.id } served }
  | .delete id force served => some { s with server := s.server.delete drivePath id force served }
  | .sessions sessions => some { s with sessions }

/-! ## Who asks for a storage -/

/-- The account, the storage and the request of an action that is one. -/
def asked : StorageAction → Option (User × String × StorageRequest)
  | .upload account id dir name _ => some (account, id, .upload dir name)
  | .edit account id file _ => some (account, id, .edit file)
  | .mkDir account id dir => some (account, id, .mkDir dir)
  | .rm account id file => some (account, id, .rm file)
  | .rename account id oldName newName => some (account, id, .rename oldName newName)
  | .update .. | .advance .. | .misread _ | .fail _ => none

/-- A request for one storage that may change another: a deletion that goes up to the drive. -/
def Escapes (r : StorageRequest) : Prop := ∃ file, r = .rm file ∧ ¬ StaysDown file

/-- Every session of a remote desktop has a storage. -/
def Driven (sessions : Table Session Session.id) : Prop :=
  ∀ session ∈ sessions, nd.rdp = session.protocol → IsName session.storageId.toList

/-- A new storage gets a new name, and the sessions of remote desktops keep having storages. -/
def Proper (_ : State) : Action → Prop
  | .create uuid _ _ _ => IsName uuid.toList
  | .sessions sessions => Driven sessions
  | _ => True

/-- The action is no request for the storage `x`: not by somebody who may use it, not through a session
that has it, not its deletion; and it deletes nothing above the directory of its own storage. -/
def Elsewhere (x : String) (s : State) : Action → Prop
  | .storage a => ∀ account id r, asked a = some (account, id, r) →
    s.server.permits account id = true → id ≠ x ∧ ¬ Escapes r
  | .session sessionId account connected _ _ r => ∀ id,
    (s.endpoint sessionId account connected r).1 = .storage id → id ≠ x ∧ ¬ Escapes r
  | .delete id _ _ => id ≠ x
  | .create .. | .sessions _ => True

/-- Storages with directories of their own, and no request under way. -/
structure Initial (s : State) : Prop where
  names : ∀ r ∈ s.server.storages, IsName r.id.toList
  numbered : s.server.fs.Numbered
  tasks : s.server.tasks = []
  driven : Driven s.sessions

end SessionFiles

end NextDBM
