import NextDBM.Editor.Attach

/-!
# The life of a session

Sessions are created by the web server, by the SSH terminal and by the MariaDB proxy. Their rows are
then written by whoever holds the id: the browser reports a connection (`SessionConnectEndpoint`), an
attach marks its session, the terminal and the proxy mark theirs, and several paths close a session.
Each statement is one step here, so what a handler has read may be out of date when it writes;
handlers are told apart by an arbitrary type. A statement that the database does not serve changes
nothing.
-/

namespace NextDBM

section Lifecycle

namespace SessionRepository

/-- `UpdateById`, when the database serves it (`served`); an update that fails changes nothing. -/
def tryUpdate (served : Bool) (db : Database) (o : Session) (id : String) : Database :=
  match updateById db o id with
  | .ok db' => if served then db' else db
  | .error _ => db

def setReviewed (reviewed : Bool) (ids : List String) (s : Session) : Session :=
  { s with reviewed := if s.id ∈ ids then reviewed else s.reviewed }

theorem setReviewed_id (reviewed : Bool) (ids : List String) (s : Session) :
    (setReviewed reviewed ids s).id = s.id := rfl

/-- `UpdateReadByIds`. -/
def updateReadByIds (db : Database) (reviewed : Bool) (ids : List String) : Database :=
  { db with
    sessions := db.sessions.modify (setReviewed reviewed ids) (setReviewed_id reviewed ids) }

def empty (s : Session) : Session := { s with password := "-", privateKey := "-", passphrase := "-" }

theorem empty_id (s : Session) : (empty s).id = s.id := rfl

/-- `EmptyPassword`. -/
def emptyPassword (db : Database) : Database :=
  { db with sessions := db.sessions.modify empty empty_id }

end SessionRepository

namespace SessionService

/-- `FixSessionState`: the errors of its updates are ignored. -/
def fixSessionState (served : String → Bool) (db : Database) : Database :=
  (db.sessions.select fun s => s.status == nd.connected).foldl
    (fun db s => SessionRepository.tryUpdate (served s.id) db { status := nd.disconnected } s.id) db

end SessionService

namespace Sessions

/-- Where a handler stands that holds a session. -/
inductive Handler
  | idle
  /-- `SshEndpoint` or `Guacamole`, which has read the session. -/
  | attaching (sessionId : String)
  /-- `handleAccessAsset`, before and after it has read the session. -/
  | created (sessionId : String)
  | opening (sessionId : String)
  /-- A goroutine of the proxy, with its session in memory: before the login, while it serves the
  connection, and after `handleConnection`. -/
  | accepted (session : Session)
  | serving (session : Session)
  | ended (session : Session)

/-- `CloseSessionById` between its read and its write. -/
structure Closing where
  sessionId : String
  session : Except Error Session
  reason : String

/-- The state of the server; `drawn` are the ids that `utils.UUID` has returned. -/
structure State (κ : Type) where
  db : Database
  handlers : κ → Handler := fun _ => .idle
  /-- The holder of the mutex. -/
  closing : Option Closing := none
  drawn : List String := []

inductive Action (κ : Type)
  /-- `SessionService.Create`. -/
  | create (uuid clientIp assetId mode : String) (user : User)
  /-- `Gui.createSession`, up to `handleAccessAsset`. -/
  | terminalCreate (k : κ) (uuid clientIp assetId creator : String)
  /-- `handleAccessAsset` reads the session. -/
  | terminalRead (k : κ)
  | terminalConnected (k : κ) (served : Bool)
  /-- `SshEndpoint` or `Guacamole` reads the session. -/
  | attachRead (k : κ) (sessionId : String)
  /-- The session is marked: by `SshEndpoint`, or by `Guacamole` with the id of its tunnel and with
  whether there is no recording. -/
  | attachConnecting (k : κ) (guacamole : Option (String × Bool)) (served : Bool)
  /-- The handler of an attach or a terminal gives up. -/
  | abort (k : κ)
  /-- `acceptConnections`. -/
  | proxyAccept (k : κ) (uuid remoteAddr : String) (port : Int)
  /-- The login policies refuse the user. -/
  | proxyRefuse (k : κ) (assetId creator : String)
  | proxyConnected (k : κ) (assetId creator username accessGatewayId : String) (served : Bool)
  /-- `handleConnection` ends: its deferred function. -/
  | proxyClose (k : κ) (served : Bool)
  /-- After `handleConnection` has returned this error, or none. -/
  | proxyEnd (k : κ) (err : Option String) (served : Bool)
  /-- `SessionConnectEndpoint`. -/
  | connect (sessionId : String) (served : Bool)
  /-- `CloseSessionById` takes the mutex and reads the session. -/
  | close (sessionId reason : String)
  | closeWrite (served : Bool)
  | delete (ids : List String)
  | review (reviewed : Bool) (ids : List String)
  /-- The process ends, and starts again with `FixSessionState` and `EmptyPassword`. -/
  | restart (served : String → Bool)
  /-- The rest of the server changes other tables. -/
  | others (db : Database)

/-- The session of a connection that the proxy accepts. -/
def proxySession (uuid remoteAddr : String) (port : Int) : Session :=
  { id := uuid, ip := remoteAddr, port, clientIP := remoteAddr, password := "-", mode := nd.proxy,
    status := nd.connecting, protocol := nd.mariaDB, connectionId := "-" }

/-- What the proxy writes after the login. -/
def connectedSession (session : Session) (assetId creator username accessGatewayId : String) :
    Session :=
  { session with
    status := nd.connected, assetId, creator, connectionId := session.id, username, password := "-",
    passphrase := "-", privateKey := "-", accessGatewayId }

/-- What the end of `handleConnection` writes, and after it the goroutine for an error. -/
def endedSession (session : Session) (message : String) : Session :=
  { session with status := nd.disconnected, message }

/-- What an attach writes. -/
def attachedSession (sessionId : String) : Option (String × Bool) → Session
  | none => { connectionId := sessionId, status := nd.connecting, reviewed := true }
  | some (tunnel, unrecorded) =>
    { connectionId := tunnel, status := nd.connecting, reviewed := unrecorded }

/-- `DisDBSess` after its read. -/
def closeWrite (db : Database) (closing : Closing) (served : Bool) : Database :=
  match closing.session with
  | .error _ => db
  | .ok session =>
    match SessionService.disconnect db session closing.sessionId closing.reason with
    | .error _ => db
    | .ok db' => if served then db' else db

variable {κ : Type} [DecidableEq κ]

/-- The handler stands at `h`. -/
def State.put (s : State κ) (k : κ) (h : Handler) : State κ :=
  { s with handlers := Function.update s.handlers k h }

@[simp] theorem State.put_db (s : State κ) (k : κ) (h : Handler) : (s.put k h).db = s.db := rfl
@[simp] theorem State.put_drawn (s : State κ) (k : κ) (h : Handler) :
    (s.put k h).drawn = s.drawn := rfl
@[simp] theorem State.put_closing (s : State κ) (k : κ) (h : Handler) :
    (s.put k h).closing = s.closing := rfl

def step (c : Cipher) (s : State κ) : Action κ → Option (State κ)
  | .create uuid clientIp assetId mode user =>
    if uuid ∈ s.drawn then none
    else match SessionService.create s.db uuid clientIp assetId mode user with
      | .ok (db, _) => some { s with db, drawn := uuid :: s.drawn }
      | .error _ => some { s with drawn := uuid :: s.drawn }
  | .terminalCreate k uuid clientIp assetId creator =>
    match s.handlers k with
    | .idle =>
      if uuid ∈ s.drawn then none
      else match Gui.createSession s.db uuid clientIp assetId creator with
        | .ok (some (db, _)) =>
          some { s.put k (.created uuid) with db, drawn := uuid :: s.drawn }
        | _ => some { s with drawn := uuid :: s.drawn }
    | _ => none
  | .terminalRead k =>
    match s.handlers k with
    | .created sessionId =>
      match SessionService.findByIdAndDecrypt c s.db sessionId with
      | .ok _ => some (s.put k (.opening sessionId))
      | .error _ => some (s.put k .idle)
    | _ => none
  | .terminalConnected k served =>
    match s.handlers k with
    | .opening sessionId =>
      some
        { s.put k .idle with
          db := SessionRepository.tryUpdate served s.db { status := nd.connected, reviewed := true }
            sessionId }
    | _ => none
  | .attachRead k sessionId =>
    match s.handlers k with
    | .idle =>
      match SessionService.findByIdAndDecrypt c s.db sessionId with
      | .ok _ => some (s.put k (.attaching sessionId))
      | .error _ => some s
    | _ => none
  | .attachConnecting k guacamole served =>
    match s.handlers k with
    | .attaching sessionId =>
      some
        { s.put k .idle with
          db := SessionRepository.tryUpdate served s.db (attachedSession sessionId guacamole)
            sessionId }
    | _ => none
  | .abort k =>
    match s.handlers k with
    | .attaching _ | .created _ | .opening _ => some (s.put k .idle)
    | _ => none
  | .proxyAccept k uuid remoteAddr port =>
    match s.handlers k with
    | .idle =>
      if uuid ∈ s.drawn then none
      else
        let session := proxySession uuid remoteAddr port
        match SessionRepository.create s.db session with
        | .ok db => some { s.put k (.accepted session) with db, drawn := uuid :: s.drawn }
        | .error _ => some { s with drawn := uuid :: s.drawn }
    | _ => none
  | .proxyRefuse k assetId creator =>
    match s.handlers k with
    | .accepted session => some (s.put k (.serving { session with assetId, creator }))
    | _ => none
  | .proxyConnected k assetId creator username accessGatewayId served =>
    match s.handlers k with
    | .accepted session =>
      let session := connectedSession session assetId creator username accessGatewayId
      some
        { s.put k (.serving session) with
          db := SessionRepository.tryUpdate served s.db session session.id }
    | _ => none
  | .proxyClose k served =>
    match s.handlers k with
    | .accepted session | .serving session =>
      let session := endedSession session "远程连接已关闭"
      some
        { s.put k (.ended session) with
          db := SessionRepository.tryUpdate served s.db session session.id }
    | _ => none
  | .proxyEnd k err served =>
    match s.handlers k with
    | .ended session =>
      match err with
      | none => some (s.put k .idle)
      | some err =>
        some
          { s.put k .idle with
            db := SessionRepository.tryUpdate served s.db (endedSession session err) session.id }
    | _ => none
  | .connect sessionId served =>
    some { s with db := SessionRepository.tryUpdate served s.db { status := nd.connected } sessionId }
  | .close sessionId reason =>
    match s.closing with
    | some _ => none
    | none =>
      some
        { s with
          closing := some
            { sessionId, session := SessionRepository.findById s.db sessionId, reason } }
  | .closeWrite served =>
    match s.closing with
    | none => none
    | some closing => some { s with closing := none, db := closeWrite s.db closing served }
  | .delete ids =>
    some { s with db := ids.foldl SessionRepository.deleteById s.db }
  | .review reviewed ids =>
    some { s with db := SessionRepository.updateReadByIds s.db reviewed ids }
  | .restart served =>
    some
      { db := SessionRepository.emptyPassword (SessionService.fixSessionState served s.db)
        drawn := s.drawn }
  | .others db => some { s with db := { db with sessions := s.db.sessions } }

/-- Before the first session. -/
def init (db : Database) : State κ := { db := { db with sessions := ∅ } }

/-! ## Closed sessions -/

/-- An empty text or a placeholder. -/
def Placeholder (x : String) : Prop := x = "" ∨ x = "-"

/-- A session without secrets. -/
structure Blank (s : Session) : Prop where
  password : Placeholder s.password
  privateKey : Placeholder s.privateKey
  passphrase : Placeholder s.passphrase

/-- No session with this id is disconnected. -/
def NotDisconnected (db : Database) (id : String) : Prop :=
  ∀ r ∈ db.sessions, r.id = id → r.status ≠ nd.disconnected

/-- The condition on a step: a write of the status `connecting` or `connected` does not find its session
disconnected. -/
def StepOk (s : State κ) : Action κ → Prop
  | .connect sessionId served => served = true → NotDisconnected s.db sessionId
  | .attachConnecting k _ served =>
    served = true → ∀ id, s.handlers k = .attaching id → NotDisconnected s.db id
  | .terminalConnected k served =>
    served = true → ∀ id, s.handlers k = .opening id → NotDisconnected s.db id
  | .proxyConnected k _ _ _ _ served =>
    served = true → ∀ session, s.handlers k = .accepted session → NotDisconnected s.db session.id
  | _ => True

end Sessions

end Lifecycle

/-! ## Reviewing every session

`ReviewedAll` collects the ids of the sessions that are not reviewed and passes them on in batches: at
every index that is a multiple of 100, from 100 on, and at the last session. The loop keeps its index
and the ids that wait; the store may answer each update with an error.
-/

namespace SessionRepository

/-- `FindAllUnReviewed`. -/
def findAllUnReviewed (db : Database) : List Session := db.sessions.select fun s => !s.reviewed

end SessionRepository

/-- A run of `ReviewedAll`: the database, the batches passed to `UpdateReadByIds`, and the error that is
returned. -/
structure Review where
  db : Database
  batches : List (List String) := []
  err : Option String := none

namespace SessionService

/-- One call of `UpdateReadByIds`; `answer` gives the errors of the calls by their number. -/
def passOn (answer : Nat → Option String) (r : Review) (sessionIds : List String) : Review :=
  match answer r.batches.length with
  | none =>
    { r with
      db := SessionRepository.updateReadByIds r.db true sessionIds
      batches := r.batches ++ [sessionIds] }
  | some err => { r with batches := r.batches ++ [sessionIds], err := some err }

/-- The loop from the index `i` on, with the ids that wait. After the last session they are not dropped,
but there is no further index at which they could be passed on. -/
def reviewLoop (answer : Nat → Option String) (total : Nat) (r : Review) (i : Nat)
    (sessionIds : List String) : List Session → Review
  | [] => r
  | s :: sessions =>
    let sessionIds := sessionIds ++ [s.id]
    if 100 ≤ i ∧ i % 100 = 0 then
      let r := passOn answer r sessionIds
      if r.err.isSome then r else reviewLoop answer total r (i + 1) [] sessions
    else if i + 1 = total then
      let r := passOn answer r sessionIds
      if r.err.isSome then r else reviewLoop answer total r (i + 1) sessionIds sessions
    else reviewLoop answer total r (i + 1) sessionIds sessions

/-- `ReviewedAll`; `find` is the error of the query. -/
def reviewedAll (find : Option String) (answer : Nat → Option String) (db : Database) : Review :=
  match find with
  | some err => { db, err := some err }
  | none =>
    let sessions := SessionRepository.findAllUnReviewed db
    reviewLoop answer sessions.length { db } 0 [] sessions

end SessionService

/-- The id is in one of the batches, and in no other. -/
def InOneBatch (batches : List (List String)) (id : String) : Prop :=
  ∃! k : Nat, ∃ batch, batches[k]? = some batch ∧ id ∈ batch

end NextDBM
