import NextDBM.Assets.EntryPoints
import NextDBM.Library.Runs

/-!
# Attaching the web editor to a session

`SshEndpoint` opens the upstream database connection of a session whose id is in the request. What the
network does (the tunnel, the database client, the terminal) is an argument; the connections that the
endpoint opens are kept in a log, each with the account and the database at that moment.
-/

namespace NextDBM

/-- `err.Error()`. -/
def Error.message : Error → String
  | .recordNotFound => "record not found"
  | .duplicatedKey => "duplicated key not allowed"
  | .missingWhereClause => "WHERE conditions required"
  | .text s => s

namespace SessionRepository

/-- `Updates` of a session. -/
def assign (o : Session) (s : Session) : Session :=
  { s with
    protocol := nonZero o.protocol s.protocol
    ip := nonZero o.ip s.ip
    port := if o.port = 0 then s.port else o.port
    connectionId := nonZero o.connectionId s.connectionId
    assetId := nonZero o.assetId s.assetId
    username := nonZero o.username s.username
    password := nonZero o.password s.password
    creator := nonZero o.creator s.creator
    clientIP := nonZero o.clientIP s.clientIP
    status := nonZero o.status s.status
    privateKey := nonZero o.privateKey s.privateKey
    passphrase := nonZero o.passphrase s.passphrase
    message := nonZero o.message s.message
    mode := nonZero o.mode s.mode
    fileSystem := nonZero o.fileSystem s.fileSystem
    upload := nonZero o.upload s.upload
    download := nonZero o.download s.download
    delete := nonZero o.delete s.delete
    rename := nonZero o.rename s.rename
    edit := nonZero o.edit s.edit
    createDir := nonZero o.createDir s.createDir
    copy := nonZero o.copy s.copy
    paste := nonZero o.paste s.paste
    storageId := nonZero o.storageId s.storageId
    accessGatewayId := nonZero o.accessGatewayId s.accessGatewayId
    reviewed := o.reviewed || s.reviewed }

@[simp] theorem assign_id (o s : Session) : (assign o s).id = s.id := rfl

def updateById (db : Database) (o : Session) (id : String) : Except Error Database :=
  if id = "" then .error .missingWhereClause
  else .ok { db with sessions := db.sessions.updateById id (assign o) (assign_id o) }

def deleteById (db : Database) (id : String) : Database :=
  { db with sessions := db.sessions.deleteWhere fun s => s.id == id }

end SessionRepository

namespace SessionService

/-- What `DisDBSess` does with the session that it has read: one that is being connected is deleted,
any other one is marked. -/
def disconnect (db : Database) (s : Session) (sessionId reason : String) : Except Error Database :=
  if s.status = nd.disconnected then pure db
  else if s.status = nd.connecting then pure (SessionRepository.deleteById db sessionId)
  else
    SessionRepository.updateById db
      { status := nd.disconnected, message := reason, password := "-", privateKey := "-",
        passphrase := "-" } sessionId

/-- `DisDBSess`. -/
def disDBSess (db : Database) (sessionId reason : String) : Except Error Database := do
  let s ← SessionRepository.findById db sessionId
  disconnect db s sessionId reason

end SessionService

/-- What `SshEndpoint` meets outside the database. -/
structure Network where
  /-- The gateway manager holds the gateway of the session. -/
  gatewayLoaded : Bool
  /-- `OpenSshTunnel`: the exposed address and port. -/
  openSshTunnel : Except String (String × Int)
  /-- `NewNextDBM` or `NewNextDBMUseSocks`. -/
  newNextDBM : Except String Unit
  /-- `RequestPty` and `Shell`. -/
  shell : Except String Unit

/-- The arguments of `NewNextDBM`, and of the proxy when there is one. -/
structure Upstream where
  session : Session
  ip : String
  port : Int
  username : String
  password : String
  privateKey : String
  passphrase : String
  protocol : String
  /-- Host, port, user name and password of the proxy. -/
  socks : Option (String × String × String × String)
  deriving DecidableEq, Repr

namespace WebTerminalApi

/-- What the endpoint sends, or the error it returns. -/
inductive Reply
  | closed (message : String)
  | connected
  | failed (err : String)
  deriving DecidableEq, Repr

/-- The outcome of a request: the upstream connection it opened, and the database after it. -/
structure Outcome where
  reply : Reply
  upstream : Option Upstream
  db : Database

/-- `permissionCheck`: for an account of the type `user` the check is commented out. -/
def permissionCheck (account : User) (_assetId : String) : Except Error Unit :=
  if nd.typeUser = account.type then .ok () else .ok ()

/-- The address to dial: that of the session, or the end of the tunnel through its gateway. -/
def address (db : Database) (net : Network) (s : Session) : Except String (String × Int) :=
  if s.accessGatewayId ≠ "" ∧ s.accessGatewayId ≠ "-" then
    match net.gatewayLoaded, GatewayRepository.findById db s.accessGatewayId with
    | false, .error err => .error ("获取接入网关失败：" ++ err.message)
    | _, _ =>
      match net.openSshTunnel with
      | .ok exposed => .ok exposed
      | .error err => .error ("创建隧道失败：" ++ err)
  else .ok (s.ip, s.port)

def upstreamOf (s : Session) (ip : String) (port : Int) (attributes : String → String) : Upstream :=
  { session := s
    ip
    port
    username := s.username
    password := s.password
    privateKey := s.privateKey
    passphrase := s.passphrase
    protocol := attributes "protocol"
    socks :=
      if attributes nd.socksProxyEnable = "true" then
        some (attributes nd.socksProxyHost, attributes nd.socksProxyPort,
          attributes nd.socksProxyUsername, attributes nd.socksProxyPassword)
      else none }

/-- The rest of the request after the client is created. -/
def afterOpen (db : Database) (net : Network) (sessionId : String) (upstream : Upstream) : Outcome :=
  match net.shell with
  | .error err => { reply := .failed err, upstream := some upstream, db }
  | .ok () =>
    match SessionRepository.updateById db
        { connectionId := sessionId, status := nd.connecting, reviewed := true } sessionId with
    | .error err => { reply := .failed err.message, upstream := some upstream, db }
    | .ok db => { reply := .connected, upstream := some upstream, db }

/-- `SshEndpoint`, from the request to the connection. -/
def sshEndpoint (c : Cipher) (db : Database) (net : Network) (account : User) (sessionId : String) :
    Outcome :=
  let closed (message : String) : Outcome := { reply := .closed message, upstream := none, db }
  match SessionService.findByIdAndDecrypt c db sessionId with
  | .error _ => closed "获取会话或解密数据失败"
  | .ok s =>
    match permissionCheck account s.assetId with
    | .error err => closed err.message
    | .ok () =>
      match address db net s with
      | .error message => closed message
      | .ok (ip, port) =>
        match AssetRepository.findAssetAttrMapByAssetId db s.assetId with
        | .error err => closed ("获取资产属性失败：" ++ err.message)
        | .ok attributes =>
          match net.newNextDBM with
          | .error err => closed ("创建DB客户端失败：" ++ err)
          | .ok () => afterOpen db net sessionId (upstreamOf s ip port attributes)

end WebTerminalApi

/-! ## Sessions over time -/

namespace Editor

/-- A connection that was opened: the account of the request, the session, and the database then. -/
structure Opening where
  account : User
  session : Session
  db : Database

structure State where
  db : Database
  opened : List Opening := []

inductive Action
  /-- An account creates a session in the web editor. -/
  | create (uuid clientIp assetId mode : String) (user : User)
  /-- A session of the SSH terminal. -/
  | terminal (uuid clientIp assetId creator : String)
  /-- An account requests `SshEndpoint`. -/
  | attach (net : Network) (account : User) (sessionId : String)
  | close (sessionId reason : String)
  /-- The rest of the server changes the database. -/
  | database (db : Database)

def step (c : Cipher) (s : State) : Action → Option State
  | .create uuid clientIp assetId mode user =>
    match SessionService.create s.db uuid clientIp assetId mode user with
    | .ok (db, _) => some { s with db }
    | .error _ => some s
  | .terminal uuid clientIp assetId creator =>
    match Gui.createSession s.db uuid clientIp assetId creator with
    | .ok (some (db, _)) => some { s with db }
    | _ => some s
  | .attach net account sessionId =>
    let outcome := WebTerminalApi.sshEndpoint c s.db net account sessionId
    match outcome.upstream with
    | some upstream =>
      some
        { db := outcome.db
          opened := { account, session := upstream.session, db := s.db } :: s.opened }
    | none => some { s with db := outcome.db }
  | .close sessionId reason =>
    match SessionService.disDBSess s.db sessionId reason with
    | .ok db => some { s with db }
    | .error _ => some s
  | .database db => some { s with db }

/-- The account may open the session: it created it, or it is authorised for the session's asset. -/
def MayAttach (db : Database) (account : User) (s : Session) : Prop :=
  s.creator = account.id ∨ Visible db account.id s.assetId

/-- Every connection that a user-type account opened was one that it might open at that moment. -/
def AttachAuthorised (s : State) : Prop :=
  ∀ o ∈ s.opened, o.account.type = nd.typeUser → MayAttach o.db o.account o.session

/-- What a session needs to be attached: the gateway it names and the tunnel through it, the row of its
asset, and the database client. -/
structure Attachable (db : Database) (net : Network) (s : Session) : Prop where
  gateway : s.accessGatewayId = "" ∨ s.accessGatewayId = "-" ∨
    ((net.gatewayLoaded = true ∨ ∃ g ∈ db.accessGateways, g.id = s.accessGatewayId) ∧
      net.openSshTunnel.isOk = true)
  asset : ∃ a ∈ db.assets, a.id = s.assetId
  client : net.newNextDBM.isOk = true

/-- The condition on a request: a user-type account names a session that it might open, or one that
cannot be attached. -/
def AttachOk (c : Cipher) (s : State) : Action → Prop
  | .attach net account sessionId =>
    account.type = nd.typeUser →
      ∀ sess, SessionService.findByIdAndDecrypt c s.db sessionId = .ok sess →
        Attachable s.db net sess → MayAttach s.db account sess
  | _ => True

end Editor

end NextDBM
