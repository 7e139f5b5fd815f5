import NextDBM.Assets.Services
import NextDBM.Proxy.Connection

/-!
# The ways to connect to an asset

Four parts of the server resolve an asset to the account it is reached with: the MariaDB proxy
(`handleConnection`), the sessions of the web editor (`SessionService.create`), the SSH terminal
(`Gui.createSession`) and the shell jobs (`ShellJob.executeShellByAssets`).
-/

namespace NextDBM

namespace StrategyRepository

def findById (db : Database) (id : String) : Except Error Strategy :=
  firstOrNotFound (db.strategies.findById id)

end StrategyRepository

namespace SessionRepository

def create (db : Database) (s : Session) : Except Error Database :=
  match db.sessions.insert s with
  | some sessions => .ok { db with sessions }
  | none => .error .duplicatedKey

end SessionRepository

/-- The account of a linked credential, as sessions take it over: the secrets that the credential's
type does not use stay those of the asset. -/
def Session.linkCredential (s : Session) (credential : Credential) : Session :=
  if credential.type = nd.custom then
    { s with username := credential.username, password := credential.password }
  else
    { s with
      username := credential.username
      privateKey := credential.privateKey
      passphrase := credential.passphrase }

namespace SessionService

def renderBoolToStr (b : Bool) : String := if b then "1" else "0"

/-- The check at the beginning of `Create`: an account of the type `user` needs a grant for an asset
that it does not own. The result is the strategy of the grant. -/
def permission (db : Database) (user : User) (asset : Asset) (assetId : String) :
    Except Error (Option Strategy) :=
  if asset.owner ≠ user.id ∧ nd.typeUser = user.type then do
    match ← AuthorisedService.getAuthorised db user.id assetId with
    | none => throw (.text "您没有权限访问此资产")
    | some authorised =>
      if authorised.id = "" then throw (.text "您没有权限访问此资产")
      else if authorised.strategyId = "" then pure none
      else
        match StrategyRepository.findById db authorised.strategyId with
        | .ok strategy => pure (some strategy)
        | .error .recordNotFound => pure none
        | .error err => throw err
  else pure none

/-- The drive of a remote desktop: whether it is shared, and its storage. -/
def drive (db : Database) (user : User) (asset : Asset) (assetId : String) :
    Except Error (String × String) :=
  if nd.rdp = asset.protocol then do
    let attr ← AssetRepository.findAssetAttrMapByAssetId db assetId
    if attr "enable-drive" = "true" then
      pure ("1", if attr "drive-path" = "" then user.id else attr "drive-path")
    else pure ("0", "")
  else pure ("1", "")

/-- The new session of `Create`, before the credential of the asset. -/
def newSession (uuid clientIp mode : String) (user : User) (asset : Asset)
    (strategy : Option Strategy) (fileSystem storageId : String) : Session :=
  let may (action : Strategy → Bool) : String :=
    match strategy with
    | some strategy => renderBoolToStr (action strategy)
    | none => "1"
  { id := uuid
    assetId := asset.id
    username := asset.username
    password := asset.password
    privateKey := asset.privateKey
    passphrase := asset.passphrase
    protocol := asset.protocol
    ip := asset.ip
    port := asset.port
    status := nd.noConnect
    clientIP := clientIp
    mode
    fileSystem
    upload := may Strategy.upload
    download := may Strategy.download
    delete := may Strategy.delete
    rename := may Strategy.rename
    edit := may Strategy.edit
    copy := may Strategy.copy
    paste := may Strategy.paste
    storageId
    accessGatewayId := asset.accessGatewayId
    reviewed := false
    creator := if nd.anonymous ≠ user.type then user.id else "" }

/-- The account of the session: that of the linked credential, if the asset has one. -/
def linkAccount (db : Database) (asset : Asset) (s : Session) : Except Error Session :=
  if asset.accountType = "credential" then do
    let credential ← CredentialRepository.findById db asset.credentialId
    pure (s.linkCredential credential)
  else pure s

/-- `Create`, with the new session's id. -/
def create (db : Database) (uuid clientIp assetId mode : String) (user : User) :
    Except Error (Database × Session) := do
  let asset ← AssetRepository.findById db assetId
  let strategy ← permission db user asset assetId
  let (fileSystem, storageId) ← drive db user asset assetId
  let s ← linkAccount db asset
    (newSession uuid clientIp mode user asset strategy fileSystem storageId)
  let db ← SessionRepository.create db s
  pure (db, s)

end SessionService

namespace Gui

/-- The session of `createSession`, before the credential of the asset. -/
def newSession (uuid clientIp creator : String) (asset : Asset) : Session :=
  { id := uuid
    assetId := asset.id
    username := asset.username
    password := asset.password
    privateKey := asset.privateKey
    passphrase := asset.passphrase
    protocol := asset.protocol
    ip := asset.ip
    port := asset.port
    status := nd.noConnect
    creator
    clientIP := clientIp
    mode := nd.terminal
    upload := "0"
    download := "0"
    delete := "0"
    rename := "0"
    storageId := ""
    accessGatewayId := asset.accessGatewayId }

/-- `createSession` up to its call of `handleAccessAsset`. A credential that is not found ends it
without an error and without a session. -/
def createSession (db : Database) (uuid clientIp assetId creator : String) :
    Except Error (Option (Database × Session)) := do
  let asset ← AssetRepository.findById db assetId
  let s := newSession uuid clientIp creator asset
  if asset.accountType = "credential" then
    match CredentialRepository.findById db asset.credentialId with
    | .error _ => pure none
    | .ok credential => do
      let s := s.linkCredential credential
      let db ← SessionRepository.create db s
      pure (some (db, s))
  else do
    let db ← SessionRepository.create db s
    pure (some (db, s))

end Gui

/-- The parameters of a connection that the entry points share. -/
structure ConnectionParams where
  username : String
  password : String
  accessGatewayId : String
  deriving DecidableEq, Repr

/-- What the web editor and the terminal connect with. -/
def Session.params (s : Session) : ConnectionParams :=
  { username := s.username, password := s.password, accessGatewayId := s.accessGatewayId }

/-- What the proxy connects with. -/
def Resolved.params (r : Resolved) : ConnectionParams :=
  { username := r.dataSource.username
    password := r.dataSource.password
    accessGatewayId := r.assert.accessGatewayId }

namespace ShellJob

/-- The account with which the job runs on one asset. -/
def params (c : Cipher) (db : Database) (assetId : String) : Except Error ConnectionParams := do
  let asset ← AssetRepository.findByIdAndDecrypt c db assetId
  if asset.accountType = "credential" then do
    let credential ← CredentialService.findByIdAndDecrypt c db asset.credentialId
    if credential.type = nd.custom then
      pure
        { username := credential.username
          password := credential.password
          accessGatewayId := asset.accessGatewayId }
    else
      pure
        { username := credential.username
          password := asset.password
          accessGatewayId := asset.accessGatewayId }
  else
    pure
      { username := asset.username
        password := asset.password
        accessGatewayId := asset.accessGatewayId }

/-- `executeShellByAssets`: the connections it starts. The first asset with an error ends the loop. -/
def executeShellByAssets (c : Cipher) (db : Database) :
    List Asset → List (String × ConnectionParams)
  | [] => []
  | asset :: assets =>
    match params c db asset.id with
    | .ok p => (asset.id, p) :: executeShellByAssets c db assets
    | .error _ => []

end ShellJob

/-! ## One set of parameters -/

/-- A connection to an asset that an entry point of the server makes. -/
inductive ConnectsWith (c : Cipher) (db : Database) (a : Asset) : ConnectionParams → Prop
  /-- The proxy resolves a login to the asset. -/
  | proxy {login : String} {policyOk : Bool} {r : Resolved}
      (hresolve : MariaDBProxy.resolve c db login policyOk = some r) (hasset : r.assert = a) :
      ConnectsWith c db a r.params
  /-- An account creates a session, which is then read back. -/
  | editor {uuid clientIp mode : String} {user : User} {db' : Database} {s s' : Session}
      (hcreate : SessionService.create db uuid clientIp a.id mode user = .ok (db', s))
      (hfind : SessionService.findByIdAndDecrypt c db' s.id = .ok s') :
      ConnectsWith c db a s'.params
  /-- The terminal creates a session, which is then read back. -/
  | terminal {uuid clientIp creator : String} {db' : Database} {s s' : Session}
      (hcreate : Gui.createSession db uuid clientIp a.id creator = .ok (some (db', s)))
      (hfind : SessionService.findByIdAndDecrypt c db' s.id = .ok s') :
      ConnectsWith c db a s'.params
  /-- A job runs on a list of assets. -/
  | job {assets : List Asset} {p : ConnectionParams}
      (hexecute : (a.id, p) ∈ ShellJob.executeShellByAssets c db assets) : ConnectsWith c db a p

/-- All connections to the asset are made with the same parameters. -/
def OneSetOfParameters (c : Cipher) (db : Database) (a : Asset) : Prop :=
  ∀ p q, ConnectsWith c db a p → ConnectsWith c db a q → p = q

/-- The proxy can connect to the asset: a login name can be resolved to it (it is the first row of its
name, which is free of the separator), and the row of its gateway exists. -/
def ProxyServes (db : Database) (a : Asset) : Prop :=
  '#' ∉ a.name.toList ∧ (∀ a' ∈ db.assets, a'.name = a.name → a.id ≤ a'.id) ∧
    (a.accessGatewayId = "" ∨ a.accessGatewayId = "-" ∨
      ∃ g ∈ db.accessGateways, g.id = a.accessGatewayId)

/-- The linked credential names the account that is stored with the asset itself. -/
def CredentialMatches (c : Cipher) (a : Asset) (credential : Credential) : Prop :=
  credential.username = a.username ∧
    (credential.type = nd.custom → c.decryptField credential.password = c.decryptField a.password)

end NextDBM
