import NextDBM.Access.Requests
import NextDBM.Model.Secrets

/-!
# Assets and credentials

The services and endpoints that write the tables of assets and credentials. Every row they store has
been encrypted; the repository's `Updates` writes the columns whose new value is not the zero value.
-/

namespace NextDBM

/-- The body of a request for an asset: the fields of the row, and the other entries of the JSON map,
`""` where there is none. -/
structure AssetBody where
  item : Asset
  attributes : String → String := fun _ => ""

namespace nd

def consoleParameterNames : List String :=
  ["font-name", "font-size", "color-scheme", "backspace", "terminal-type"]

def socksParameterNames : List String :=
  [socksProxyEnable, socksProxyHost, socksProxyPort, socksProxyUsername, socksProxyPassword]

def mySQLParameterNames : List String := consoleParameterNames ++ socksParameterNames

def sshParameterNames : List String := consoleParameterNames ++ "ssh-mode" :: socksParameterNames

def rdpParameterNames : List String :=
  ["domain", "remote-app", "remote-app-dir", "remote-app-args", "enable-drive", "drive-path",
    "color-depth", "force-lossless", "preconnection-id", "preconnection-blob"]

def vncParameterNames : List String :=
  ["color-depth", "cursor", "swap-red-blue", "dest-host", "dest-port"]

def telnetParameterNames : List String :=
  consoleParameterNames ++
    ["username-regex", "password-regex", "login-success-regex", "login-failure-regex"]

def kubernetesParameterNames : List String :=
  consoleParameterNames ++
    ["namespace", "pod", "container", "use-ssl", "client-cert", "client-key", "ca-cert",
      "ignore-cert"]

end nd

namespace AssetRepository

/-- The names of the attributes that `UpdateAttributes` stores; `MySQL` is not among its cases. -/
def storedParameterNames (protocol : String) : List String :=
  match protocol with
  | "ssh" => nd.sshParameterNames
  | "rdp" => nd.rdpParameterNames
  | "vnc" => nd.vncParameterNames
  | "telnet" => nd.telnetParameterNames
  | "kubernetes" => nd.kubernetesParameterNames
  | _ => []

/-- The names of the properties that `FindAssetAttrMapByAssetId` takes as defaults. -/
def parameterNames (protocol : String) : List String :=
  if protocol = "MySQL" then nd.mySQLParameterNames else storedParameterNames protocol

def create (db : Database) (o : Asset) : Except Error Database :=
  match db.assets.insert o with
  | some assets => .ok { db with assets }
  | none => .error .duplicatedKey

/-- `Updates` of an asset. -/
def assign (o : Asset) (a : Asset) : Asset :=
  { a with
    name := nonZero o.name a.name
    protocol := nonZero o.protocol a.protocol
    ip := nonZero o.ip a.ip
    port := if o.port = 0 then a.port else o.port
    accountType := nonZero o.accountType a.accountType
    username := nonZero o.username a.username
    password := nonZero o.password a.password
    credentialId := nonZero o.credentialId a.credentialId
    privateKey := nonZero o.privateKey a.privateKey
    passphrase := nonZero o.passphrase a.passphrase
    description := nonZero o.description a.description
    active := o.active || a.active
    activeMessage := nonZero o.activeMessage a.activeMessage
    tags := nonZero o.tags a.tags
    owner := nonZero o.owner a.owner
    encrypted := o.encrypted || a.encrypted
    accessGatewayId := nonZero o.accessGatewayId a.accessGatewayId }

@[simp] theorem assign_id (o a : Asset) : (assign o a).id = a.id := rfl

def updateById (db : Database) (o : Asset) (id : String) : Except Error Database :=
  if id = "" then .error .missingWhereClause
  else .ok { db with assets := db.assets.updateById id (assign o) (assign_id o) }

def setActive (active : Bool) (message : String) (a : Asset) : Asset :=
  { a with active, activeMessage := message }

theorem setActive_id (active : Bool) (message : String) (a : Asset) :
    (setActive active message a).id = a.id := rfl

def updateActiveById (db : Database) (active : Bool) (message id : String) : Database :=
  { db with
    assets := db.assets.updateById id (setActive active message) (setActive_id active message) }

def genAttribute (assetId : String) (m : String → String) (name : String) : AssetAttribute :=
  { id := sign [assetId, name], assetId, name, value := m name }

def updateAttributes (db : Database) (assetId protocol : String) (m : String → String) :
    Except Error Database :=
  let data := ((storedParameterNames protocol).filter fun name => m name != "").map
    (genAttribute assetId m)
  let assetAttributes := db.assetAttributes.deleteWhere fun a => a.assetId == assetId
  match assetAttributes.insertAll data with
  | some assetAttributes => .ok { db with assetAttributes }
  | none => .error .duplicatedKey

/-- `FindAssetAttrMapByAssetId`, as the lookup in the map that it builds: the attributes of the asset
over the properties, and the protocol over both. -/
def findAssetAttrMapByAssetId (db : Database) (assetId : String) :
    Except Error (String → String) := do
  let asset ← findById db assetId
  let attributes := db.assetAttributes.select fun a => a.assetId == assetId
  pure fun name =>
    if name = "protocol" then asset.protocol
    else match attributes.reverse.find? fun a => a.name == name with
      | some a => a.value
      | none =>
        if contains (parameterNames asset.protocol) name then
          ((db.properties.findById name).map Property.value).getD ""
        else ""

end AssetRepository

namespace AssetService

/-- `Create`, with the new id. -/
def create (c : Cipher) (db : Database) (uuid : String) (m : AssetBody) :
    Except Error (Database × Asset) := do
  let item ← encrypt c { m.item with id := uuid, active := true }
  let db ← AssetRepository.create db item
  let db ← AssetRepository.updateAttributes db item.id item.protocol m.attributes
  pure (db, item)

/-- `s`, or the placeholder where it is empty. -/
def orDash (s : String) : String := if s = "" then "-" else s

/-- The placeholders that `UpdateById` writes before it encrypts: the columns that the account type
does not use, and the texts that would otherwise be left alone by `Updates`. -/
def placeholders (item : Asset) : Asset :=
  let item :=
    match item.accountType with
    | "credential" =>
      { item with username := "-", password := "-", privateKey := "-", passphrase := "-" }
    | "private-key" =>
      { item with
        password := "-"
        credentialId := "-"
        username := orDash item.username
        passphrase := orDash item.passphrase }
    | "custom" =>
      { item with
        privateKey := "-"
        passphrase := "-"
        credentialId := "-"
        username := orDash item.username
        password := orDash item.password }
    | _ => item
  { item with
    tags := orDash item.tags
    description := orDash item.description
    accessGatewayId := orDash item.accessGatewayId }

def updateById (c : Cipher) (db : Database) (id : String) (m : AssetBody) :
    Except Error Database := do
  let item ← encrypt c (placeholders m.item)
  let db ← AssetRepository.updateById db item id
  AssetRepository.updateAttributes db id item.protocol m.attributes

end AssetService

namespace CredentialRepository

def create (db : Database) (o : Credential) : Except Error Database :=
  match db.credentials.insert o with
  | some credentials => .ok { db with credentials }
  | none => .error .duplicatedKey

/-- `Updates` of a credential. -/
def assign (o : Credential) (r : Credential) : Credential :=
  { r with
    name := nonZero o.name r.name
    type := nonZero o.type r.type
    username := nonZero o.username r.username
    password := nonZero o.password r.password
    privateKey := nonZero o.privateKey r.privateKey
    passphrase := nonZero o.passphrase r.passphrase
    owner := nonZero o.owner r.owner
    encrypted := o.encrypted || r.encrypted }

@[simp] theorem assign_id (o r : Credential) : (assign o r).id = r.id := rfl

def updateById (db : Database) (o : Credential) (id : String) : Except Error Database :=
  if id = "" then .error .missingWhereClause
  else .ok { db with credentials := db.credentials.updateById id (assign o) (assign_id o) }

def deleteById (db : Database) (id : String) : Database :=
  { db with credentials := db.credentials.deleteWhere fun r => r.id == id }

end CredentialRepository

namespace CredentialService

def create (c : Cipher) (db : Database) (item : Credential) : Except Error Database := do
  let item ← encrypt c item
  CredentialRepository.create db item

end CredentialService

namespace CredentialApi

/-- The placeholders of both endpoints; a credential is of type `custom` or `private-key`. -/
def placeholders (item : Credential) : Except Error Credential :=
  match item.type with
  | "custom" =>
    .ok { item with
      privateKey := "-"
      passphrase := "-"
      username := AssetService.orDash item.username
      password := AssetService.orDash item.password }
  | "private-key" =>
    .ok { item with
      password := "-"
      username := AssetService.orDash item.username
      privateKey := AssetService.orDash item.privateKey
      passphrase := AssetService.orDash item.passphrase }
  | _ => .error (.text "类型错误")

/-- `CredentialCreateEndpoint`, with the new id and the account that creates the credential. -/
def credentialCreateEndpoint (c : Cipher) (db : Database) (uuid owner : String)
    (item : Credential) : Except Error Database := do
  let item ← placeholders { item with owner, id := uuid }
  CredentialService.create c db { item with encrypted := true }

/-- The encryption of `CredentialUpdateEndpoint`, which covers the secrets of the type only. -/
def encryptOfType (c : Cipher) (item : Credential) : Except Error Credential :=
  if item.type = nd.custom then do
    let password ← CredentialService.encryptField c item.password
    pure { item with password, encrypted := true }
  else do
    let privateKey ← CredentialService.encryptField c item.privateKey
    let passphrase ← CredentialService.encryptField c item.passphrase
    pure { item with privateKey, passphrase, encrypted := true }

def credentialUpdateEndpoint (c : Cipher) (db : Database) (id : String) (item : Credential) :
    Except Error Database := do
  let item ← placeholders item
  let item ← encryptOfType c item
  CredentialRepository.updateById db item id

end CredentialApi

/-! ## The requests as one transition function -/

/-- A request that writes assets or credentials, or any other request. -/
inductive AssetRequest
  /-- Also one row of an import. -/
  | assetCreate (uuid : String) (m : AssetBody)
  | assetUpdate (id : String) (m : AssetBody)
  | assetChangeOwner (id owner : String)
  | assetUpdateActive (active : Bool) (message id : String)
  /-- `SessionConnectEndpoint`: an inactive asset is written back with `active` set. -/
  | sessionConnect (assetId : String)
  | assetDelete (id : String)
  | credentialCreate (uuid owner : String) (item : Credential)
  /-- A credential of a backup. -/
  | credentialImport (item : Credential)
  | credentialUpdate (id : String) (item : Credential)
  | credentialChangeOwner (id owner : String)
  | credentialDelete (id : String)
  /-- A request that writes tables other than those of assets and credentials, in any way. -/
  | other (db : Database)

namespace AssetRequest

/-- `SessionConnectEndpoint` on the asset of a session. -/
def setAssetActive (db : Database) (assetId : String) : Except Error Database := do
  let asset ← AssetRepository.findById db assetId
  if asset.active then pure db
  else AssetRepository.updateById db { asset with active := true } asset.id

def handle (c : Cipher) (db : Database) : AssetRequest → Database
  | .assetCreate uuid m => commit db ((AssetService.create c db uuid m).map Prod.fst)
  | .assetUpdate id m => commit db (AssetService.updateById c db id m)
  | .assetChangeOwner id owner => commit db (AssetRepository.updateById db { owner } id)
  | .assetUpdateActive active message id => AssetRepository.updateActiveById db active message id
  | .sessionConnect assetId => commit db (setAssetActive db assetId)
  | .assetDelete id => AssetService.deleteById db id
  | .credentialCreate uuid owner item =>
    commit db (CredentialApi.credentialCreateEndpoint c db uuid owner item)
  | .credentialImport item => commit db (CredentialService.create c db item)
  | .credentialUpdate id item => commit db (CredentialApi.credentialUpdateEndpoint c db id item)
  | .credentialChangeOwner id owner => commit db (CredentialRepository.updateById db { owner } id)
  | .credentialDelete id => CredentialRepository.deleteById db id
  | .other db' => { db' with assets := db.assets, credentials := db.credentials }

/-- Every request is enabled in every state. -/
def step (c : Cipher) (db : Database) (r : AssetRequest) : Option Database := some (handle c db r)

end AssetRequest

end NextDBM
