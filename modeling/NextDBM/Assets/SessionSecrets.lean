import NextDBM.Assets.EntryPoints
import NextDBM.Assets.KeyRotation

/-!
# The secrets of a session

A row of an asset or of a credential goes back to a plain row: the one that was given to the service
that stored it. A session copies the stored secrets, and reads them back without knowing how they were
stored.
-/

namespace NextDBM

open Transaction

/-- The first row is stored by the services, and the second is what it was stored for. -/
inductive AssetStored (c : Cipher) : Asset → Asset → Prop
  | create {db db' : Database} {uuid : String} {m : AssetBody} {a : Asset}
      (hcreate : AssetService.create c db uuid m = .ok (db', a)) :
      AssetStored c a { m.item with id := uuid, active := true }
  /-- A row that was stored before is updated; the fields of the request that are empty, after the
  placeholders are written, leave their columns alone. -/
  | updateById {db db' : Database} {m : AssetBody} {a p a' : Asset} (hstored : AssetStored c a p)
      (ha : a ∈ db.assets) (hupdate : AssetService.updateById c db a.id m = .ok db')
      (ha' : a' ∈ db'.assets) (hid : a'.id = a.id) :
      AssetStored c a' (AssetRepository.assign (AssetService.placeholders m.item) p)
  /-- A row that was not encrypted is, whether or not the run came to its end. -/
  | encryptAll {w w' : World Database Unit} {r : Except Error Unit} {a a' : Asset}
      (hrun : AssetService.encryptAll c w = (r, w')) (ha : a ∈ w.db.assets)
      (hplain : a.encrypted = false) (ha' : a' ∈ w'.db.assets) (hid : a'.id = a.id)
      (hencrypted : a'.encrypted = true) : AssetStored c a' a
  /-- The owner of a stored row is changed. -/
  | owner {a p : Asset} (hstored : AssetStored c a p) (owner : String) :
      AssetStored c (AssetRepository.assign { owner } a) (AssetRepository.assign { owner } p)
  /-- A stored row is marked as active or as inactive. -/
  | active {a p : Asset} (hstored : AssetStored c a p) (active : Bool) (message : String) :
      AssetStored c (AssetRepository.setActive active message a)
        (AssetRepository.setActive active message p)

inductive CredentialStored (c : Cipher) : Credential → Credential → Prop
  | create {db db' : Database} {p r : Credential} (hcreate : CredentialService.create c db p = .ok db')
      (hr : r ∈ db'.credentials) (hid : r.id = p.id) : CredentialStored c r p
  | encryptAll {w w' : World Database Unit} {e : Except Error Unit} {r r' : Credential}
      (hrun : CredentialService.encryptAll c w = (e, w')) (hr : r ∈ w.db.credentials)
      (hplain : r.encrypted = false) (hr' : r' ∈ w'.db.credentials) (hid : r'.id = r.id)
      (hencrypted : r'.encrypted = true) : CredentialStored c r' r

/-- The credential that an asset of the account type `credential` is linked to. -/
structure LinkedCredential (c : Cipher) (db : Database) (asset : Asset) (r q : Credential) :
    Prop where
  mem : r ∈ db.credentials
  id : r.id = asset.credentialId
  stored : CredentialStored c r q

/-- The session carries the secrets that the account type of the asset uses. -/
structure CarriesSecrets (c : Cipher) (db : Database) (asset p : Asset) (s : Session) : Prop where
  own : asset.accountType ≠ "credential" → s.username = p.username ∧ s.password = p.password ∧
    s.privateKey = p.privateKey ∧ s.passphrase = p.passphrase
  custom : ∀ r q, asset.accountType = "credential" → LinkedCredential c db asset r q →
    q.type = nd.custom → s.username = q.username ∧ s.password = q.password
  privateKey : ∀ r q, asset.accountType = "credential" → LinkedCredential c db asset r q →
    q.type ≠ nd.custom → s.username = q.username ∧ s.privateKey = q.privateKey ∧
      s.passphrase = q.passphrase

end NextDBM
