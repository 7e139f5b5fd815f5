import NextDBM.Assets.Services
import NextDBM.Library.Transactions
import NextDBM.Model.Encryption

/-!
# The key of the stored secrets

`EncryptAll` encrypts the rows that are not encrypted yet when the server starts, statement by statement.
`ChangeEncryptionKey` of the command line encrypts all rows under another key, in one transaction.
-/

namespace NextDBM

open Transaction

namespace AssetRepository

def findAll : Work Database Unit Error (List Asset) :=
  .statement databaseFault fun db => .ok (db.assets.rows, db)

/-- `UpdateById` of a row under its own id, as a statement. -/
def store (o : Asset) : Work Database Unit Error Unit :=
  .statement databaseFault fun db => (updateById db o o.id).map ((), ·)

end AssetRepository

namespace CredentialRepository

def findAll : Work Database Unit Error (List Credential) :=
  .statement databaseFault fun db => .ok (db.credentials.rows, db)

/-- `UpdateById` of a row under its own id, as a statement. -/
def store (o : Credential) : Work Database Unit Error Unit :=
  .statement databaseFault fun db => (updateById db o o.id).map ((), ·)

end CredentialRepository

/-! ## When the server starts -/

namespace AssetService

/-- One round of `EncryptAll`. -/
def encryptRow (c : Cipher) (item : Asset) : Work Database Unit Error Unit :=
  if item.encrypted then pure ()
  else do
    let item ← Work.ofExcept (encrypt c item)
    AssetRepository.store item

def encryptAll (c : Cipher) : Work Database Unit Error Unit := do
  let items ← AssetRepository.findAll
  Work.each (encryptRow c) items

end AssetService

namespace CredentialService

/-- One round of `EncryptAll`. -/
def encryptRow (c : Cipher) (item : Credential) : Work Database Unit Error Unit :=
  if item.encrypted then pure ()
  else do
    let item ← Work.ofExcept (encrypt c item)
    CredentialRepository.store item

def encryptAll (c : Cipher) : Work Database Unit Error Unit := do
  let items ← CredentialRepository.findAll
  Work.each (encryptRow c) items

end CredentialService

/-! ## Another key -/

namespace Cli

/-- One round over the credentials: `old` and `new` are the ciphers under the two keys. -/
def changeCredential (old new : Cipher) (credential : Credential) :
    Work Database Unit Error Unit := do
  let credential ← Work.ofExcept (CredentialService.decrypt old credential)
  let credential ← Work.ofExcept (CredentialService.encrypt new credential)
  CredentialRepository.store credential

/-- One round over the assets. -/
def changeAsset (old new : Cipher) (asset : Asset) : Work Database Unit Error Unit := do
  let asset ← Work.ofExcept (AssetRepository.decrypt old asset)
  let asset ← Work.ofExcept (AssetService.encrypt new asset)
  AssetRepository.store asset

/-- The body of the transaction. -/
def changeCipher (old new : Cipher) : Work Database Unit Error Unit := do
  let credentials ← CredentialRepository.findAll
  Work.each (changeCredential old new) credentials
  let assets ← AssetRepository.findAll
  Work.each (changeAsset old new) assets

def changeEncryptionKey (aes : BlockCipher) (oldEncryptionKey newEncryptionKey : String) :
    Work Database Unit Error Unit :=
  let oldPassword := encryptionPassword oldEncryptionKey
  let newPassword := encryptionPassword newEncryptionKey
  .transaction databaseFault (changeCipher (Cipher.aes aes oldPassword) (Cipher.aes aes newPassword))

end Cli

/-! ## What a change of the key keeps -/

/-- The text is not a cipher text of the empty text. -/
def Cipher.Filled (c : Cipher) (s : String) : Prop := c.decryptField s = .ok "" → s = ""

/-- A row of an asset as the services may have written it: not encrypted, or with secrets that
`Encrypt` left, which does not encrypt an empty text. -/
def AssetWritten (c : Cipher) (a : Asset) : Prop :=
  a.encrypted = true → c.Filled a.password ∧ c.Filled a.privateKey ∧ c.Filled a.passphrase

/-- The row of an asset before and after: the secrets decrypt to the same texts, and the other columns
are the same, except that the row is marked as encrypted. -/
structure AssetChanged (old new : Cipher) (a a' : Asset) : Prop where
  plain : ∃ p, AssetRepository.decrypt old a = .ok p ∧
    AssetRepository.decrypt new a' = .ok { p with encrypted := true }
  columns : a' = { a with
    password := a'.password, privateKey := a'.privateKey, passphrase := a'.passphrase,
    encrypted := true }

/-- The same for the row of a credential. -/
structure CredentialChanged (old new : Cipher) (r r' : Credential) : Prop where
  plain : ∃ p, CredentialService.decrypt old r = .ok p ∧
    CredentialService.decrypt new r' = .ok { p with encrypted := true }
  columns : r' = { r with
    password := r'.password, privateKey := r'.privateKey, passphrase := r'.passphrase,
    encrypted := true }

/-- All rows of both tables are changed, and no other table is. -/
structure CipherChanged (old new : Cipher) (db db' : Database) : Prop where
  credentials : List.Forall₂ (CredentialChanged old new) db.credentials.rows db'.credentials.rows
  assets : List.Forall₂ (AssetChanged old new) db.assets.rows db'.assets.rows
  others : db' = { db with credentials := db'.credentials, assets := db'.assets }

end NextDBM
