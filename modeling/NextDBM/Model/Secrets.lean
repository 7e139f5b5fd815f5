import NextDBM.Model.Rows

/-!
# Stored secrets

Passwords, private keys and passphrases are stored encrypted (AES in CBC mode under the configured
key, then base64). The cipher is a parameter of the model.
-/

namespace NextDBM

/-- The cipher of the stored secrets. -/
structure Cipher where
  /-- `base64.EncodeToString (AesEncryptCBC s)`. -/
  encrypt : String → Except Error String
  /-- `AesDecryptCBC (base64.DecodeString s)`. -/
  decrypt : String → Except Error String

namespace Cipher

/-- The guard on every secret: an empty text and the placeholder `-` stand for none. -/
def decryptField (c : Cipher) (s : String) : Except Error String :=
  if s ≠ "" ∧ s ≠ "-" then c.decrypt s else .ok s

def encryptField (c : Cipher) (s : String) : Except Error String :=
  if s ≠ "" ∧ s ≠ "-" then c.encrypt s else .ok s

/-- The documented behaviour of the cipher: decryption inverts encryption, and a cipher text, at least
one block in base64, is neither empty nor the placeholder. -/
structure Lawful (c : Cipher) : Prop where
  decrypt_encrypt : ∀ s e, c.encrypt s = .ok e → c.decrypt e = .ok s
  encrypt_ne : ∀ s e, c.encrypt s = .ok e → e ≠ "" ∧ e ≠ "-"

end Cipher

namespace AssetService

/-- `Encrypt`, the same in the repository and in the service. -/
def encrypt (c : Cipher) (item : Asset) : Except Error Asset := do
  let password ← c.encryptField item.password
  let privateKey ← c.encryptField item.privateKey
  let passphrase ← c.encryptField item.passphrase
  pure { item with password, privateKey, passphrase, encrypted := true }

end AssetService

namespace AssetRepository

/-- `Decrypt`, the same in the repository and in the service. -/
def decrypt (c : Cipher) (item : Asset) : Except Error Asset :=
  if item.encrypted then do
    let password ← c.decryptField item.password
    let privateKey ← c.decryptField item.privateKey
    let passphrase ← c.decryptField item.passphrase
    pure { item with password, privateKey, passphrase }
  else .ok item

def findByIdAndDecrypt (c : Cipher) (db : Database) (assetId : String) : Except Error Asset := do
  let asset ← findById db assetId
  decrypt c asset

end AssetRepository

namespace CredentialService

/-- The guard on the secrets of a credential when they are stored: an empty text is encrypted. -/
def encryptField (c : Cipher) (s : String) : Except Error String :=
  if s ≠ "-" then c.encrypt s else .ok s

def encrypt (c : Cipher) (item : Credential) : Except Error Credential := do
  let password ← encryptField c item.password
  let privateKey ← encryptField c item.privateKey
  let passphrase ← encryptField c item.passphrase
  pure { item with password, privateKey, passphrase, encrypted := true }

def decrypt (c : Cipher) (item : Credential) : Except Error Credential :=
  if item.encrypted then do
    let password ← c.decryptField item.password
    let privateKey ← c.decryptField item.privateKey
    let passphrase ← c.decryptField item.passphrase
    pure { item with password, privateKey, passphrase }
  else .ok item

def findByIdAndDecrypt (c : Cipher) (db : Database) (id : String) : Except Error Credential := do
  let credential ← CredentialRepository.findById db id
  decrypt c credential

end CredentialService

namespace SessionService

/-- `Decrypt`; a session has no mark that says whether its secrets are encrypted. -/
def decrypt (c : Cipher) (item : Session) : Except Error Session := do
  let password ← c.decryptField item.password
  let privateKey ← c.decryptField item.privateKey
  let passphrase ← c.decryptField item.passphrase
  pure { item with password, privateKey, passphrase }

def findByIdAndDecrypt (c : Cipher) (db : Database) (id : String) : Except Error Session := do
  let sess ← SessionRepository.findById db id
  decrypt c sess

end SessionService

end NextDBM
