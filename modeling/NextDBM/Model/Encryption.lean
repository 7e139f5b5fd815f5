import NextDBM.Library.Base64
import NextDBM.Library.BlockMode
import NextDBM.Library.Calls
import NextDBM.Library.MD5
import NextDBM.Model.Secrets

/-!
# The cipher of the stored secrets

`AesEncryptCBC` and `AesDecryptCBC` over AES on blocks, which is a parameter. The key is the MD5 digest
of the configured text, in hexadecimal. A panic of the decryption is an error here, and so is a plain
text that is not UTF-8.
-/

namespace NextDBM

open BlockMode
open BlockMode Calls

/-- The bytes of a text. -/
def bytesOf (s : String) : List UInt8 := s.toByteArray.data.toList

def stringOf (bytes : List UInt8) : Option String := String.fromUTF8? ⟨bytes.toArray⟩

theorem stringOf_bytesOf (s : String) : stringOf (bytesOf s) = some s := by
  have hvalid : (⟨(bytesOf s).toArray⟩ : ByteArray).IsValidUTF8 := s.isValidUTF8
  unfold stringOf String.fromUTF8?
  rw [dif_pos hvalid]
  rfl

/-- AES: the encryption and decryption of one block under a key. -/
structure BlockCipher where
  encrypt : List UInt8 → Block → Block
  decrypt : List UInt8 → Block → Block

/-- `BlockSize` of AES. -/
def blockSize : Nat := 16

/-- The key sizes that `aes.NewCipher` accepts. -/
def validKey (key : List UInt8) : Bool := key.length = 16 || key.length = 24 || key.length = 32

/-- Under every key, decryption inverts encryption on blocks. -/
def BlockCipher.Invertible (aes : BlockCipher) : Prop :=
  ∀ key, validKey key = true → Inverts blockSize (aes.encrypt key) (aes.decrypt key)

/-- A cipher of one block that exchanges two of them. -/
def swapBlock (x y b : Block) : Block :=
  if b = x then y else if b = y then x else b

theorem swapBlock_inverts {n : Nat} {x y : Block} (hx : x.length = n)
    (hy : y.length = n) : Inverts n (swapBlock x y) (swapBlock x y) := by
  constructor
  · intro b hb
    unfold swapBlock
    split
    · exact hy
    · split
      · exact hx
      · exact hb
  · intro b _
    unfold swapBlock
    by_cases hbx : b = x
    · rw [if_pos hbx, hbx]
      by_cases hyx : y = x
      · rw [if_pos hyx, hyx]
      · rw [if_neg hyx, if_pos rfl]
    · rw [if_neg hbx]
      by_cases hby : b = y
      · rw [if_pos hby, if_pos rfl, hby]
      · rw [if_neg hby, if_neg hbx, if_neg hby]

def aesEncryptCBC (aes : BlockCipher) (origData key : List UInt8) : Except Error (List UInt8) :=
  if validKey key then
    .ok (BlockMode.encrypt blockSize (aes.encrypt key) (key.take blockSize) origData)
  else .error (.text "crypto/aes: invalid key size")

def aesDecryptCBC (aes : BlockCipher) (encrypted key : List UInt8) : Except Error (List UInt8) :=
  if validKey key then
    match BlockMode.decrypt blockSize (aes.decrypt key) (key.take blockSize) encrypted with
    | some origData => .ok origData
    | none => .error (.text "panic")
  else .error (.text "crypto/aes: invalid key size")

/-- The cipher of the secrets under a key. -/
def Cipher.aes (aes : BlockCipher) (key : List UInt8) : Cipher where
  encrypt s := (aesEncryptCBC aes (bytesOf s) key).map fun e => String.ofList (Base64.encode e)
  decrypt s :=
    match Base64.decode s.toList with
    | none => .error (.text "illegal base64 data")
    | some data =>
      match aesDecryptCBC aes data key with
      | .error err => .error err
      | .ok origData =>
        match stringOf origData with
        | some s => .ok s
        | none => .error (.text "invalid UTF-8")

/-- The key of a configured text: `fmt.Sprintf("%x", md5.Sum(…))`. -/
def encryptionPassword (encryptionKey : String) : List UInt8 :=
  bytesOf (Digest.md5Hex encryptionKey)

theorem take_length_of_validKey {key : List UInt8} (h : validKey key = true) :
    (key.take blockSize).length = blockSize := by
  unfold validKey at h
  simp only [Bool.or_eq_true, decide_eq_true_eq] at h
  rw [List.length_take, blockSize]
  omega

/-- **The cipher of the secrets can be inverted** when the block cipher can. -/
theorem Cipher.aes_lawful {aes : BlockCipher} (haes : aes.Invertible) (key : List UInt8) :
    (Cipher.aes aes key).Lawful := by
  have hsize : 0 < blockSize ∧ blockSize < 256 := by decide
  have hencrypt {s e : String} (h : (Cipher.aes aes key).encrypt s = .ok e) : validKey key = true ∧
      e = String.ofList (Base64.encode
        (BlockMode.encrypt blockSize (aes.encrypt key) (key.take blockSize) (bytesOf s))) := by
    simp only [Cipher.aes, aesEncryptCBC] at h
    by_cases hkey : validKey key = true
    · rw [if_pos hkey] at h
      exact ⟨hkey, (Except.ok.inj h).symm⟩
    · rw [if_neg hkey] at h
      cases h
  constructor
  · intro s e h
    obtain ⟨hkey, rfl⟩ := hencrypt h
    have hiv := take_length_of_validKey hkey
    have hround := BlockMode.decrypt_encrypt (haes key hkey) hsize.1 hsize.2 hiv (bytesOf s)
    simp only [Cipher.aes, String.toList_ofList, Base64.decode_encode, aesDecryptCBC, if_pos hkey,
      hround, stringOf_bytesOf]
  · intro s e h
    obtain ⟨hkey, rfl⟩ := hencrypt h
    have hiv := take_length_of_validKey hkey
    have hlen := BlockMode.encrypt_length (haes key hkey) hsize.1 hiv (bytesOf s)
    have hne : BlockMode.encrypt blockSize (aes.encrypt key) (key.take blockSize) (bytesOf s) ≠ [] := by
      intro hnil
      rw [hnil, List.length_nil, Nat.succ_mul] at hlen
      have := hsize.1
      omega
    have hfour := Base64.four_le_length_encode hne
    constructor
    · intro heq
      have hlist := congrArg String.toList heq
      rw [String.toList_ofList] at hlist
      rw [hlist] at hfour
      exact absurd hfour (by decide)
    · intro heq
      have hlist := congrArg String.toList heq
      rw [String.toList_ofList] at hlist
      rw [hlist] at hfour
      exact absurd hfour (by decide)

/-! ## Reading ciphertexts

`AesDecryptCBC`, `DeCryptPassword` and the second implementation, `Passwd`, with the panics that the
checks of the run time raise: `CryptBlocks` takes whole blocks only, and the unpadding slices the text
by its last byte. A stored ciphertext is a text with one character for each byte, a plain text a list of
bytes.
-/

/-- The decryption of a block gives a block. -/
def BlockCipher.KeepsBlocks (aes : BlockCipher) : Prop :=
  ∀ key b, b.length = blockSize → (aes.decrypt key b).length = blockSize

/-- `CryptBlocks` of the CBC decrypter of a key; the first bytes of the key are the initial block. -/
def cryptBlocks (aes : BlockCipher) (key src : List UInt8) : Outcome (List UInt8) :=
  if src.length % blockSize = 0 then
    .returned (cbcDecrypt (aes.decrypt key) (key.take blockSize)
      (blocks blockSize (src.length / blockSize) src)).flatten
  else .panicked

/-- A ciphertext that the key decrypts and whose padding can be taken off. -/
abbrev Decryptable (aes : BlockCipher) (key encrypted : List UInt8) : Prop :=
  Unpaddable blockSize (aes.decrypt key) (key.take blockSize) encrypted

namespace Utils

def pkcs5UnPadding (origData : List UInt8) : Outcome (List UInt8) :=
  match unpad origData with
  | some data => .returned data
  | none => .panicked

def aesDecryptCBC (aes : BlockCipher) (encrypted key : List UInt8) : Outcome (List UInt8) :=
  if validKey key then
    match cryptBlocks aes key encrypted with
    | .returned origData => pkcs5UnPadding origData
    | .failed err => .failed err
    | .panicked => .panicked
  else .failed ("crypto/aes: invalid key size " ++ toString key.length)

def deCryptPassword (aes : BlockCipher) (cryptPassword : String) (key : List UInt8) :
    Outcome (List UInt8) :=
  match Base64.decode cryptPassword.toList with
  | some origData => aesDecryptCBC aes origData key
  | none => .failed "illegal base64 data"

end Utils

namespace Passwd

def secretKey : List UInt8 := bytesOf "tmqKGvSwDkREcxdK"

/-- `nil` for an empty text. -/
def pkcs7UnPadding (origData : List UInt8) : Outcome (Option (List UInt8)) :=
  if origData ≠ [] then
    match unpad origData with
    | some data => .returned (some data)
    | none => .panicked
  else .returned none

def encrypt (aes : BlockCipher) (p : List UInt8) : Except String String :=
  if secretKey.length = 16 then
    let cryted := BlockMode.encrypt blockSize (aes.encrypt secretKey) (secretKey.take blockSize) p
    let password := String.ofList (Base64.encode cryted)
    if password = "" then .error "加密失败" else .ok password
  else .error "秘钥长度不正确"

/-- The error of the base64 decoder is dropped: what it has written up to there is decrypted. -/
def decrypt (aes : BlockCipher) (cryted : String) : Outcome (List UInt8) :=
  let crytedByte := (Base64.decodePart cryted.toList).1
  match cryptBlocks aes secretKey crytedByte with
  | .returned orig =>
    match pkcs7UnPadding orig with
    | .returned (some orig) => .returned orig
    | .returned none => .failed "无法获得传入密码"
    | .failed err => .failed err
    | .panicked => .panicked
  | .failed err => .failed err
  | .panicked => .panicked

end Passwd

/-- Neither of the three panics. -/
structure Answers (aes : BlockCipher) (key encrypted : List UInt8) (ciphertext : String) : Prop where
  aesDecryptCBC : Utils.aesDecryptCBC aes encrypted key ≠ .panicked
  deCryptPassword : Utils.deCryptPassword aes ciphertext key ≠ .panicked
  decrypt : Passwd.decrypt aes ciphertext ≠ .panicked

/-- What the three need: a ciphertext that is decrypted has whole blocks and no more padding than text.
It is not decrypted when the key has no valid size, or when the text is not base64 and its error is
looked at; `Passwd` also stands a text that decodes to nothing. -/
structure Readable (aes : BlockCipher) (key encrypted : List UInt8) (ciphertext : String) :
    Prop where
  bytes : validKey key = true → Decryptable aes key encrypted
  text : ∀ origData, validKey key = true → Base64.decode ciphertext.toList = some origData →
    Decryptable aes key origData
  part : (Base64.decodePart ciphertext.toList).1 ≠ [] →
    Decryptable aes Passwd.secretKey (Base64.decodePart ciphertext.toList).1

end NextDBM
