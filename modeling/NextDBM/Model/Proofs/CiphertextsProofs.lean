import NextDBM.Model.Encryption

/-!
# Proofs: reading ciphertexts

Both implementations decrypt whole blocks and take off the padding, so each is `BlockMode.decrypt` where
it does not panic, and what can be decrypted there settles the panics.
-/

namespace NextDBM

open BlockMode Calls

variable {aes : BlockCipher} {key encrypted origData p : List UInt8} {ciphertext : String}

theorem blockSize_pos : 0 < blockSize := by decide

theorem blockSize_lt : blockSize < 256 := by decide

/-! ## The three functions through `BlockMode.decrypt` -/

/-- `CryptBlocks` and the unpadding are the decryption of the library. -/
theorem decrypt_eq_cryptBlocks : BlockMode.decrypt blockSize (aes.decrypt key) (key.take blockSize) encrypted =
    match cryptBlocks aes key encrypted with
    | .returned origData => unpad origData
    | _ => none := by
  rw [BlockMode.decrypt, cryptBlocks]
  split
  · rfl
  · rfl

theorem Utils.aesDecryptCBC_of_some (hkey : validKey key = true)
    (h : BlockMode.decrypt blockSize (aes.decrypt key) (key.take blockSize) encrypted =
      some origData) : Utils.aesDecryptCBC aes encrypted key = .returned origData := by
  rw [decrypt_eq_cryptBlocks] at h
  rw [Utils.aesDecryptCBC, if_pos hkey]
  rcases hcrypt : cryptBlocks aes key encrypted with plain | err | _
  · rw [hcrypt] at h
    dsimp only at h ⊢
    rw [Utils.pkcs5UnPadding, h]
  · rw [hcrypt] at h
    cases h
  · rw [hcrypt] at h
    cases h

theorem Utils.aesDecryptCBC_of_none (hkey : validKey key = true)
    (h : BlockMode.decrypt blockSize (aes.decrypt key) (key.take blockSize) encrypted = none) :
    Utils.aesDecryptCBC aes encrypted key = .panicked := by
  rw [BlockMode.decrypt] at h
  rw [Utils.aesDecryptCBC, if_pos hkey, cryptBlocks]
  split at h
  · next hwhole =>
    rw [if_pos hwhole]
    dsimp only
    rw [Utils.pkcs5UnPadding, h]
  · next hwhole => rw [if_neg hwhole]

/-- The model of the stored secrets decrypts as `AesDecryptCBC` does, with its panics for errors. -/
theorem aesDecryptCBC_eq_ok :
    aesDecryptCBC aes encrypted key = .ok origData ↔
      Utils.aesDecryptCBC aes encrypted key = .returned origData := by
  rw [NextDBM.aesDecryptCBC]
  by_cases hkey : validKey key = true
  · rw [if_pos hkey]
    cases h : BlockMode.decrypt blockSize (aes.decrypt key) (key.take blockSize) encrypted with
    | some plain =>
      rw [Utils.aesDecryptCBC_of_some hkey h]
      dsimp only
      rw [Except.ok.injEq, Outcome.returned.injEq]
    | none =>
      rw [Utils.aesDecryptCBC_of_none hkey h]
      exact ⟨fun h => (by cases h), fun h => (by cases h)⟩
  · rw [if_neg hkey, Utils.aesDecryptCBC, if_neg hkey]
    exact ⟨fun h => (by cases h), fun h => (by cases h)⟩

/-- `Passwd` decrypts what `AesDecryptCBC` does. -/
theorem Passwd.decrypt_of_some
    (h : BlockMode.decrypt blockSize (aes.decrypt secretKey) (secretKey.take blockSize)
      (Base64.decodePart ciphertext.toList).1 = some p) :
    Passwd.decrypt aes ciphertext = .returned p := by
  rw [decrypt_eq_cryptBlocks] at h
  rw [Passwd.decrypt]
  rcases hcrypt : cryptBlocks aes secretKey (Base64.decodePart ciphertext.toList).1 with plain | err | _
  · rw [hcrypt] at h
    dsimp only at h ⊢
    have hne : plain ≠ [] := by
      rintro rfl
      cases h
    rw [Passwd.pkcs7UnPadding, if_pos hne, h]
  · rw [hcrypt] at h
    cases h
  · rw [hcrypt] at h
    cases h

/-! ## The round trips -/

theorem Passwd.validKey_secretKey : validKey Passwd.secretKey = true := by decide

theorem Passwd.length_secretKey : Passwd.secretKey.length = 16 := by decide

theorem Utils.aesDecryptCBC_encrypted (haes : aes.Invertible) (hkey : validKey key = true)
    (x : List UInt8) : ∃ e, aesEncryptCBC aes x key = .ok e ∧
      Utils.aesDecryptCBC aes e key = .returned x := by
  refine ⟨_, if_pos hkey, Utils.aesDecryptCBC_of_some hkey ?_⟩
  exact BlockMode.decrypt_encrypt (haes key hkey) blockSize_pos blockSize_lt
    (take_length_of_validKey hkey) x

theorem Passwd.decrypt_encrypted (haes : aes.Invertible) (s : List UInt8) :
    ∃ e, Passwd.encrypt aes s = .ok e ∧ Passwd.decrypt aes e = .returned s := by
  have hinverts := haes secretKey validKey_secretKey
  have hiv := take_length_of_validKey validKey_secretKey
  have hround := BlockMode.decrypt_encrypt hinverts blockSize_pos blockSize_lt hiv s
  have hlen := BlockMode.encrypt_length hinverts blockSize_pos hiv s
  rw [Passwd.encrypt, if_pos length_secretKey]
  generalize BlockMode.encrypt blockSize (aes.encrypt secretKey) (secretKey.take blockSize) s = cryted
    at hround hlen ⊢
  have hne : cryted ≠ [] := by
    rintro rfl
    rw [List.length_nil, Nat.succ_mul] at hlen
    have := blockSize_pos
    omega
  have hpassword : ¬ String.ofList (Base64.encode cryted) = "" := by
    intro heq
    have hlist := congrArg String.toList heq
    rw [String.toList_ofList] at hlist
    have hfour := Base64.four_le_length_encode hne
    rw [hlist] at hfour
    exact absurd hfour (by decide)
  refine ⟨String.ofList (Base64.encode cryted), if_neg hpassword, Passwd.decrypt_of_some ?_⟩
  rw [String.toList_ofList, Base64.decode_eq_some_iff.mp (Base64.decode_encode cryted)]
  exact hround

/-- **Decryption inverts encryption** in both implementations, for a cipher that can be inverted on
blocks. -/
theorem secrets_roundTrip (haes : aes.Invertible) :
    (∀ (x key : List UInt8), validKey key = true →
        ∃ e, aesEncryptCBC aes x key = .ok e ∧ Utils.aesDecryptCBC aes e key = .returned x) ∧
      ∀ s : List UInt8, ∃ e, Passwd.encrypt aes s = .ok e ∧ Passwd.decrypt aes e = .returned s :=
  ⟨fun x _ hkey => Utils.aesDecryptCBC_encrypted haes hkey x, Passwd.decrypt_encrypted haes⟩

/-! ## Two texts that are encrypted -/

/-- A block cipher that agrees with AES on one block under the key of `next-dbm` and on one under that
of `Passwd`. -/
def adminBlock (key : List UInt8) : Block → Block :=
  if key = bytesOf "595358659d8f63b3b2dafcedfcc56d50" then
    swapBlock [84, 93, 88, 90, 91, 51, 61, 62, 50, 111, 51, 109, 61, 56, 105, 56]
      [36, 72, 150, 158, 156, 99, 64, 23, 111, 242, 50, 220, 234, 162, 226, 129]
  else if key = Passwd.secretKey then
    swapBlock [21, 9, 28, 34, 41, 125, 88, 124, 79, 96, 89, 78, 104, 115, 111, 64]
      [244, 25, 98, 230, 163, 30, 218, 163, 15, 25, 195, 94, 210, 244, 169, 236]
  else id

def adminAes : BlockCipher := { encrypt := adminBlock, decrypt := adminBlock }

theorem adminBlock_inverts (key : List UInt8) :
    Inverts blockSize (adminBlock key) (adminBlock key) := by
  unfold adminBlock
  split
  · exact swapBlock_inverts rfl rfl
  · split
    · exact swapBlock_inverts rfl rfl
    · exact ⟨fun _ hb => hb, fun _ _ => rfl⟩

theorem roundTrip_admin :
    (∃ e, aesEncryptCBC adminAes (bytesOf "admin") (encryptionPassword "next-dbm") = .ok e ∧
        Utils.aesDecryptCBC adminAes e (encryptionPassword "next-dbm") = .returned (bytesOf "admin")) ∧
      ∃ e, Passwd.encrypt adminAes (bytesOf "admin") = .ok e ∧
        Passwd.decrypt adminAes e = .returned (bytesOf "admin") :=
  have hround := @secrets_roundTrip adminAes fun key _ => adminBlock_inverts key
  ⟨hround.1 _ _ (by decide +kernel), hround.2 _⟩

example : Passwd.encrypt adminAes (bytesOf "admin") = .ok "9Bli5qMe2qMPGcNe0vSp7A==" := by
  decide

/-! ## The panics -/

theorem isSome_decrypt_iff (haes : aes.KeepsBlocks) (hkey : validKey key = true) :
    (BlockMode.decrypt blockSize (aes.decrypt key) (key.take blockSize) encrypted).isSome ↔
      Decryptable aes key encrypted :=
  decrypt_isSome_iff blockSize_pos (haes key) (take_length_of_validKey hkey)

theorem Utils.aesDecryptCBC_ne_panicked (haes : aes.KeepsBlocks) :
    Utils.aesDecryptCBC aes encrypted key ≠ .panicked ↔
      (validKey key = true → Decryptable aes key encrypted) := by
  by_cases hkey : validKey key = true
  · rw [← isSome_decrypt_iff haes hkey]
    cases h : BlockMode.decrypt blockSize (aes.decrypt key) (key.take blockSize) encrypted with
    | some plain =>
      rw [Utils.aesDecryptCBC_of_some hkey h]
      exact ⟨fun _ _ => rfl, fun _ => Outcome.returned_ne_panicked⟩
    | none =>
      rw [Utils.aesDecryptCBC_of_none hkey h]
      exact ⟨fun hne => absurd rfl hne, fun hsome => absurd (hsome hkey) Bool.false_ne_true⟩
  · rw [Utils.aesDecryptCBC, if_neg hkey]
    exact ⟨fun _ h => absurd h hkey, fun _ => Outcome.failed_ne_panicked⟩

theorem Utils.deCryptPassword_ne_panicked (haes : aes.KeepsBlocks) :
    Utils.deCryptPassword aes ciphertext key ≠ .panicked ↔
      ∀ origData, validKey key = true → Base64.decode ciphertext.toList = some origData →
        Decryptable aes key origData := by
  rw [Utils.deCryptPassword]
  cases hdecode : Base64.decode ciphertext.toList with
  | some origData =>
    dsimp only
    rw [Utils.aesDecryptCBC_ne_panicked haes]
    constructor
    · rintro h _ hkey heq
      obtain rfl := Option.some.inj heq
      exact h hkey
    · exact fun h hkey => h origData hkey rfl
  | none => exact ⟨fun _ _ _ heq => (by cases heq), fun _ => Outcome.failed_ne_panicked⟩

/-- Blocks are decrypted to blocks. -/
theorem length_cryptBlocks (haes : aes.KeepsBlocks) (hkey : validKey key = true)
    (h : cryptBlocks aes key encrypted = .returned origData) : origData.length = encrypted.length := by
  rw [cryptBlocks] at h
  split at h
  · next hwhole =>
    have hmul : encrypted.length = encrypted.length / blockSize * blockSize :=
      (Nat.div_mul_cancel (Nat.dvd_of_mod_eq_zero hwhole)).symm
    obtain ⟨hall, hcount, -⟩ := blocks_spec hmul
    obtain ⟨hlen, hplain⟩ := cbcDecrypt_length (haes key) (take_length_of_validKey hkey) hall
    obtain rfl := Outcome.returned.inj h
    rw [flatten_length hplain, hlen, hcount]
    exact hmul.symm
  · cases h

theorem Passwd.decrypt_ne_panicked (haes : aes.KeepsBlocks) :
    Passwd.decrypt aes ciphertext ≠ .panicked ↔
      ((Base64.decodePart ciphertext.toList).1 ≠ [] →
        Decryptable aes secretKey (Base64.decodePart ciphertext.toList).1) := by
  rw [← isSome_decrypt_iff haes validKey_secretKey, decrypt_eq_cryptBlocks, Passwd.decrypt]
  rcases hcrypt : cryptBlocks aes secretKey (Base64.decodePart ciphertext.toList).1 with plain | err | _
  · have hlen := length_cryptBlocks haes validKey_secretKey hcrypt
    dsimp only
    by_cases hnil : plain = []
    · subst hnil
      have hpart := List.length_eq_zero_iff.mp hlen.symm
      exact ⟨fun _ hne => absurd hpart hne, fun _ => Outcome.failed_ne_panicked⟩
    · have hpart : (Base64.decodePart ciphertext.toList).1 ≠ [] := by
        intro hpart
        rw [hpart] at hlen
        exact hnil (List.length_eq_zero_iff.mp hlen)
      rw [Passwd.pkcs7UnPadding, if_pos hnil]
      cases unpad plain with
      | some p => exact ⟨fun _ _ => rfl, fun _ => Outcome.returned_ne_panicked⟩
      | none => exact ⟨fun hne => absurd rfl hne, fun hsome => absurd (hsome hpart) Bool.false_ne_true⟩
  · rw [cryptBlocks] at hcrypt
    split at hcrypt
    · cases hcrypt
    · cases hcrypt
  · have hpart : (Base64.decodePart ciphertext.toList).1 ≠ [] := by
      intro hpart
      rw [hpart] at hcrypt
      cases hcrypt
    exact ⟨fun hne => absurd rfl hne, fun hsome => absurd (hsome hpart) Bool.false_ne_true⟩

/-- **Decryption without a panic**: the three functions return on a ciphertext exactly when what they
decrypt is of whole blocks with no more padding than text. -/
theorem answers_iff_readable (haes : aes.KeepsBlocks) (key encrypted : List UInt8)
    (ciphertext : String) :
    Answers aes key encrypted ciphertext ↔ Readable aes key encrypted ciphertext := by
  constructor
  · intro h
    exact ⟨(Utils.aesDecryptCBC_ne_panicked haes).mp h.aesDecryptCBC,
      (Utils.deCryptPassword_ne_panicked haes).mp h.deCryptPassword,
      (Passwd.decrypt_ne_panicked haes).mp h.decrypt⟩
  · intro h
    exact ⟨(Utils.aesDecryptCBC_ne_panicked haes).mpr h.bytes,
      (Utils.deCryptPassword_ne_panicked haes).mpr h.text,
      (Passwd.decrypt_ne_panicked haes).mpr h.part⟩

theorem answers_admin :
    Answers adminAes Passwd.secretKey
        [244, 25, 98, 230, 163, 30, 218, 163, 15, 25, 195, 94, 210, 244, 169, 236]
        "9Bli5qMe2qMPGcNe0vSp7A==" ↔
      Readable adminAes Passwd.secretKey
        [244, 25, 98, 230, 163, 30, 218, 163, 15, 25, 195, 94, 210, 244, 169, 236]
        "9Bli5qMe2qMPGcNe0vSp7A==" :=
  answers_iff_readable (fun key => (adminBlock_inverts key).length) _ _ _

/-- An empty ciphertext makes `AesDecryptCBC` index the last byte of an empty text. -/
theorem not_answers_empty :
    ¬ ∀ (aes : BlockCipher) (key encrypted : List UInt8) (ciphertext : String), aes.KeepsBlocks →
      Answers aes key encrypted ciphertext := by
  intro h
  have hanswers := h adminAes (encryptionPassword "next-dbm") [] "" fun key =>
    (adminBlock_inverts key).length
  exact hanswers.aesDecryptCBC (by decide +kernel)

end NextDBM
