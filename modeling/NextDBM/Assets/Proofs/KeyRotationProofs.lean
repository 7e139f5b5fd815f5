import NextDBM.Assets.KeyRotation

/-!
# Proofs: a change of the key keeps every secret

Each round decrypts a row, encrypts it under the new key and writes the columns whose new value is not
empty. A secret is left alone only when its new cipher text is empty, and then the secret was empty
before as well.
-/

namespace NextDBM

open Transaction Relational

variable {c old new : Cipher} {db db' : Database} {w w' : World Database Unit} {s p e : String}
  {b : Bool}

/-! ## Secrets -/

theorem nonZero_self (s : String) : nonZero s s = s := by
  unfold nonZero
  split
  · rfl
  · rfl

/-- What the guard on the secrets encrypts, the other guard decrypts. -/
theorem Cipher.decryptField_of_encryptField (hc : c.Lawful) (h : c.encryptField p = .ok e) :
    c.decryptField e = .ok p := by
  unfold Cipher.encryptField at h
  by_cases hp : p ≠ "" ∧ p ≠ "-"
  · rw [if_pos hp] at h
    rw [Cipher.decryptField, if_pos (hc.encrypt_ne p e h), hc.decrypt_encrypt p e h]
  · rw [if_neg hp] at h
    obtain rfl := Except.ok.inj h
    rw [Cipher.decryptField, if_neg hp]

/-- Only the empty text is stored as the empty text. -/
theorem Cipher.encryptField_empty (hc : c.Lawful) (h : c.encryptField p = .ok e) :
    e = "" ↔ p = "" := by
  unfold Cipher.encryptField at h
  by_cases hp : p ≠ "" ∧ p ≠ "-"
  · rw [if_pos hp] at h
    have hne := (hc.encrypt_ne p e h).1
    exact ⟨fun he => absurd he hne, fun he => absurd he hp.1⟩
  · rw [if_neg hp] at h
    obtain rfl := Except.ok.inj h
    exact Iff.rfl

theorem CredentialService.decryptField_of_encryptField (hc : c.Lawful)
    (h : CredentialService.encryptField c p = .ok e) : c.decryptField e = .ok p := by
  unfold CredentialService.encryptField at h
  by_cases hp : p ≠ "-"
  · rw [if_pos hp] at h
    rw [Cipher.decryptField, if_pos (hc.encrypt_ne p e h), hc.decrypt_encrypt p e h]
  · rw [if_neg hp] at h
    obtain rfl := Except.ok.inj h
    rw [not_not.mp hp]
    rfl

/-- The secrets of a credential are never stored as the empty text. -/
theorem CredentialService.encryptField_ne (hc : c.Lawful)
    (h : CredentialService.encryptField c p = .ok e) : e ≠ "" := by
  unfold CredentialService.encryptField at h
  by_cases hp : p ≠ "-"
  · rw [if_pos hp] at h
    exact (hc.encrypt_ne p e h).1
  · rw [if_neg hp] at h
    obtain rfl := Except.ok.inj h
    rw [not_not.mp hp]
    decide

/-- A secret as it is read from a row, which may be marked as encrypted. -/
def Cipher.readField (c : Cipher) (encrypted : Bool) (s : String) : Except Error String :=
  if encrypted then c.decryptField s else .ok s

section Fields

variable {α : Type} {g : String → Except Error String} {s₁ s₂ s₃ : String} {x : α}

/-- Three secrets are rewritten one after another. -/
theorem secrets_eq_ok (f : String → String → String → α) :
    (do
      let p₁ ← g s₁
      let p₂ ← g s₂
      let p₃ ← g s₃
      pure (f p₁ p₂ p₃)) = Except.ok x ↔
    ∃ p₁ p₂ p₃, g s₁ = .ok p₁ ∧ g s₂ = .ok p₂ ∧ g s₃ = .ok p₃ ∧ x = f p₁ p₂ p₃ := by
  simp only [bind_eq_ok]
  constructor
  · rintro ⟨p₁, h₁, p₂, h₂, p₃, h₃, h⟩
    exact ⟨p₁, p₂, p₃, h₁, h₂, h₃, (Except.ok.inj h).symm⟩
  · rintro ⟨p₁, p₂, p₃, h₁, h₂, h₃, rfl⟩
    exact ⟨p₁, h₁, p₂, h₂, p₃, h₃, rfl⟩

/-- Three secrets are read from a row. -/
theorem Cipher.readFields_eq_ok (f : String → String → String → α) :
    (if b then do
      let p₁ ← c.decryptField s₁
      let p₂ ← c.decryptField s₂
      let p₃ ← c.decryptField s₃
      pure (f p₁ p₂ p₃)
    else .ok (f s₁ s₂ s₃)) = Except.ok x ↔
    ∃ p₁ p₂ p₃, c.readField b s₁ = .ok p₁ ∧ c.readField b s₂ = .ok p₂ ∧ c.readField b s₃ = .ok p₃ ∧
      x = f p₁ p₂ p₃ := by
  unfold Cipher.readField
  by_cases hb : b = true
  · simp only [if_pos hb]
    exact secrets_eq_ok f
  · simp only [if_neg hb]
    constructor
    · intro h
      exact ⟨s₁, s₂, s₃, rfl, rfl, rfl, (Except.ok.inj h).symm⟩
    · rintro ⟨p₁, p₂, p₃, h₁, h₂, h₃, rfl⟩
      rw [Except.ok.inj h₁, Except.ok.inj h₂, Except.ok.inj h₃]

end Fields

theorem AssetRepository.decrypt_ok {a a' : Asset} : AssetRepository.decrypt c a = .ok a' ↔
    ∃ password privateKey passphrase, c.readField a.encrypted a.password = .ok password ∧
      c.readField a.encrypted a.privateKey = .ok privateKey ∧
      c.readField a.encrypted a.passphrase = .ok passphrase ∧
      a' = { a with password, privateKey, passphrase } := by
  unfold AssetRepository.decrypt
  exact Cipher.readFields_eq_ok fun password privateKey passphrase =>
    { a with password, privateKey, passphrase }

theorem CredentialService.decrypt_ok {r r' : Credential} :
    CredentialService.decrypt c r = .ok r' ↔
      ∃ password privateKey passphrase, c.readField r.encrypted r.password = .ok password ∧
        c.readField r.encrypted r.privateKey = .ok privateKey ∧
        c.readField r.encrypted r.passphrase = .ok passphrase ∧
        r' = { r with password, privateKey, passphrase } := by
  unfold CredentialService.decrypt
  exact Cipher.readFields_eq_ok fun password privateKey passphrase =>
    { r with password, privateKey, passphrase }

theorem AssetService.encrypt_eq_ok {a a' : Asset} : AssetService.encrypt c a = .ok a' ↔
    ∃ password privateKey passphrase, c.encryptField a.password = .ok password ∧
      c.encryptField a.privateKey = .ok privateKey ∧
      c.encryptField a.passphrase = .ok passphrase ∧
      a' = { a with password, privateKey, passphrase, encrypted := true } :=
  secrets_eq_ok fun password privateKey passphrase =>
    { a with password, privateKey, passphrase, encrypted := true }

theorem CredentialService.encrypt_eq_ok {r r' : Credential} :
    CredentialService.encrypt c r = .ok r' ↔
      ∃ password privateKey passphrase,
        CredentialService.encryptField c r.password = .ok password ∧
        CredentialService.encryptField c r.privateKey = .ok privateKey ∧
        CredentialService.encryptField c r.passphrase = .ok passphrase ∧
        r' = { r with password, privateKey, passphrase, encrypted := true } :=
  secrets_eq_ok fun password privateKey passphrase =>
    { r with password, privateKey, passphrase, encrypted := true }

theorem SessionService.decrypt_eq_ok {sess sess' : Session} :
    SessionService.decrypt c sess = .ok sess' ↔
      ∃ password privateKey passphrase, c.decryptField sess.password = .ok password ∧
        c.decryptField sess.privateKey = .ok privateKey ∧
        c.decryptField sess.passphrase = .ok passphrase ∧
        sess' = { sess with password, privateKey, passphrase } :=
  secrets_eq_ok fun password privateKey passphrase => { sess with password, privateKey, passphrase }

/-- A secret that is stored under the new key, and left alone where its cipher text is empty. -/
theorem Cipher.decryptField_nonZero (h : c.decryptField e = .ok p) (hempty : e = "" → s = "") :
    c.decryptField (nonZero e s) = .ok p := by
  by_cases he : e = ""
  · rw [hempty he, he, nonZero_self]
    rw [he] at h
    exact h
  · rw [nonZero_of_ne he]
    exact h

/-- Only an empty secret is left alone. -/
theorem Cipher.eq_empty_of_readField (hnew : new.Lawful) (hread : old.readField b s = .ok p)
    (hencrypt : new.encryptField p = .ok e) (hfilled : b = true → old.Filled s) (he : e = "") :
    s = "" := by
  have hp : p = "" := (Cipher.encryptField_empty hnew hencrypt).mp he
  rw [hp] at hread
  unfold Cipher.readField at hread
  by_cases hb : b = true
  · rw [if_pos hb] at hread
    exact hfilled hb hread
  · rw [if_neg hb] at hread
    exact Except.ok.inj hread

/-- The services do not encrypt an empty secret of an asset. -/
theorem Cipher.filled_of_encryptField (hc : c.Lawful) (h : c.encryptField p = .ok s) :
    c.Filled s := by
  intro hs
  rw [Cipher.decryptField_of_encryptField hc h] at hs
  exact (Cipher.encryptField_empty hc h).mpr (Except.ok.inj hs)

/-! ## Rows -/

/-- Writing the secrets of a row over the row itself. -/
theorem AssetRepository.assign_secrets (a : Asset) (password privateKey passphrase : String) :
    assign { a with password, privateKey, passphrase, encrypted := true } a =
      { a with
        password := nonZero password a.password
        privateKey := nonZero privateKey a.privateKey
        passphrase := nonZero passphrase a.passphrase
        encrypted := true } := by
  simp [assign, nonZero_self]

theorem CredentialRepository.assign_secrets (r : Credential)
    (password privateKey passphrase : String) :
    assign { r with password, privateKey, passphrase, encrypted := true } r =
      { r with
        password := nonZero password r.password
        privateKey := nonZero privateKey r.privateKey
        passphrase := nonZero passphrase r.passphrase
        encrypted := true } := by
  simp [assign, nonZero_self]

/-- A row that is stored under its own id is rewritten where it stands. -/
theorem AssetRepository.store_ok {o a : Asset} {xs ys : List Asset} (hid : o.id = a.id)
    (hrows : w.db.assets.rows = xs ++ a :: ys) (h : store o w = (.ok (), w')) :
    w'.db = { w.db with assets := w'.db.assets } ∧
      w'.db.assets.rows = xs ++ assign o a :: ys := by
  have hupdate := (Work.statement_ok h).1
  unfold updateById at hupdate
  by_cases ho : o.id = ""
  · rw [if_pos ho] at hupdate
    cases hupdate
  · rw [if_neg ho] at hupdate
    have hdb := (Prod.mk.inj (Except.ok.inj hupdate)).2
    rw [← hdb, hid]
    exact ⟨rfl, Table.rows_updateById hrows (assign o) (assign_id o)⟩

theorem CredentialRepository.store_ok {o r : Credential} {xs ys : List Credential}
    (hid : o.id = r.id) (hrows : w.db.credentials.rows = xs ++ r :: ys)
    (h : store o w = (.ok (), w')) :
    w'.db = { w.db with credentials := w'.db.credentials } ∧
      w'.db.credentials.rows = xs ++ assign o r :: ys := by
  have hupdate := (Work.statement_ok h).1
  unfold updateById at hupdate
  by_cases ho : o.id = ""
  · rw [if_pos ho] at hupdate
    cases hupdate
  · rw [if_neg ho] at hupdate
    have hdb := (Prod.mk.inj (Except.ok.inj hupdate)).2
    rw [← hdb, hid]
    exact ⟨rfl, Table.rows_updateById hrows (assign o) (assign_id o)⟩

/-- What a row of an asset is stored as under the new key. -/
theorem AssetChanged.of_ok {a p o : Asset} (hnew : new.Lawful) (ha : AssetWritten old a)
    (hdecrypt : AssetRepository.decrypt old a = .ok p)
    (hencrypt : AssetService.encrypt new p = .ok o) :
    AssetChanged old new a (AssetRepository.assign o a) := by
  have hplain := hdecrypt
  obtain ⟨p₁, p₂, p₃, hp₁, hp₂, hp₃, rfl⟩ := AssetRepository.decrypt_ok.mp hdecrypt
  obtain ⟨e₁, e₂, e₃, he₁, he₂, he₃, rfl⟩ := AssetService.encrypt_eq_ok.mp hencrypt
  have hassign := AssetRepository.assign_secrets a e₁ e₂ e₃
  have hpassword := Cipher.eq_empty_of_readField hnew hp₁ he₁ fun h => (ha h).1
  have hprivateKey := Cipher.eq_empty_of_readField hnew hp₂ he₂ fun h => (ha h).2.1
  have hpassphrase := Cipher.eq_empty_of_readField hnew hp₃ he₃ fun h => (ha h).2.2
  refine ⟨⟨_, hplain, ?_⟩, ?_⟩
  · refine AssetRepository.decrypt_ok.mpr ⟨p₁, p₂, p₃, ?_, ?_, ?_, ?_⟩
    · exact Cipher.decryptField_nonZero (Cipher.decryptField_of_encryptField hnew he₁) hpassword
    · exact Cipher.decryptField_nonZero (Cipher.decryptField_of_encryptField hnew he₂) hprivateKey
    · exact Cipher.decryptField_nonZero (Cipher.decryptField_of_encryptField hnew he₃) hpassphrase
    · rw [hassign]
  · rw [hassign]

/-- What a row of a credential is stored as under the new key, whatever the row held. -/
theorem CredentialChanged.of_ok {r p o : Credential} (hnew : new.Lawful)
    (hdecrypt : CredentialService.decrypt old r = .ok p)
    (hencrypt : CredentialService.encrypt new p = .ok o) :
    o.id = r.id ∧ CredentialChanged old new r (CredentialRepository.assign o r) := by
  have hplain := hdecrypt
  obtain ⟨p₁, p₂, p₃, hp₁, hp₂, hp₃, rfl⟩ := CredentialService.decrypt_ok.mp hdecrypt
  obtain ⟨e₁, e₂, e₃, he₁, he₂, he₃, rfl⟩ := CredentialService.encrypt_eq_ok.mp hencrypt
  have hassign := CredentialRepository.assign_secrets r e₁ e₂ e₃
  have hround {p e s : String} (he : CredentialService.encryptField new p = .ok e) :
      new.decryptField (nonZero e s) = .ok p :=
    Cipher.decryptField_nonZero (CredentialService.decryptField_of_encryptField hnew he) fun h =>
      absurd h (CredentialService.encryptField_ne hnew he)
  refine ⟨rfl, ⟨_, hplain, ?_⟩, ?_⟩
  · refine CredentialService.decrypt_ok.mpr ⟨p₁, p₂, p₃, hround he₁, hround he₂, hround he₃, ?_⟩
    rw [hassign]
  · rw [hassign]

/-! ## Rounds and loops -/

/-- **Step lemma**: a round over an asset rewrites its row. -/
theorem Cli.changeAsset_ok {a : Asset} {xs ys : List Asset} (hnew : new.Lawful)
    (hrows : w.db.assets.rows = xs ++ a :: ys) (h : Cli.changeAsset old new a w = (.ok (), w')) :
    w'.db = { w.db with assets := w'.db.assets } ∧
      ∃ a', (AssetWritten old a → AssetChanged old new a a') ∧
        w'.db.assets.rows = xs ++ a' :: ys := by
  obtain ⟨p, w₁, hdecrypt, hrest⟩ := Work.bind_ok.mp h
  obtain ⟨hp, rfl⟩ := Work.ofExcept_eq_ok.mp hdecrypt
  obtain ⟨o, w₂, hencrypt, hstore⟩ := Work.bind_ok.mp hrest
  obtain ⟨ho, rfl⟩ := Work.ofExcept_eq_ok.mp hencrypt
  have hid : o.id = a.id := by
    obtain ⟨_, _, _, -, -, -, rfl⟩ := AssetRepository.decrypt_ok.mp hp
    obtain ⟨_, _, _, -, -, -, rfl⟩ := AssetService.encrypt_eq_ok.mp ho
    rfl
  obtain ⟨hframe, hafter⟩ := AssetRepository.store_ok hid hrows hstore
  exact ⟨hframe, _, fun ha => AssetChanged.of_ok hnew ha hp ho, hafter⟩

/-- **Step lemma**: a round over a credential rewrites its row. -/
theorem Cli.changeCredential_ok {r : Credential} {xs ys : List Credential} (hnew : new.Lawful)
    (hrows : w.db.credentials.rows = xs ++ r :: ys)
    (h : Cli.changeCredential old new r w = (.ok (), w')) :
    w'.db = { w.db with credentials := w'.db.credentials } ∧
      ∃ r', CredentialChanged old new r r' ∧ w'.db.credentials.rows = xs ++ r' :: ys := by
  obtain ⟨p, w₁, hdecrypt, hrest⟩ := Work.bind_ok.mp h
  obtain ⟨hp, rfl⟩ := Work.ofExcept_eq_ok.mp hdecrypt
  obtain ⟨o, w₂, hencrypt, hstore⟩ := Work.bind_ok.mp hrest
  obtain ⟨ho, rfl⟩ := Work.ofExcept_eq_ok.mp hencrypt
  obtain ⟨hid, hchanged⟩ := CredentialChanged.of_ok hnew hp ho
  obtain ⟨hframe, hafter⟩ := CredentialRepository.store_ok hid hrows hstore
  exact ⟨hframe, _, hchanged, hafter⟩

theorem Cli.changeAsset_restores (a : Asset) : (Cli.changeAsset old new a).Restores :=
  .ofExcept_bind _ fun _ => .ofExcept_bind _ fun _ => .statement _

theorem Cli.changeCredential_restores (r : Credential) : (Cli.changeCredential old new r).Restores :=
  .ofExcept_bind _ fun _ => .ofExcept_bind _ fun _ => .statement _

theorem Cli.changeCredentials_ok (hnew : new.Lawful)
    (h : Work.each (Cli.changeCredential old new) w.db.credentials.rows w = (.ok (), w')) :
    w'.db = { w.db with credentials := w'.db.credentials } ∧
      List.Forall₂ (CredentialChanged old new) w.db.credentials.rows w'.db.credentials.rows := by
  have hrounds := Work.each_rewrites (fun db : Database => db.credentials.rows)
    (CredentialChanged old new) (fun db => db = { w.db with credentials := db.credentials })
    ?_ Cli.changeCredential_restores h rfl
  · obtain ⟨hframe, done, todo, done', hbefore, hchanged, hafter, hall⟩ := hrounds
    rw [hall rfl, List.append_nil] at hbefore hafter
    rw [hbefore, hafter]
    exact ⟨hframe, hchanged⟩
  · intro r v v' xs ys hv hrows hround
    obtain ⟨hframe, hrow⟩ := Cli.changeCredential_ok hnew hrows hround
    refine ⟨?_, hrow⟩
    rw [hv] at hframe
    exact hframe

theorem Cli.changeAssets_ok (hnew : new.Lawful) (hwritten : ∀ a ∈ w.db.assets, AssetWritten old a)
    (h : Work.each (Cli.changeAsset old new) w.db.assets.rows w = (.ok (), w')) :
    w'.db = { w.db with assets := w'.db.assets } ∧
      List.Forall₂ (AssetChanged old new) w.db.assets.rows w'.db.assets.rows := by
  have hrounds := Work.each_rewrites (fun db : Database => db.assets.rows)
    (fun a a' => AssetWritten old a → AssetChanged old new a a')
    (fun db => db = { w.db with assets := db.assets })
    ?_ Cli.changeAsset_restores h rfl
  · obtain ⟨hframe, done, todo, done', hbefore, hchanged, hafter, hall⟩ := hrounds
    rw [hall rfl, List.append_nil] at hbefore hafter
    simp only [Table.mem_def] at hwritten
    rw [hbefore] at hwritten ⊢
    rw [hafter]
    refine ⟨hframe, ?_⟩
    have hboth := (List.forall₂_and_left _ _).mpr ⟨hwritten, hchanged⟩
    exact hboth.imp fun a a' h => h.2 h.1
  · intro a v v' xs ys hv hrows hround
    obtain ⟨hframe, hrow⟩ := Cli.changeAsset_ok hnew hrows hround
    refine ⟨?_, hrow⟩
    rw [hv] at hframe
    exact hframe

/-- **Run lemma**: both loops rewrite every row of their tables. -/
theorem Cli.changeCipher_ok (hnew : new.Lawful) (hwritten : ∀ a ∈ w.db.assets, AssetWritten old a)
    (h : Cli.changeCipher old new w = (.ok (), w')) : CipherChanged old new w.db w'.db := by
  obtain ⟨credentials, w₁, hfirst, hrest⟩ := Work.bind_ok.mp h
  obtain ⟨u, w₂, hcredentials, hrest⟩ := Work.bind_ok.mp hrest
  obtain ⟨assets, w₃, hsecond, hassets⟩ := Work.bind_ok.mp hrest
  obtain ⟨rfl, hdb₁⟩ := Prod.mk.inj (Except.ok.inj (Work.statement_ok hfirst).1)
  obtain ⟨rfl, hdb₃⟩ := Prod.mk.inj (Except.ok.inj (Work.statement_ok hsecond).1)
  rw [hdb₁] at hcredentials
  rw [hdb₃] at hassets
  obtain ⟨hframe₂, hchanged⟩ := Cli.changeCredentials_ok hnew hcredentials
  rw [← hdb₁] at hframe₂ hchanged
  have hsame : w₃.db.assets = w.db.assets := by rw [← hdb₃, hframe₂]
  rw [← hsame] at hwritten
  obtain ⟨hframe', hassets'⟩ := Cli.changeAssets_ok hnew hwritten hassets
  have hcredentials' : w'.db.credentials = w₂.db.credentials := by rw [hframe', ← hdb₃]
  refine ⟨?_, ?_, ?_⟩
  · rw [hcredentials']
    exact hchanged
  · rw [← hsame]
    exact hassets'
  · rw [hcredentials', hframe', ← hdb₃, hframe₂]

/-- **A change of the key keeps every secret**: when it succeeds, every secret of both tables decrypts
under the new key to the text that it decrypted to under the old one; when it fails, nothing has
changed. -/
theorem Cli.changeEncryptionKey_keeps {aes : BlockCipher} (haes : aes.Invertible)
    {oldKey newKey : String} {w : World Database Unit}
    (hwritten : ∀ a ∈ w.db.assets, AssetWritten (Cipher.aes aes (encryptionPassword oldKey)) a) :
    (∀ w', Cli.changeEncryptionKey aes oldKey newKey w = (.ok (), w') →
      CipherChanged (Cipher.aes aes (encryptionPassword oldKey))
        (Cipher.aes aes (encryptionPassword newKey)) w.db w'.db) ∧
    ∀ err w', Cli.changeEncryptionKey aes oldKey newKey w = (.error err, w') → w'.db = w.db := by
  constructor
  · intro w' h
    obtain ⟨w₁, hbody, -, rfl⟩ := Work.transaction_eq_ok.mp h
    have hchanged := Cli.changeCipher_ok (Cipher.aes_lawful haes _) hwritten hbody
    exact hchanged
  · intro err w' h
    exact Work.transaction_error h

/-! ## An asset under two keys -/

/-- A block cipher that agrees with AES on one block under the keys of `next-dbm` and `rotated-key`. -/
def reportBlock (key : List UInt8) : BlockMode.Block → BlockMode.Block :=
  if key = bytesOf "595358659d8f63b3b2dafcedfcc56d50" then
    swapBlock [71, 92, 69, 92, 71, 76, 27, 69, 78, 99, 63, 97, 49, 52, 101, 52]
      [199, 166, 147, 67, 133, 139, 212, 186, 237, 83, 183, 13, 61, 149, 59, 15]
  else if key = bytesOf "34013f3c7764f3e6bb8d9e9070cd86e1" then
    swapBlock [65, 81, 64, 94, 65, 18, 30, 19, 64, 48, 49, 51, 97, 52, 98, 49]
      [160, 3, 94, 27, 224, 177, 123, 214, 220, 92, 250, 254, 227, 117, 52, 186]
  else id

def reportAes : BlockCipher := { encrypt := reportBlock, decrypt := reportBlock }

theorem reportAes_invertible : reportAes.Invertible := by
  intro key _
  show BlockMode.Inverts blockSize (reportBlock key) (reportBlock key)
  unfold reportBlock
  split
  · exact swapBlock_inverts rfl rfl
  · split
    · exact swapBlock_inverts rfl rfl
    · exact ⟨fun _ hb => hb, fun _ _ => rfl⟩

/-- A run that succeeds, with the state it ends in. -/
theorem run_eq_ok {x : Work Database Unit Error Unit} (h : (x w).1 = .ok ()) :
    x w = (.ok (), (x w).2) := by
  rw [← h]

/-- An asset that is encrypted under the default key, and a credential from before encryption. -/
def reportDatabase : Database :=
  { assets :=
      ⟨[{ id := "a1", name := "orders", accountType := "custom", username := "report",
          password := "x6aTQ4WL1LrtU7cNPZU7Dw==", encrypted := true }], by decide⟩
    credentials :=
      ⟨[{ id := "c1", name := "reports", type := "custom", username := "report",
          password := "report-pw", privateKey := "-", passphrase := "-" }], by decide⟩ }

theorem reportDatabase_written : ∀ a ∈ reportDatabase.assets,
    AssetWritten (Cipher.aes reportAes (encryptionPassword "next-dbm")) a := by
  intro a ha _
  obtain rfl := List.mem_singleton.mp ha
  refine ⟨fun h => ?_, fun _ => rfl, fun _ => rfl⟩
  have hplain : (Cipher.aes reportAes (encryptionPassword "next-dbm")).decryptField
      "x6aTQ4WL1LrtU7cNPZU7Dw==" = .ok "report-pw" := by decide +kernel
  rw [hplain] at h
  exact absurd (Except.ok.inj h) (by decide)

/-- The key of the two rows is changed, and both passwords are kept. -/
theorem changeEncryptionKey_reportDatabase :
    CipherChanged (Cipher.aes reportAes (encryptionPassword "next-dbm"))
      (Cipher.aes reportAes (encryptionPassword "rotated-key")) reportDatabase
      (Cli.changeEncryptionKey reportAes "next-dbm" "rotated-key"
        { db := reportDatabase, memory := () }).2.db := by
  have hok : (Cli.changeEncryptionKey reportAes "next-dbm" "rotated-key"
      { db := reportDatabase, memory := () }).1 = .ok () := by decide +kernel
  exact (Cli.changeEncryptionKey_keeps reportAes_invertible reportDatabase_written).1 _
    (run_eq_ok hok)

/-- An asset from before encryption, without secrets. -/
def plainDatabase : Database := { assets := ⟨[{ id := "a1", name := "orders" }], by decide⟩ }

/-- The other columns do not all stay: a row from before encryption is marked as encrypted. -/
theorem not_changeEncryptionKey_keeps_columns :
    ¬ ∀ (aes : BlockCipher) (oldKey newKey : String) (w w' : World Database Unit), aes.Invertible →
      (∀ a ∈ w.db.assets, AssetWritten (Cipher.aes aes (encryptionPassword oldKey)) a) →
      Cli.changeEncryptionKey aes oldKey newKey w = (.ok (), w') →
      ∀ a ∈ w.db.assets, ∃ a' ∈ w'.db.assets, a' = { a with
        password := a'.password, privateKey := a'.privateKey, passphrase := a'.passphrase } := by
  intro h
  have hok : (Cli.changeEncryptionKey reportAes "next-dbm" "rotated-key"
      { db := plainDatabase, memory := () }).1 = .ok () := by decide
  have hrows : (Cli.changeEncryptionKey reportAes "next-dbm" "rotated-key"
      { db := plainDatabase, memory := () }).2.db.assets.rows =
        [{ id := "a1", name := "orders", encrypted := true }] := by decide
  have hwritten : ∀ a ∈ plainDatabase.assets,
      AssetWritten (Cipher.aes reportAes (encryptionPassword "next-dbm")) a := by
    intro a ha hencrypted
    obtain rfl := List.mem_singleton.mp ha
    cases hencrypted
  obtain ⟨a', ha', heq⟩ := h reportAes "next-dbm" "rotated-key"
    { db := plainDatabase, memory := () } _ reportAes_invertible hwritten (run_eq_ok hok) _
    (List.mem_singleton.mpr rfl)
  rw [Table.mem_def, hrows] at ha'
  obtain rfl := List.mem_singleton.mp ha'
  exact absurd (congrArg Asset.encrypted heq) (by decide)

end NextDBM
