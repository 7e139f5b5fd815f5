import NextDBM.Assets.Services
import NextDBM.Library.Runs

/-!
# Proofs: stored secrets are encrypted

Whatever the requests do, every secret in the tables of assets and credentials is empty, the
placeholder, or a cipher text under the configured key. So each of them can be decrypted, and sessions,
which do not know whether their secrets are encrypted, decrypt the same texts as assets do.
-/

namespace NextDBM

open Relational

variable {c : Cipher} {db db' : Database} {s e : String}

/-- A secret as it may stand in a table. -/
def Cipher.Sealed (c : Cipher) (s : String) : Prop :=
  s = "" ∨ s = "-" ∨ ∃ plain, c.encrypt plain = .ok s

/-- A row of an asset as the services store it. -/
structure SealedAsset (c : Cipher) (a : Asset) : Prop where
  encrypted : a.encrypted = true
  password : c.Sealed a.password
  privateKey : c.Sealed a.privateKey
  passphrase : c.Sealed a.passphrase

/-- A row of a credential as the services store it. -/
structure SealedCredential (c : Cipher) (r : Credential) : Prop where
  encrypted : r.encrypted = true
  password : c.Sealed r.password
  privateKey : c.Sealed r.privateKey
  passphrase : c.Sealed r.passphrase

/-- The tables of assets and credentials as the services leave them. -/
structure Stored (c : Cipher) (db : Database) : Prop where
  assets : ∀ a ∈ db.assets, SealedAsset c a
  credentials : ∀ r ∈ db.credentials, SealedCredential c r

/-! ## Sealed texts -/

theorem Cipher.sealed_dash : c.Sealed "-" := .inr (.inl rfl)

theorem Cipher.sealed_of_encryptField (h : c.encryptField s = .ok e) : c.Sealed e := by
  unfold encryptField at h
  split at h
  · exact .inr (.inr ⟨s, h⟩)
  · next hs =>
    obtain rfl := Except.ok.inj h
    by_cases hempty : s = ""
    · exact .inl hempty
    · by_cases hdash : s = "-"
      · exact .inr (.inl hdash)
      · exact absurd ⟨hempty, hdash⟩ hs

theorem CredentialService.sealed_of_encryptField
    (h : CredentialService.encryptField c s = .ok e) : c.Sealed e := by
  unfold encryptField at h
  split at h
  · exact .inr (.inr ⟨s, h⟩)
  · next hs =>
    obtain rfl := Except.ok.inj h
    exact .inr (.inl (not_not.mp hs))

theorem Cipher.Sealed.nonZero {new old : String} (hnew : c.Sealed new) (hold : c.Sealed old) :
    c.Sealed (nonZero new old) := by
  unfold NextDBM.nonZero
  split
  · exact hold
  · exact hnew

/-- Every sealed text can be decrypted. -/
theorem Cipher.Sealed.decryptField (hc : c.Lawful) (h : c.Sealed s) :
    ∃ plain, c.decryptField s = .ok plain := by
  unfold Cipher.decryptField
  rcases h with rfl | rfl | ⟨plain, hplain⟩
  · exact ⟨_, rfl⟩
  · exact ⟨_, rfl⟩
  · rw [if_pos (hc.encrypt_ne _ _ hplain)]
    exact ⟨plain, hc.decrypt_encrypt _ _ hplain⟩

theorem Cipher.sealed_empty : c.Sealed "" := .inl rfl

/-! ## Rows -/

theorem AssetService.encrypt_ok {item item' : Asset} (h : AssetService.encrypt c item = .ok item') :
    SealedAsset c item' := by
  unfold encrypt at h
  obtain ⟨password, hpassword, h⟩ := bind_eq_ok.mp h
  obtain ⟨privateKey, hprivateKey, h⟩ := bind_eq_ok.mp h
  obtain ⟨passphrase, hpassphrase, h⟩ := bind_eq_ok.mp h
  obtain rfl := Except.ok.inj h
  exact ⟨rfl, Cipher.sealed_of_encryptField hpassword, Cipher.sealed_of_encryptField hprivateKey,
    Cipher.sealed_of_encryptField hpassphrase⟩

/-- Writing sealed texts, or none, over a stored row leaves it sealed. -/
theorem SealedAsset.assign {o a : Asset} (ha : SealedAsset c a) (hpassword : c.Sealed o.password)
    (hprivateKey : c.Sealed o.privateKey) (hpassphrase : c.Sealed o.passphrase) :
    SealedAsset c (AssetRepository.assign o a) :=
  { encrypted := by simp [AssetRepository.assign, ha.encrypted]
    password := hpassword.nonZero ha.password
    privateKey := hprivateKey.nonZero ha.privateKey
    passphrase := hpassphrase.nonZero ha.passphrase }

theorem CredentialService.encrypt_ok {item item' : Credential}
    (h : CredentialService.encrypt c item = .ok item') : SealedCredential c item' := by
  unfold encrypt at h
  obtain ⟨password, hpassword, h⟩ := bind_eq_ok.mp h
  obtain ⟨privateKey, hprivateKey, h⟩ := bind_eq_ok.mp h
  obtain ⟨passphrase, hpassphrase, h⟩ := bind_eq_ok.mp h
  obtain rfl := Except.ok.inj h
  exact ⟨rfl, sealed_of_encryptField hpassword, sealed_of_encryptField hprivateKey,
    sealed_of_encryptField hpassphrase⟩

theorem SealedCredential.assign {o r : Credential} (hr : SealedCredential c r)
    (hpassword : c.Sealed o.password) (hprivateKey : c.Sealed o.privateKey)
    (hpassphrase : c.Sealed o.passphrase) : SealedCredential c (CredentialRepository.assign o r) :=
  { encrypted := by simp [CredentialRepository.assign, hr.encrypted]
    password := hpassword.nonZero hr.password
    privateKey := hprivateKey.nonZero hr.privateKey
    passphrase := hpassphrase.nonZero hr.passphrase }

/-- The update endpoint encrypts the secrets of the type; the others are the placeholder. -/
theorem CredentialApi.encryptOfType_ok {item₀ item item' : Credential}
    (hplaceholders : CredentialApi.placeholders item₀ = .ok item)
    (h : CredentialApi.encryptOfType c item = .ok item') : SealedCredential c item' := by
  unfold placeholders at hplaceholders
  unfold encryptOfType at h
  split at hplaceholders
  · next htype =>
    obtain rfl := Except.ok.inj hplaceholders
    rw [if_pos (show item₀.type = nd.custom from htype)] at h
    obtain ⟨password, hpassword, h⟩ := bind_eq_ok.mp h
    obtain rfl := Except.ok.inj h
    exact ⟨rfl, CredentialService.sealed_of_encryptField hpassword, Cipher.sealed_dash,
      Cipher.sealed_dash⟩
  · next htype =>
    obtain rfl := Except.ok.inj hplaceholders
    have hne : item₀.type ≠ nd.custom := by
      rw [htype]
      decide
    rw [if_neg hne] at h
    obtain ⟨privateKey, hprivateKey, h⟩ := bind_eq_ok.mp h
    obtain ⟨passphrase, hpassphrase, h⟩ := bind_eq_ok.mp h
    obtain rfl := Except.ok.inj h
    exact ⟨rfl, Cipher.sealed_dash, CredentialService.sealed_of_encryptField hprivateKey,
      CredentialService.sealed_of_encryptField hpassphrase⟩
  · cases hplaceholders

/-! ## Tables -/

theorem Stored.of_eq (h : Stored c db) (ha : db'.assets = db.assets)
    (hr : db'.credentials = db.credentials) : Stored c db' :=
  ⟨ha ▸ h.assets, hr ▸ h.credentials⟩

theorem AssetRepository.updateAttributes_ok {assetId protocol : String} {m : String → String}
    (h : AssetRepository.updateAttributes db assetId protocol m = .ok db') :
    db'.assets = db.assets ∧ db'.credentials = db.credentials := by
  unfold updateAttributes at h
  simp only at h
  split at h
  · obtain rfl := Except.ok.inj h
    exact ⟨rfl, rfl⟩
  · cases h

theorem Stored.assetCreate {o : Asset} (h : Stored c db) (ho : SealedAsset c o)
    (hcreate : AssetRepository.create db o = .ok db') : Stored c db' := by
  unfold AssetRepository.create at hcreate
  split at hcreate
  · next assets hinsert =>
    obtain rfl := Except.ok.inj hcreate
    refine ⟨fun a ha => ?_, h.credentials⟩
    rcases (Table.mem_of_insert hinsert).mp ha with rfl | ha
    · exact ho
    · exact h.assets a ha
  · cases hcreate

theorem Stored.assetUpdate {o : Asset} {id : String} (h : Stored c db)
    (hpassword : c.Sealed o.password) (hprivateKey : c.Sealed o.privateKey)
    (hpassphrase : c.Sealed o.passphrase) (hupdate : AssetRepository.updateById db o id = .ok db') :
    Stored c db' := by
  unfold AssetRepository.updateById at hupdate
  split at hupdate
  · cases hupdate
  · obtain rfl := Except.ok.inj hupdate
    refine ⟨fun a ha => ?_, h.credentials⟩
    rcases Table.mem_updateById (AssetRepository.assign_id o) ha with ha | ⟨b, hb, -, rfl⟩
    · exact h.assets a ha
    · exact (h.assets b hb).assign hpassword hprivateKey hpassphrase

theorem Stored.credentialCreate {o : Credential} (h : Stored c db) (ho : SealedCredential c o)
    (hcreate : CredentialRepository.create db o = .ok db') : Stored c db' := by
  unfold CredentialRepository.create at hcreate
  split at hcreate
  · next credentials hinsert =>
    obtain rfl := Except.ok.inj hcreate
    refine ⟨h.assets, fun r hr => ?_⟩
    rcases (Table.mem_of_insert hinsert).mp hr with rfl | hr
    · exact ho
    · exact h.credentials r hr
  · cases hcreate

theorem Stored.credentialUpdate {o : Credential} {id : String} (h : Stored c db)
    (hpassword : c.Sealed o.password) (hprivateKey : c.Sealed o.privateKey)
    (hpassphrase : c.Sealed o.passphrase)
    (hupdate : CredentialRepository.updateById db o id = .ok db') : Stored c db' := by
  unfold CredentialRepository.updateById at hupdate
  split at hupdate
  · cases hupdate
  · obtain rfl := Except.ok.inj hupdate
    refine ⟨h.assets, fun r hr => ?_⟩
    rcases Table.mem_updateById (CredentialRepository.assign_id o) hr with hr | ⟨b, hb, -, rfl⟩
    · exact h.credentials r hr
    · exact (h.credentials b hb).assign hpassword hprivateKey hpassphrase

/-! ## Requests -/

theorem Stored.commit {r : Except Error Database} (h : Stored c db)
    (hok : ∀ db', r = .ok db' → Stored c db') : Stored c (commit db r) := by
  cases r with
  | ok db' => exact hok db' rfl
  | error err => exact h

theorem Stored.create {uuid : String} {m : AssetBody} (h : Stored c db)
    (hcreate : (AssetService.create c db uuid m).map Prod.fst = .ok db') : Stored c db' := by
  cases hresult : AssetService.create c db uuid m with
  | error err =>
    rw [hresult] at hcreate
    cases hcreate
  | ok result =>
    rw [hresult] at hcreate
    obtain rfl := Except.ok.inj hcreate
    unfold AssetService.create at hresult
    obtain ⟨item, hitem, hresult⟩ := bind_eq_ok.mp hresult
    obtain ⟨db₁, hdb₁, hresult⟩ := bind_eq_ok.mp hresult
    obtain ⟨db₂, hdb₂, hresult⟩ := bind_eq_ok.mp hresult
    obtain rfl := Except.ok.inj hresult
    obtain ⟨hassets, hcredentials⟩ := AssetRepository.updateAttributes_ok hdb₂
    exact (h.assetCreate (AssetService.encrypt_ok hitem) hdb₁).of_eq hassets hcredentials

theorem Stored.updateById {id : String} {m : AssetBody} (h : Stored c db)
    (hupdate : AssetService.updateById c db id m = .ok db') : Stored c db' := by
  unfold AssetService.updateById at hupdate
  obtain ⟨item, hitem, hupdate⟩ := bind_eq_ok.mp hupdate
  obtain ⟨db₁, hdb₁, hupdate⟩ := bind_eq_ok.mp hupdate
  obtain ⟨hassets, hcredentials⟩ := AssetRepository.updateAttributes_ok hupdate
  have hsealed : SealedAsset c item := AssetService.encrypt_ok hitem
  exact (h.assetUpdate hsealed.password hsealed.privateKey hsealed.passphrase hdb₁).of_eq hassets
    hcredentials

theorem Stored.setAssetActive {assetId : String} (h : Stored c db)
    (hset : AssetRequest.setAssetActive db assetId = .ok db') : Stored c db' := by
  unfold AssetRequest.setAssetActive at hset
  obtain ⟨asset, hasset, hset⟩ := bind_eq_ok.mp hset
  have hmem : asset ∈ db.assets := (Table.findById_eq_some.mp (firstOrNotFound_eq_ok.mp hasset)).1
  have hsealed := h.assets asset hmem
  split at hset
  · obtain rfl := Except.ok.inj hset
    exact h
  · exact h.assetUpdate (o := { asset with active := true }) hsealed.password hsealed.privateKey
      hsealed.passphrase hset

/-- **Step lemma**: every request leaves the tables as the services store them. -/
theorem Stored.handle (h : Stored c db) (r : AssetRequest) : Stored c (AssetRequest.handle c db r) := by
  cases r with
  | assetCreate uuid m => exact h.commit fun db' hok => h.create hok
  | assetUpdate id m => exact h.commit fun db' hok => h.updateById hok
  | assetChangeOwner id owner =>
    exact h.commit fun db' hok =>
      h.assetUpdate Cipher.sealed_empty Cipher.sealed_empty Cipher.sealed_empty hok
  | assetUpdateActive active message id =>
    refine ⟨fun a ha => ?_, h.credentials⟩
    rcases Table.mem_updateById (AssetRepository.setActive_id active message) ha with
      ha | ⟨b, hb, -, rfl⟩
    · exact h.assets a ha
    · obtain ⟨hencrypted, hpassword, hprivateKey, hpassphrase⟩ := h.assets b hb
      exact ⟨hencrypted, hpassword, hprivateKey, hpassphrase⟩
  | sessionConnect assetId => exact h.commit fun db' hok => h.setAssetActive hok
  | assetDelete id =>
    refine ⟨fun a ha => ?_, h.credentials⟩
    exact h.assets a (Table.mem_deleteWhere.mp ha).1
  | credentialCreate uuid owner item =>
    refine h.commit fun db' hok => ?_
    unfold CredentialApi.credentialCreateEndpoint CredentialService.create at hok
    obtain ⟨item₁, -, hok⟩ := bind_eq_ok.mp hok
    obtain ⟨item₂, hitem₂, hok⟩ := bind_eq_ok.mp hok
    exact h.credentialCreate (CredentialService.encrypt_ok hitem₂) hok
  | credentialImport item =>
    refine h.commit fun db' hok => ?_
    unfold CredentialService.create at hok
    obtain ⟨item₁, hitem₁, hok⟩ := bind_eq_ok.mp hok
    exact h.credentialCreate (CredentialService.encrypt_ok hitem₁) hok
  | credentialUpdate id item =>
    refine h.commit fun db' hok => ?_
    unfold CredentialApi.credentialUpdateEndpoint at hok
    obtain ⟨item₁, hitem₁, hok⟩ := bind_eq_ok.mp hok
    obtain ⟨item₂, hitem₂, hok⟩ := bind_eq_ok.mp hok
    have hsealed : SealedCredential c item₂ := CredentialApi.encryptOfType_ok hitem₁ hitem₂
    exact h.credentialUpdate hsealed.password hsealed.privateKey hsealed.passphrase hok
  | credentialChangeOwner id owner =>
    exact h.commit fun db' hok =>
      h.credentialUpdate Cipher.sealed_empty Cipher.sealed_empty Cipher.sealed_empty hok
  | credentialDelete id =>
    refine ⟨h.assets, fun r hr => ?_⟩
    exact h.credentials r (Table.mem_deleteWhere.mp hr).1
  | other db' => exact h.of_eq rfl rfl

/-- **Run lemma**: in every state that the requests reach the secrets are encrypted. -/
theorem Stored.of_reaches (h : Transition.Reaches (AssetRequest.step c) Transition.Any db db')
    (hdb : Stored c db) : Stored c db' := by
  refine h.invariant (fun s r t hs _ hstep => ?_) hdb
  obtain rfl := Option.some.inj hstep
  exact hs.handle r

theorem stored_empty (c : Cipher) : Stored c {} :=
  ⟨fun _ ha => absurd ha List.not_mem_nil, fun _ hr => absurd hr List.not_mem_nil⟩

end NextDBM
