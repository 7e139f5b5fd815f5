import NextDBM.Assets.Proofs.KeyRotationProofs
import NextDBM.Assets.Proofs.ParametersProofs
import NextDBM.Assets.SessionSecrets

/-!
# Proofs: secrets survive the copy into a session

A stored row holds, secret by secret, what the guard of its table makes of the plain row. The guard of
the session decrypts both what the asset's guard and what the credential's guard encrypted, so whatever
secrets the session copies, it reads back the plain ones.
-/

namespace NextDBM

open Transaction Relational

variable {c : Cipher} {db db' : Database} {w w' : World Database Unit} {a p a' : Asset}
  {q r r' : Credential} {s e t d : String}

/-! ## Stored rows -/

/-- The columns of a stored row that a session copies, beside those of the plain row. -/
structure AssetFields (c : Cipher) (a p : Asset) : Prop where
  encrypted : a.encrypted = true
  username : a.username = p.username
  password : c.encryptField p.password = .ok a.password
  privateKey : c.encryptField p.privateKey = .ok a.privateKey
  passphrase : c.encryptField p.passphrase = .ok a.passphrase

structure CredentialFields (c : Cipher) (r q : Credential) : Prop where
  encrypted : r.encrypted = true
  type : r.type = q.type
  username : r.username = q.username
  password : CredentialService.encryptField c q.password = .ok r.password
  privateKey : CredentialService.encryptField c q.privateKey = .ok r.privateKey
  passphrase : CredentialService.encryptField c q.passphrase = .ok r.passphrase

theorem AssetFields.of_encrypt (h : AssetService.encrypt c p = .ok a) : AssetFields c a p := by
  obtain ⟨e₁, e₂, e₃, he₁, he₂, he₃, rfl⟩ := AssetService.encrypt_eq_ok.mp h
  exact ⟨rfl, rfl, he₁, he₂, he₃⟩

theorem CredentialFields.of_encrypt (h : CredentialService.encrypt c q = .ok r) :
    CredentialFields c r q := by
  obtain ⟨e₁, e₂, e₃, he₁, he₂, he₃, rfl⟩ := CredentialService.encrypt_eq_ok.mp h
  exact ⟨rfl, rfl, rfl, he₁, he₂, he₃⟩

/-- An update that leaves a secret alone leaves both the stored and the plain one alone. -/
theorem Cipher.encryptField_nonZero (hc : c.Lawful) (hnew : c.encryptField t = .ok d)
    (hold : c.encryptField s = .ok e) : c.encryptField (nonZero t s) = .ok (nonZero d e) := by
  have hempty := Cipher.encryptField_empty hc hnew
  by_cases ht : t = ""
  · rw [hempty.mpr ht, ht, nonZero_empty, nonZero_empty]
    exact hold
  · have hd : d ≠ "" := fun hd => ht (hempty.mp hd)
    rw [nonZero_of_ne ht, nonZero_of_ne hd]
    exact hnew

theorem AssetFields.assign {o m : Asset} (hc : c.Lawful) (hnew : AssetFields c o m)
    (hold : AssetFields c a p) :
    AssetFields c (AssetRepository.assign o a) (AssetRepository.assign m p) :=
  { encrypted := by simp [AssetRepository.assign, hold.encrypted]
    username := by
      show nonZero o.username a.username = nonZero m.username p.username
      rw [hnew.username, hold.username]
    password := Cipher.encryptField_nonZero hc hnew.password hold.password
    privateKey := Cipher.encryptField_nonZero hc hnew.privateKey hold.privateKey
    passphrase := Cipher.encryptField_nonZero hc hnew.passphrase hold.passphrase }

/-- A secret that is written over its own plain text is the encrypted one. -/
theorem Cipher.nonZero_encryptField (hc : c.Lawful) (h : c.encryptField s = .ok e) :
    nonZero e s = e := by
  by_cases he : e = ""
  · rw [he, (Cipher.encryptField_empty hc h).mp he, nonZero_empty]
  · exact nonZero_of_ne he s

theorem AssetFields.of_store {o : Asset} (hc : c.Lawful) (h : AssetService.encrypt c p = .ok o) :
    AssetFields c (AssetRepository.assign o p) p := by
  obtain ⟨e₁, e₂, e₃, he₁, he₂, he₃, rfl⟩ := AssetService.encrypt_eq_ok.mp h
  rw [AssetRepository.assign_secrets, Cipher.nonZero_encryptField hc he₁,
    Cipher.nonZero_encryptField hc he₂, Cipher.nonZero_encryptField hc he₃]
  exact ⟨rfl, rfl, he₁, he₂, he₃⟩

theorem CredentialFields.of_store {o : Credential} (hc : c.Lawful)
    (h : CredentialService.encrypt c q = .ok o) :
    CredentialFields c (CredentialRepository.assign o q) q := by
  obtain ⟨e₁, e₂, e₃, he₁, he₂, he₃, rfl⟩ := CredentialService.encrypt_eq_ok.mp h
  rw [CredentialRepository.assign_secrets,
    nonZero_of_ne (CredentialService.encryptField_ne hc he₁),
    nonZero_of_ne (CredentialService.encryptField_ne hc he₂),
    nonZero_of_ne (CredentialService.encryptField_ne hc he₃)]
  exact ⟨rfl, rfl, rfl, he₁, he₂, he₃⟩

/-! ## The loops of `EncryptAll` -/

theorem AssetService.encryptRow_ok {xs ys : List Asset} (hc : c.Lawful)
    (hrows : w.db.assets.rows = xs ++ a :: ys)
    (h : AssetService.encryptRow c a w = (.ok (), w')) :
    ∃ a', (a'.id = a.id ∧ (a.encrypted = false → AssetFields c a' a)) ∧
      w'.db.assets.rows = xs ++ a' :: ys := by
  unfold AssetService.encryptRow at h
  by_cases ha : a.encrypted = true
  · rw [if_pos ha] at h
    cases h
    exact ⟨a, ⟨rfl, fun hplain => absurd (ha.symm.trans hplain) (by decide)⟩, hrows⟩
  · rw [if_neg ha] at h
    obtain ⟨o, w₁, hencrypt, hstore⟩ := Work.bind_ok.mp h
    obtain ⟨ho, rfl⟩ := Work.ofExcept_eq_ok.mp hencrypt
    have hid : o.id = a.id := by
      obtain ⟨_, _, _, -, -, -, rfl⟩ := AssetService.encrypt_eq_ok.mp ho
      rfl
    obtain ⟨-, hafter⟩ := AssetRepository.store_ok hid hrows hstore
    exact ⟨AssetRepository.assign o a, ⟨rfl, fun _ => AssetFields.of_store hc ho⟩, hafter⟩

theorem AssetService.encryptRow_restores (a : Asset) : (AssetService.encryptRow c a).Restores := by
  unfold AssetService.encryptRow
  split
  · exact .pure ()
  · exact .ofExcept_bind _ fun _ => .statement _

/-- A row that a run of `EncryptAll` encrypts. -/
theorem AssetService.encryptAll_fields {e : Except Error Unit} (hc : c.Lawful)
    (hrun : AssetService.encryptAll c w = (e, w')) (ha : a ∈ w.db.assets)
    (hplain : a.encrypted = false) (ha' : a' ∈ w'.db.assets) (hid : a'.id = a.id)
    (hencrypted : a'.encrypted = true) : AssetFields c a' a := by
  have hsame (h : a' ∈ w.db.assets) : AssetFields c a' a := by
    obtain rfl := Table.eq_of_key h ha hid
    rw [hplain] at hencrypted
    cases hencrypted
  unfold AssetService.encryptAll at hrun
  rcases hfind : AssetRepository.findAll w with ⟨items, w₁⟩
  cases items with
  | error err =>
    rw [Work.bind_run_error hfind] at hrun
    cases hrun
    refine hsame ?_
    rw [← (Work.statement_error hfind).1]
    exact ha'
  | ok items =>
    rw [Work.bind_run_ok hfind] at hrun
    obtain ⟨rfl, hdb⟩ := Prod.mk.inj (Except.ok.inj (Work.statement_ok hfind).1)
    rw [hdb] at hrun ha hsame
    have hround : ∀ a v v' xs ys, True → v.db.assets.rows = xs ++ a :: ys →
        AssetService.encryptRow c a v = (.ok (), v') → True ∧
          ∃ a', (a'.id = a.id ∧ (a.encrypted = false → AssetFields c a' a)) ∧
            v'.db.assets.rows = xs ++ a' :: ys :=
      fun _ _ _ _ _ _ hrows h => ⟨trivial, AssetService.encryptRow_ok hc hrows h⟩
    obtain ⟨a₀, ha₀, rfl | ⟨hid₀, hfields⟩⟩ := Work.mem_of_each_rewrites
      (fun db : Database => db.assets.rows) _ (fun _ => True) hround
      AssetService.encryptRow_restores hrun trivial ha'
    · exact hsame ha₀
    · obtain rfl := Table.eq_of_key ha₀ ha (hid₀.symm.trans hid)
      exact hfields hplain

theorem CredentialService.encryptRow_ok {xs ys : List Credential} (hc : c.Lawful)
    (hrows : w.db.credentials.rows = xs ++ r :: ys)
    (h : CredentialService.encryptRow c r w = (.ok (), w')) :
    ∃ r', (r'.id = r.id ∧ (r.encrypted = false → CredentialFields c r' r)) ∧
      w'.db.credentials.rows = xs ++ r' :: ys := by
  unfold CredentialService.encryptRow at h
  by_cases hr : r.encrypted = true
  · rw [if_pos hr] at h
    cases h
    exact ⟨r, ⟨rfl, fun hplain => absurd (hr.symm.trans hplain) (by decide)⟩, hrows⟩
  · rw [if_neg hr] at h
    obtain ⟨o, w₁, hencrypt, hstore⟩ := Work.bind_ok.mp h
    obtain ⟨ho, rfl⟩ := Work.ofExcept_eq_ok.mp hencrypt
    have hid : o.id = r.id := by
      obtain ⟨_, _, _, -, -, -, rfl⟩ := CredentialService.encrypt_eq_ok.mp ho
      rfl
    obtain ⟨-, hafter⟩ := CredentialRepository.store_ok hid hrows hstore
    exact ⟨CredentialRepository.assign o r, ⟨rfl, fun _ => CredentialFields.of_store hc ho⟩, hafter⟩

theorem CredentialService.encryptRow_restores (r : Credential) :
    (CredentialService.encryptRow c r).Restores := by
  unfold CredentialService.encryptRow
  split
  · exact .pure ()
  · exact .ofExcept_bind _ fun _ => .statement _

theorem CredentialService.encryptAll_fields {e : Except Error Unit} (hc : c.Lawful)
    (hrun : CredentialService.encryptAll c w = (e, w')) (hr : r ∈ w.db.credentials)
    (hplain : r.encrypted = false) (hr' : r' ∈ w'.db.credentials) (hid : r'.id = r.id)
    (hencrypted : r'.encrypted = true) : CredentialFields c r' r := by
  have hsame (h : r' ∈ w.db.credentials) : CredentialFields c r' r := by
    obtain rfl := Table.eq_of_key h hr hid
    rw [hplain] at hencrypted
    cases hencrypted
  unfold CredentialService.encryptAll at hrun
  rcases hfind : CredentialRepository.findAll w with ⟨items, w₁⟩
  cases items with
  | error err =>
    rw [Work.bind_run_error hfind] at hrun
    cases hrun
    refine hsame ?_
    rw [← (Work.statement_error hfind).1]
    exact hr'
  | ok items =>
    rw [Work.bind_run_ok hfind] at hrun
    obtain ⟨rfl, hdb⟩ := Prod.mk.inj (Except.ok.inj (Work.statement_ok hfind).1)
    rw [hdb] at hrun hr hsame
    have hround : ∀ r v v' xs ys, True → v.db.credentials.rows = xs ++ r :: ys →
        CredentialService.encryptRow c r v = (.ok (), v') → True ∧
          ∃ r', (r'.id = r.id ∧ (r.encrypted = false → CredentialFields c r' r)) ∧
            v'.db.credentials.rows = xs ++ r' :: ys :=
      fun _ _ _ _ _ _ hrows h => ⟨trivial, CredentialService.encryptRow_ok hc hrows h⟩
    obtain ⟨r₀, hr₀, rfl | ⟨hid₀, hfields⟩⟩ := Work.mem_of_each_rewrites
      (fun db : Database => db.credentials.rows) _ (fun _ => True) hround
      CredentialService.encryptRow_restores hrun trivial hr'
    · exact hsame hr₀
    · obtain rfl := Table.eq_of_key hr₀ hr (hid₀.symm.trans hid)
      exact hfields hplain

/-! ## Every way to store a row -/

theorem AssetService.create_fields {uuid : String} {m : AssetBody}
    (h : AssetService.create c db uuid m = .ok (db', a)) :
    AssetFields c a { m.item with id := uuid, active := true } := by
  unfold AssetService.create at h
  obtain ⟨item, hitem, h⟩ := bind_eq_ok.mp h
  obtain ⟨db₁, -, h⟩ := bind_eq_ok.mp h
  obtain ⟨db₂, -, h⟩ := bind_eq_ok.mp h
  obtain ⟨-, rfl⟩ := Prod.mk.inj (Except.ok.inj h)
  exact AssetFields.of_encrypt hitem

/-- The row that `UpdateById` leaves under its id. -/
theorem AssetService.updateById_fields {m : AssetBody} (hc : c.Lawful) (hold : AssetFields c a p)
    (ha : a ∈ db.assets) (h : AssetService.updateById c db a.id m = .ok db')
    (ha' : a' ∈ db'.assets) (hid : a'.id = a.id) :
    AssetFields c a' (AssetRepository.assign (AssetService.placeholders m.item) p) := by
  unfold AssetService.updateById at h
  obtain ⟨o, ho, h⟩ := bind_eq_ok.mp h
  obtain ⟨db₁, hdb₁, h⟩ := bind_eq_ok.mp h
  rw [(AssetRepository.updateAttributes_ok h).1] at ha'
  unfold AssetRepository.updateById at hdb₁
  by_cases hkey : a.id = ""
  · rw [if_pos hkey] at hdb₁
    cases hdb₁
  · rw [if_neg hkey] at hdb₁
    obtain rfl := Except.ok.inj hdb₁
    obtain ⟨b, hb, hbid, rfl⟩ :=
      Table.exists_of_mem_updateById (AssetRepository.assign_id o) ha' hid
    obtain rfl := Table.eq_of_key hb ha hbid
    exact (AssetFields.of_encrypt ho).assign hc hold

theorem AssetStored.fields (hc : c.Lawful) (h : AssetStored c a p) : AssetFields c a p := by
  induction h with
  | create hcreate => exact AssetService.create_fields hcreate
  | updateById _ ha hupdate ha' hid ih =>
    exact AssetService.updateById_fields hc ih ha hupdate ha' hid
  | encryptAll hrun ha hplain ha' hid hencrypted =>
    exact AssetService.encryptAll_fields hc hrun ha hplain ha' hid hencrypted
  | owner _ owner ih =>
    obtain ⟨hencrypted, husername, hpassword, hprivateKey, hpassphrase⟩ := ih
    exact ⟨by simp [AssetRepository.assign, hencrypted], husername, hpassword, hprivateKey,
      hpassphrase⟩
  | active _ active message ih =>
    obtain ⟨hencrypted, husername, hpassword, hprivateKey, hpassphrase⟩ := ih
    exact ⟨hencrypted, husername, hpassword, hprivateKey, hpassphrase⟩

theorem CredentialService.create_fields (h : CredentialService.create c db q = .ok db')
    (hr : r ∈ db'.credentials) (hid : r.id = q.id) : CredentialFields c r q := by
  unfold CredentialService.create CredentialRepository.create at h
  obtain ⟨item, hitem, h⟩ := bind_eq_ok.mp h
  have hkey : item.id = q.id := by
    obtain ⟨_, _, _, -, -, -, rfl⟩ := CredentialService.encrypt_eq_ok.mp hitem
    rfl
  split at h
  · next credentials hinsert =>
    obtain rfl := Except.ok.inj h
    have hmem : item ∈ credentials := (Table.mem_of_insert hinsert).mpr (.inl rfl)
    obtain rfl := Table.eq_of_key hr hmem (hid.trans hkey.symm)
    exact CredentialFields.of_encrypt hitem
  · cases h

theorem CredentialStored.fields (hc : c.Lawful) (h : CredentialStored c r q) :
    CredentialFields c r q := by
  cases h with
  | create hcreate hr hid => exact CredentialService.create_fields hcreate hr hid
  | encryptAll hrun hr hplain hr' hid hencrypted =>
    exact CredentialService.encryptAll_fields hc hrun hr hplain hr' hid hencrypted

/-- What the services store of an asset can be encrypted under another key. -/
theorem AssetStored.written (hc : c.Lawful) (h : AssetStored c a p) : AssetWritten c a := by
  obtain ⟨-, -, hpassword, hprivateKey, hpassphrase⟩ := h.fields hc
  exact fun _ => ⟨Cipher.filled_of_encryptField hc hpassword,
    Cipher.filled_of_encryptField hc hprivateKey, Cipher.filled_of_encryptField hc hpassphrase⟩

/-! ## Requests -/

/-- Every row of the table of assets was stored by the services. -/
def AssetsStored (c : Cipher) (db : Database) : Prop := ∀ a ∈ db.assets, ∃ p, AssetStored c a p

theorem AssetsStored.of_eq (h : AssetsStored c db) (heq : db'.assets = db.assets) :
    AssetsStored c db' := by
  intro a ha
  rw [heq] at ha
  exact h a ha

theorem CredentialRepository.create_assets {o : Credential}
    (h : CredentialRepository.create db o = .ok db') : db'.assets = db.assets := by
  unfold CredentialRepository.create at h
  split at h
  · obtain rfl := Except.ok.inj h
    rfl
  · cases h

theorem CredentialRepository.updateById_assets {o : Credential} {id : String}
    (h : CredentialRepository.updateById db o id = .ok db') : db'.assets = db.assets := by
  unfold CredentialRepository.updateById at h
  split at h
  · cases h
  · obtain rfl := Except.ok.inj h
    rfl

theorem AssetsStored.commit {x : Except Error Database} (h : AssetsStored c db)
    (hok : ∀ db', x = .ok db' → AssetsStored c db') : AssetsStored c (commit db x) := by
  cases x with
  | ok db' => exact hok db' rfl
  | error err => exact h

theorem AssetsStored.create {uuid : String} {m : AssetBody} (h : AssetsStored c db)
    (hcreate : (AssetService.create c db uuid m).map Prod.fst = .ok db') : AssetsStored c db' := by
  rcases hresult : AssetService.create c db uuid m with err | ⟨db₀, item⟩
  · rw [hresult] at hcreate
    cases hcreate
  · rw [hresult] at hcreate
    obtain rfl := Except.ok.inj hcreate
    intro a ha
    have hstored := AssetStored.create hresult
    unfold AssetService.create at hresult
    obtain ⟨o, ho, hresult⟩ := bind_eq_ok.mp hresult
    obtain ⟨db₁, hdb₁, hresult⟩ := bind_eq_ok.mp hresult
    obtain ⟨db₂, hdb₂, hresult⟩ := bind_eq_ok.mp hresult
    obtain ⟨rfl, rfl⟩ := Prod.mk.inj (Except.ok.inj hresult)
    change a ∈ db₂.assets at ha
    rw [(AssetRepository.updateAttributes_ok hdb₂).1] at ha
    unfold AssetRepository.create at hdb₁
    split at hdb₁
    · next assets hinsert =>
      obtain rfl := Except.ok.inj hdb₁
      rcases (Table.mem_of_insert hinsert).mp ha with rfl | ha
      · exact ⟨_, hstored⟩
      · exact h a ha
    · cases hdb₁

theorem AssetsStored.updateById {id : String} {m : AssetBody} (h : AssetsStored c db)
    (hupdate : AssetService.updateById c db id m = .ok db') : AssetsStored c db' := by
  intro a' ha'
  have hmem := ha'
  have hresult := hupdate
  unfold AssetService.updateById at hresult
  obtain ⟨o, -, hresult⟩ := bind_eq_ok.mp hresult
  obtain ⟨db₁, hdb₁, hresult⟩ := bind_eq_ok.mp hresult
  rw [(AssetRepository.updateAttributes_ok hresult).1] at hmem
  unfold AssetRepository.updateById at hdb₁
  split at hdb₁
  · cases hdb₁
  · obtain rfl := Except.ok.inj hdb₁
    rcases Table.mem_updateById (AssetRepository.assign_id o) hmem with hold | ⟨a, ha, rfl, rfl⟩
    · exact h a' hold
    · obtain ⟨p, hp⟩ := h a ha
      exact ⟨_, hp.updateById ha hupdate ha' rfl⟩

/-- A session on an inactive asset marks it as active. -/
theorem AssetRepository.assign_active (a : Asset) :
    assign { a with active := true } a = setActive true a.activeMessage a := by
  simp [assign, setActive, nonZero_self]

theorem AssetsStored.setAssetActive {assetId : String} (h : AssetsStored c db)
    (hset : AssetRequest.setAssetActive db assetId = .ok db') : AssetsStored c db' := by
  unfold AssetRequest.setAssetActive at hset
  obtain ⟨asset, hasset, hset⟩ := bind_eq_ok.mp hset
  obtain ⟨hmem, -⟩ := Table.findById_eq_some.mp (firstOrNotFound_eq_ok.mp hasset)
  split at hset
  · obtain rfl := Except.ok.inj hset
    exact h
  · unfold AssetRepository.updateById at hset
    split at hset
    · cases hset
    · obtain rfl := Except.ok.inj hset
      intro a ha
      rcases Table.mem_updateById (AssetRepository.assign_id _) ha with ha | ⟨b, hb, hid, rfl⟩
      · exact h a ha
      · obtain rfl := Table.eq_of_key hb hmem hid
        obtain ⟨p, hp⟩ := h b hb
        rw [AssetRepository.assign_active]
        exact ⟨_, hp.active true b.activeMessage⟩

/-- **Step lemma**: after every request, all assets are stored by the services. -/
theorem AssetsStored.handle (h : AssetsStored c db) (r : AssetRequest) :
    AssetsStored c (AssetRequest.handle c db r) := by
  cases r with
  | assetCreate uuid m => exact h.commit fun db' hok => h.create hok
  | assetUpdate id m => exact h.commit fun db' hok => h.updateById hok
  | assetChangeOwner id owner =>
    refine h.commit fun db' hok a ha => ?_
    unfold AssetRepository.updateById at hok
    split at hok
    · cases hok
    · obtain rfl := Except.ok.inj hok
      rcases Table.mem_updateById (AssetRepository.assign_id _) ha with ha | ⟨b, hb, -, rfl⟩
      · exact h a ha
      · obtain ⟨p, hp⟩ := h b hb
        exact ⟨_, hp.owner owner⟩
  | assetUpdateActive active message id =>
    intro a ha
    rcases Table.mem_updateById (AssetRepository.setActive_id active message) ha with
      ha | ⟨b, hb, -, rfl⟩
    · exact h a ha
    · obtain ⟨p, hp⟩ := h b hb
      exact ⟨_, hp.active active message⟩
  | sessionConnect assetId => exact h.commit fun db' hok => h.setAssetActive hok
  | assetDelete id => exact fun a ha => h a (Table.mem_deleteWhere.mp ha).1
  | credentialCreate uuid owner item =>
    refine h.commit fun db' hok => ?_
    unfold CredentialApi.credentialCreateEndpoint CredentialService.create at hok
    obtain ⟨item₁, -, hok⟩ := bind_eq_ok.mp hok
    obtain ⟨item₂, -, hok⟩ := bind_eq_ok.mp hok
    exact h.of_eq (CredentialRepository.create_assets hok)
  | credentialImport item =>
    refine h.commit fun db' hok => ?_
    unfold CredentialService.create at hok
    obtain ⟨item₁, -, hok⟩ := bind_eq_ok.mp hok
    exact h.of_eq (CredentialRepository.create_assets hok)
  | credentialUpdate id item =>
    refine h.commit fun db' hok => ?_
    unfold CredentialApi.credentialUpdateEndpoint at hok
    obtain ⟨item₁, -, hok⟩ := bind_eq_ok.mp hok
    obtain ⟨item₂, -, hok⟩ := bind_eq_ok.mp hok
    exact h.of_eq (CredentialRepository.updateById_assets hok)
  | credentialChangeOwner id owner =>
    exact h.commit fun db' hok => h.of_eq (CredentialRepository.updateById_assets hok)
  | credentialDelete id => exact h
  | other db' => exact h

/-- **Run lemma**: in every state that the requests reach, a change of the key applies to the table of
assets. -/
theorem AssetWritten.of_reaches (hc : c.Lawful)
    (h : Transition.Reaches (AssetRequest.step c) Transition.Any db db') (hdb : AssetsStored c db) :
    ∀ a ∈ db'.assets, AssetWritten c a := by
  have hstored : AssetsStored c db' := by
    refine h.invariant (fun s r t hs _ hstep => ?_) hdb
    obtain rfl := Option.some.inj hstep
    exact hs.handle r
  intro a ha
  obtain ⟨p, hp⟩ := hstored a ha
  exact hp.written hc

/-! ## Sessions -/

/-- A new session is stored with the account of the asset, or of the linked credential. -/
theorem SessionService.create_linked {uuid clientIp mode : String} {user : User} {s : Session}
    (ha : a ∈ db.assets)
    (h : SessionService.create db uuid clientIp a.id mode user = .ok (db', s)) :
    s ∈ db'.sessions ∧ ∃ s₀, SessionService.linkAccount db a s₀ = .ok s ∧
      s₀.username = a.username ∧ s₀.password = a.password ∧ s₀.privateKey = a.privateKey ∧
      s₀.passphrase = a.passphrase := by
  unfold SessionService.create at h
  obtain ⟨asset, hasset, h⟩ := bind_eq_ok.mp h
  obtain rfl := Except.ok.inj ((AssetRepository.findById_of_mem ha).symm.trans hasset)
  obtain ⟨strategy, -, h⟩ := bind_eq_ok.mp h
  obtain ⟨⟨fileSystem, storageId⟩, -, h⟩ := bind_eq_ok.mp h
  simp only at h
  obtain ⟨s₁, hs₁, h⟩ := bind_eq_ok.mp h
  obtain ⟨db₁, hdb₁, h⟩ := bind_eq_ok.mp h
  obtain ⟨rfl, rfl⟩ := Prod.mk.inj (Except.ok.inj h)
  exact ⟨SessionRepository.create_ok hdb₁, _, hs₁, rfl, rfl, rfl, rfl⟩

/-- A session is read back by its id. -/
theorem SessionService.findByIdAndDecrypt_of_mem {s : Session} (hs : s ∈ db.sessions) :
    SessionService.findByIdAndDecrypt c db s.id = SessionService.decrypt c s := by
  have hfind : SessionRepository.findById db s.id = .ok s :=
    firstOrNotFound_eq_ok.mpr (Table.findById_eq_some.mpr ⟨hs, rfl⟩)
  rw [SessionService.findByIdAndDecrypt, hfind]
  rfl

theorem SessionService.decrypt_of_fields {s : Session} {p₁ p₂ p₃ : String}
    (h₁ : c.decryptField s.password = .ok p₁) (h₂ : c.decryptField s.privateKey = .ok p₂)
    (h₃ : c.decryptField s.passphrase = .ok p₃) : SessionService.decrypt c s =
      .ok { s with password := p₁, privateKey := p₂, passphrase := p₃ } :=
  SessionService.decrypt_eq_ok.mpr ⟨p₁, p₂, p₃, h₁, h₂, h₃, rfl⟩

/-- The row that an asset is linked to is one, and so is the plain row of its secrets. -/
theorem LinkedCredential.plain_unique {q' : Credential} (hc : c.Lawful)
    (h : LinkedCredential c db a r q) (h' : LinkedCredential c db a r' q') :
    q'.type = q.type ∧ q'.username = q.username ∧ q'.password = q.password ∧
      q'.privateKey = q.privateKey ∧ q'.passphrase = q.passphrase := by
  obtain rfl := Table.eq_of_key h'.mem h.mem (h'.id.trans h.id.symm)
  have hfields := h.stored.fields hc
  have hfields' := h'.stored.fields hc
  have hsame {s t e : String} (hs : CredentialService.encryptField c s = .ok e)
      (ht : CredentialService.encryptField c t = .ok e) : s = t :=
    Except.ok.inj ((CredentialService.decryptField_of_encryptField hc hs).symm.trans
      (CredentialService.decryptField_of_encryptField hc ht))
  exact ⟨hfields'.type.symm.trans hfields.type, hfields'.username.symm.trans hfields.username,
    hsame hfields'.password hfields.password, hsame hfields'.privateKey hfields.privateKey,
    hsame hfields'.passphrase hfields.passphrase⟩

/-- **Secrets survive the copy into a session**: a session that is created for a stored asset is read
back with the plain secrets that the account type uses. -/
theorem SessionService.carriesSecrets {aes : BlockCipher} (haes : aes.Invertible) {key : List UInt8}
    {db db' : Database} {asset p : Asset} (hasset : asset ∈ db.assets)
    (hstored : AssetStored (Cipher.aes aes key) asset p)
    (hlinked : asset.accountType = "credential" →
      ∃ r q, LinkedCredential (Cipher.aes aes key) db asset r q)
    {uuid clientIp mode : String} {user : User} {s : Session}
    (hcreate : SessionService.create db uuid clientIp asset.id mode user = .ok (db', s)) :
    ∃ s', SessionService.findByIdAndDecrypt (Cipher.aes aes key) db' s.id = .ok s' ∧
      CarriesSecrets (Cipher.aes aes key) db asset p s' := by
  have hc := Cipher.aes_lawful haes key
  obtain ⟨-, husername, hpassword, hprivateKey, hpassphrase⟩ := hstored.fields hc
  have hdecrypt₁ := Cipher.decryptField_of_encryptField hc hpassword
  have hdecrypt₂ := Cipher.decryptField_of_encryptField hc hprivateKey
  have hdecrypt₃ := Cipher.decryptField_of_encryptField hc hpassphrase
  obtain ⟨hs, s₀, hlink, hs₀, hs₁, hs₂, hs₃⟩ := SessionService.create_linked hasset hcreate
  rw [SessionService.findByIdAndDecrypt_of_mem hs]
  rw [← hs₁] at hdecrypt₁
  rw [← hs₂] at hdecrypt₂
  rw [← hs₃] at hdecrypt₃
  unfold SessionService.linkAccount at hlink
  by_cases htype : asset.accountType = "credential"
  · obtain ⟨r, q, hrq⟩ := hlinked htype
    have hfind : CredentialRepository.findById db asset.credentialId = .ok r :=
      firstOrNotFound_eq_ok.mpr (Table.findById_eq_some.mpr ⟨hrq.mem, hrq.id⟩)
    have hfields := hrq.stored.fields hc
    rw [if_pos htype, hfind] at hlink
    obtain rfl := Except.ok.inj hlink
    unfold Session.linkCredential
    by_cases hcustom : r.type = nd.custom
    · rw [if_pos hcustom]
      refine ⟨_, SessionService.decrypt_of_fields
        (CredentialService.decryptField_of_encryptField hc hfields.password) hdecrypt₂ hdecrypt₃, ?_⟩
      refine ⟨fun hne => absurd htype hne, fun r' q' _ h' _ => ?_, fun r' q' _ h' hne => ?_⟩
      · obtain ⟨-, hu, hp, -, -⟩ := hrq.plain_unique hc h'
        exact ⟨hfields.username.trans hu.symm, hp.symm⟩
      · obtain ⟨ht, -⟩ := hrq.plain_unique hc h'
        exact absurd (ht.trans (hfields.type.symm.trans hcustom)) hne
    · rw [if_neg hcustom]
      refine ⟨_, SessionService.decrypt_of_fields hdecrypt₁
        (CredentialService.decryptField_of_encryptField hc hfields.privateKey)
        (CredentialService.decryptField_of_encryptField hc hfields.passphrase), ?_⟩
      refine ⟨fun hne => absurd htype hne, fun r' q' _ h' hq => ?_, fun r' q' _ h' _ => ?_⟩
      · obtain ⟨ht, -⟩ := hrq.plain_unique hc h'
        exact absurd (hfields.type.trans (ht.symm.trans hq)) hcustom
      · obtain ⟨-, hu, -, hk, hp⟩ := hrq.plain_unique hc h'
        exact ⟨hfields.username.trans hu.symm, hk.symm, hp.symm⟩
  · rw [if_neg htype] at hlink
    obtain rfl := Except.ok.inj hlink
    refine ⟨_, SessionService.decrypt_of_fields hdecrypt₁ hdecrypt₂ hdecrypt₃, ?_⟩
    refine ⟨fun _ => ⟨hs₀.trans husername, rfl, rfl, rfl⟩, fun _ _ h => absurd h htype,
      fun _ _ h => absurd h htype⟩

/-! ## An asset with an account of its own -/

theorem reportAes_encryptField :
    (Cipher.aes reportAes (encryptionPassword "next-dbm")).encryptField "report-pw" =
      .ok "x6aTQ4WL1LrtU7cNPZU7Dw==" := by decide +kernel

def customDatabase : Database := { assets := ⟨[customOrdersRow], by decide⟩ }

theorem customOrders_stored : AssetStored (Cipher.aes reportAes (encryptionPassword "next-dbm"))
    customOrdersRow { customOrders with id := "a1", active := true } := by
  have hencrypt : AssetService.encrypt (Cipher.aes reportAes (encryptionPassword "next-dbm"))
      { customOrders with id := "a1", active := true } = .ok customOrdersRow :=
    AssetService.encrypt_eq_ok.mpr ⟨_, "", "", reportAes_encryptField, rfl, rfl, rfl⟩
  have hcreate : AssetService.create (Cipher.aes reportAes (encryptionPassword "next-dbm")) {} "a1"
      { item := customOrders } = .ok (customDatabase, customOrdersRow) := by
    unfold AssetService.create
    rw [hencrypt]
    rfl
  exact .create hcreate

/-- The session is read back with the password that the asset was created with. -/
theorem carriesSecrets_customOrders : ∃ s', SessionService.findByIdAndDecrypt
    (Cipher.aes reportAes (encryptionPassword "next-dbm"))
      { customDatabase with sessions := ⟨[linkedSession], by decide⟩ } "s1" = .ok s' ∧
    s'.username = "report" ∧ s'.password = "report-pw" := by
  have hcreate : SessionService.create customDatabase "s1" "10.0.0.9" "a1" nd.native
      { id := "u1", type := nd.typeAdmin } =
        .ok ({ customDatabase with sessions := ⟨[linkedSession], by decide⟩ }, linkedSession) := rfl
  obtain ⟨s', hfind, hcarries⟩ := SessionService.carriesSecrets reportAes_invertible
    (List.mem_singleton.mpr rfl) customOrders_stored (fun h => absurd h (by decide)) hcreate
  obtain ⟨husername, hpassword, -, -⟩ := hcarries.own (by decide)
  exact ⟨s', hfind, husername, hpassword⟩

end NextDBM
