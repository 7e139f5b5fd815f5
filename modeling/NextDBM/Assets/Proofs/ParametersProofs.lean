import NextDBM.Assets.EntryPoints
import NextDBM.Assets.Proofs.StoredProofs
import NextDBM.Proxy.Proofs.LoginProofs

/-!
# Proofs: the parameters of a connection

Sessions and jobs reach an asset with the account of its linked credential, the proxy with the account
of the asset itself. They agree on an asset exactly when it has no linked credential that names
another account, or the proxy cannot connect to it.
-/

namespace NextDBM

open Relational

variable {c : Cipher} {db db' : Database} {a : Asset} {p q : ConnectionParams}

/-- The plain text of a stored secret. -/
def Cipher.plain (c : Cipher) (s : String) : String := okOrZero (c.decryptField s)

/-- The account stored with the asset. -/
def ownParams (c : Cipher) (a : Asset) : ConnectionParams :=
  { username := a.username, password := c.plain a.password, accessGatewayId := a.accessGatewayId }

/-- The account of a credential that the asset is linked to. -/
def linkedParams (c : Cipher) (a : Asset) (r : Credential) : ConnectionParams :=
  { username := r.username
    password := if r.type = nd.custom then c.plain r.password else c.plain a.password
    accessGatewayId := a.accessGatewayId }

/-- The account that sessions and jobs use. -/
def AccountParams (c : Cipher) (db : Database) (a : Asset) (p : ConnectionParams) : Prop :=
  (a.accountType ≠ "credential" ∧ p = ownParams c a) ∨
    (a.accountType = "credential" ∧
      ∃ r, CredentialRepository.findById db a.credentialId = .ok r ∧ p = linkedParams c a r)

theorem Cipher.plain_eq {s plain : String} (h : c.decryptField s = .ok plain) : c.plain s = plain := by
  rw [Cipher.plain, h]
  rfl

theorem AccountParams.unique (hp : AccountParams c db a p) (hq : AccountParams c db a q) : p = q := by
  rcases hp with ⟨hne, rfl⟩ | ⟨htype, r, hr, rfl⟩
  · rcases hq with ⟨-, rfl⟩ | ⟨htype, -⟩
    · rfl
    · exact absurd htype hne
  · rcases hq with ⟨hne, -⟩ | ⟨-, r', hr', rfl⟩
    · exact absurd htype hne
    · obtain rfl := Except.ok.inj (hr.symm.trans hr')
      rfl

/-! ## The rows -/

theorem AssetRepository.findById_of_mem (ha : a ∈ db.assets) :
    AssetRepository.findById db a.id = .ok a :=
  firstOrNotFound_eq_ok.mpr (Table.findById_eq_some.mpr ⟨ha, rfl⟩)

/-- A stored asset can be decrypted. -/
theorem AssetRepository.findByIdAndDecrypt_of_mem (hc : c.Lawful) (ha : a ∈ db.assets)
    (hsealed : SealedAsset c a) :
    ∃ a', AssetRepository.findByIdAndDecrypt c db a.id = .ok a' ∧ a'.username = a.username ∧
      a'.password = c.plain a.password ∧ a'.accountType = a.accountType ∧
      a'.credentialId = a.credentialId ∧ a'.accessGatewayId = a.accessGatewayId := by
  obtain ⟨password, hpassword⟩ := hsealed.password.decryptField hc
  obtain ⟨privateKey, hprivateKey⟩ := hsealed.privateKey.decryptField hc
  obtain ⟨passphrase, hpassphrase⟩ := hsealed.passphrase.decryptField hc
  refine ⟨{ a with password, privateKey, passphrase }, ?_, rfl, (Cipher.plain_eq hpassword).symm,
    rfl, rfl, rfl⟩
  rw [findByIdAndDecrypt, findById_of_mem ha]
  show AssetRepository.decrypt c a = _
  rw [AssetRepository.decrypt, if_pos hsealed.encrypted, hpassword, hprivateKey, hpassphrase]
  rfl

/-- A stored credential can be decrypted. -/
theorem CredentialService.findByIdAndDecrypt_of_ok (hc : c.Lawful) {id : String} {r : Credential}
    (hr : CredentialRepository.findById db id = .ok r) (hsealed : SealedCredential c r) :
    ∃ r', CredentialService.findByIdAndDecrypt c db id = .ok r' ∧ r'.type = r.type ∧
      r'.username = r.username ∧ r'.password = c.plain r.password := by
  obtain ⟨password, hpassword⟩ := hsealed.password.decryptField hc
  obtain ⟨privateKey, hprivateKey⟩ := hsealed.privateKey.decryptField hc
  obtain ⟨passphrase, hpassphrase⟩ := hsealed.passphrase.decryptField hc
  refine ⟨{ r with password, privateKey, passphrase }, ?_, rfl, rfl,
    (Cipher.plain_eq hpassword).symm⟩
  rw [findByIdAndDecrypt, hr]
  show CredentialService.decrypt c r = _
  rw [CredentialService.decrypt, if_pos hsealed.encrypted, hpassword, hprivateKey, hpassphrase]
  rfl

theorem Stored.credential {id : String} {r : Credential} (h : Stored c db)
    (hr : CredentialRepository.findById db id = .ok r) : SealedCredential c r :=
  h.credentials r (Table.findById_eq_some.mp (firstOrNotFound_eq_ok.mp hr)).1

/-! ## Sessions -/

theorem SessionRepository.create_ok {s : Session}
    (h : SessionRepository.create db s = .ok db') : s ∈ db'.sessions := by
  unfold create at h
  split at h
  · next sessions hinsert =>
    obtain rfl := Except.ok.inj h
    exact (Table.mem_of_insert hinsert).mpr (.inl rfl)
  · cases h

/-- A new session, read back, gives its own account with the password decrypted. -/
theorem SessionService.params_of_find {s s' : Session} (hs : s ∈ db.sessions)
    (hfind : SessionService.findByIdAndDecrypt c db s.id = .ok s') :
    s'.params = { s.params with password := c.plain s.password } := by
  unfold findByIdAndDecrypt at hfind
  obtain ⟨sess, hsess, hdecrypt⟩ := bind_eq_ok.mp hfind
  obtain ⟨hmem, hid⟩ := Table.findById_eq_some.mp (firstOrNotFound_eq_ok.mp hsess)
  obtain rfl := Table.eq_of_key hmem hs hid
  unfold SessionService.decrypt at hdecrypt
  obtain ⟨password, hpassword, hrest⟩ := bind_eq_ok.mp hdecrypt
  obtain ⟨privateKey, -, hrest⟩ := bind_eq_ok.mp hrest
  obtain ⟨passphrase, -, hrest⟩ := bind_eq_ok.mp hrest
  obtain rfl := Except.ok.inj hrest
  rw [Cipher.plain_eq hpassword]
  rfl

theorem Session.linkCredential_params {s : Session} {r : Credential}
    (hpassword : s.password = a.password) (hgateway : s.accessGatewayId = a.accessGatewayId) :
    { (s.linkCredential r).params with password := c.plain (s.linkCredential r).password } =
      linkedParams c a r := by
  unfold Session.linkCredential linkedParams
  by_cases htype : r.type = nd.custom
  · simp [htype, Session.params, hgateway]
  · simp [htype, Session.params, hgateway, hpassword]

theorem SessionService.params_of_create {uuid clientIp mode : String} {user : User} {s s' : Session}
    (ha : a ∈ db.assets)
    (hcreate : SessionService.create db uuid clientIp a.id mode user = .ok (db', s))
    (hfind : SessionService.findByIdAndDecrypt c db' s.id = .ok s') :
    AccountParams c db a s'.params := by
  unfold SessionService.create at hcreate
  obtain ⟨asset, hasset, hcreate⟩ := bind_eq_ok.mp hcreate
  obtain rfl := Except.ok.inj ((AssetRepository.findById_of_mem ha).symm.trans hasset)
  obtain ⟨strategy, -, hcreate⟩ := bind_eq_ok.mp hcreate
  obtain ⟨⟨fileSystem, storageId⟩, -, hcreate⟩ := bind_eq_ok.mp hcreate
  simp only at hcreate
  obtain ⟨s₁, hs₁, hcreate⟩ := bind_eq_ok.mp hcreate
  obtain ⟨db₁, hdb₁, hcreate⟩ := bind_eq_ok.mp hcreate
  obtain ⟨rfl, rfl⟩ := Prod.mk.inj (Except.ok.inj hcreate)
  rw [params_of_find (SessionRepository.create_ok hdb₁) hfind]
  unfold SessionService.linkAccount at hs₁
  split at hs₁
  · next htype =>
    obtain ⟨r, hr, hs₁⟩ := bind_eq_ok.mp hs₁
    obtain rfl := Except.ok.inj hs₁
    exact .inr ⟨htype, r, hr, Session.linkCredential_params rfl rfl⟩
  · next hne =>
    obtain rfl := Except.ok.inj hs₁
    exact .inl ⟨hne, rfl⟩

theorem Gui.params_of_createSession {uuid clientIp creator : String} {s s' : Session}
    (ha : a ∈ db.assets)
    (hcreate : Gui.createSession db uuid clientIp a.id creator = .ok (some (db', s)))
    (hfind : SessionService.findByIdAndDecrypt c db' s.id = .ok s') :
    AccountParams c db a s'.params := by
  unfold Gui.createSession at hcreate
  obtain ⟨asset, hasset, hcreate⟩ := bind_eq_ok.mp hcreate
  obtain rfl := Except.ok.inj ((AssetRepository.findById_of_mem ha).symm.trans hasset)
  simp only at hcreate
  split at hcreate
  · next htype =>
    split at hcreate
    · cases hcreate
    · next r hr =>
      obtain ⟨db₁, hdb₁, hcreate⟩ := bind_eq_ok.mp hcreate
      obtain ⟨rfl, rfl⟩ := Prod.mk.inj (Option.some.inj (Except.ok.inj hcreate))
      rw [SessionService.params_of_find (SessionRepository.create_ok hdb₁) hfind]
      exact .inr ⟨htype, r, hr, Session.linkCredential_params rfl rfl⟩
  · next hne =>
    obtain ⟨db₁, hdb₁, hcreate⟩ := bind_eq_ok.mp hcreate
    obtain ⟨rfl, rfl⟩ := Prod.mk.inj (Option.some.inj (Except.ok.inj hcreate))
    rw [SessionService.params_of_find (SessionRepository.create_ok hdb₁) hfind]
    exact .inl ⟨hne, rfl⟩

/-! ## Jobs -/

theorem ShellJob.params_ok (hc : c.Lawful) (h : Stored c db) (ha : a ∈ db.assets)
    (hp : ShellJob.params c db a.id = .ok p) : AccountParams c db a p := by
  obtain ⟨a', hfind, husername, hpassword, htype, hcredential, hgateway⟩ :=
    AssetRepository.findByIdAndDecrypt_of_mem hc ha (h.assets a ha)
  unfold ShellJob.params at hp
  obtain ⟨a'', hfind', hp⟩ := bind_eq_ok.mp hp
  obtain rfl := Except.ok.inj (hfind.symm.trans hfind')
  rw [htype, hcredential, hgateway, husername, hpassword] at hp
  split at hp
  · next hlinked =>
    obtain ⟨r', hr', hp⟩ := bind_eq_ok.mp hp
    obtain ⟨r, hr, -⟩ := bind_eq_ok.mp hr'
    obtain ⟨r'', hr'', hrtype, hrusername, hrpassword⟩ :=
      CredentialService.findByIdAndDecrypt_of_ok hc hr (h.credential hr)
    obtain rfl := Except.ok.inj (hr''.symm.trans hr')
    refine .inr ⟨hlinked, r, hr, ?_⟩
    rw [hrtype, hrusername, hrpassword] at hp
    unfold linkedParams
    split at hp
    · next hcustom =>
      obtain rfl := Except.ok.inj hp
      rw [if_pos hcustom]
    · next hcustom =>
      obtain rfl := Except.ok.inj hp
      rw [if_neg hcustom]
  · next hlinked =>
    obtain rfl := Except.ok.inj hp
    exact .inl ⟨hlinked, rfl⟩

/-- A job reaches every stored asset whose linked credential exists. -/
theorem ShellJob.params_of_credential (hc : c.Lawful) (h : Stored c db) (ha : a ∈ db.assets)
    {r : Credential} (htype : a.accountType = "credential")
    (hr : CredentialRepository.findById db a.credentialId = .ok r) :
    ShellJob.params c db a.id = .ok (linkedParams c a r) := by
  obtain ⟨a', hfind, -, hpassword, htype', hcredential, hgateway⟩ :=
    AssetRepository.findByIdAndDecrypt_of_mem hc ha (h.assets a ha)
  obtain ⟨r', hr', hrtype, hrusername, hrpassword⟩ :=
    CredentialService.findByIdAndDecrypt_of_ok hc hr (h.credential hr)
  rw [← hcredential] at hr'
  unfold ShellJob.params linkedParams
  rw [hfind]
  show (if a'.accountType = "credential" then _ else _) = _
  rw [if_pos (htype'.trans htype), hr']
  show (if r'.type = nd.custom then _ else _) = _
  rw [hrtype, hrusername, hrpassword, hpassword, hgateway]
  by_cases hcustom : r.type = nd.custom
  · rw [if_pos hcustom, if_pos hcustom]
    rfl
  · rw [if_neg hcustom, if_neg hcustom]
    rfl

/-- Every connection of a job is made with the parameters of its asset. -/
theorem ShellJob.mem_executeShellByAssets {assets : List Asset} {id : String}
    (h : (id, p) ∈ ShellJob.executeShellByAssets c db assets) : ShellJob.params c db id = .ok p := by
  induction assets with
  | nil => cases h
  | cons asset assets ih =>
    unfold executeShellByAssets at h
    split at h
    · next p' hp' =>
      rcases List.mem_cons.mp h with heq | hmem
      · obtain ⟨rfl, rfl⟩ := Prod.mk.inj heq
        exact hp'
      · exact ih hmem
    · cases h

/-! ## The proxy -/

/-- A name that is resolved to a row of the table is resolved to the first row of the name. -/
theorem AssetRepository.findAssetByName_found {name : String}
    (h : okOrZero (AssetRepository.findAssetByName db name "") = a) (hne : a ≠ default) :
    a.name = name ∧ ∀ a' ∈ db.assets, a'.name = name → a.id ≤ a'.id := by
  rw [AssetRepository.findAssetByName, okOrZero_firstOrNotFound] at h
  simp only [beq_self_eq_true, Bool.true_or, Bool.and_true] at h
  cases hfirst : db.assets.first fun b => b.name == name with
  | none =>
    rw [hfirst] at h
    exact absurd h.symm hne
  | some b =>
    rw [hfirst, Option.getD_some] at h
    subst h
    obtain ⟨-, hname, hmin⟩ := Table.first_eq_some.mp hfirst
    exact ⟨beq_iff_eq.mp hname, fun a' ha' hname' => hmin a' ha' (beq_iff_eq.mpr hname')⟩

theorem SealedAsset.ne_default (h : SealedAsset c a) : a ≠ default := by
  rintro rfl
  exact absurd h.encrypted (by decide)

/-- The proxy connects with the account of the asset itself. -/
theorem Resolved.params_of_resolve (hc : c.Lawful) (h : Stored c db) (ha : a ∈ db.assets)
    {login : String} {policyOk : Bool} {r : Resolved}
    (hresolve : MariaDBProxy.resolve c db login policyOk = some r) (hasset : r.assert = a) :
    ProxyServes db a ∧ r.params = ownParams c a := by
  obtain ⟨a', hfind, -, hpassword, -⟩ :=
    AssetRepository.findByIdAndDecrypt_of_mem hc ha (h.assets a ha)
  unfold MariaDBProxy.resolve at hresolve
  obtain ⟨⟨user, assert⟩, hlogin, hrest⟩ := Option.bind_eq_some_iff.mp hresolve
  simp only at hrest
  split at hrest
  · have hname : assert = a →
        '#' ∉ a.name.toList ∧ ∀ a' ∈ db.assets, a'.name = a.name → a.id ≤ a'.id := by
      rintro rfl
      unfold MariaDBProxy.resolveLogin at hlogin
      split at hlogin
      · next username name rest hsplit =>
        obtain ⟨-, hassert⟩ := Prod.mk.inj (Option.some.inj hlogin)
        have hmem : name ∈ Text.split login '#' := by
          rw [hsplit]
          exact List.mem_cons_of_mem _ List.mem_cons_self
        obtain ⟨rfl, hmin⟩ :=
          AssetRepository.findAssetByName_found hassert (h.assets assert ha).ne_default
        exact ⟨Text.not_mem_of_mem_split hmem, hmin⟩
      · cases hlogin
    split at hrest
    · obtain ⟨g, hg, hrest⟩ := Option.bind_eq_some_iff.mp hrest
      obtain rfl := Option.some.inj hrest
      obtain rfl : assert = a := hasset
      have hgateway : GatewayRepository.findById db assert.accessGatewayId = .ok g := by
        cases hfound : GatewayRepository.findById db assert.accessGatewayId with
        | ok g' =>
          rw [hfound] at hg
          exact congrArg Except.ok (Option.some.inj hg)
        | error err =>
          rw [hfound] at hg
          cases hg
      obtain ⟨hgmem, hgid⟩ := Table.findById_eq_some.mp (firstOrNotFound_eq_ok.mp hgateway)
      obtain ⟨hsep, hmin⟩ := hname rfl
      refine ⟨⟨hsep, hmin, .inr (.inr ⟨g, hgmem, hgid⟩)⟩, ?_⟩
      simp only [Resolved.params, Resolved.dataSource, ownParams, hfind, okOrZero, hpassword]
    · next hnone =>
      obtain rfl := Option.some.inj hrest
      obtain rfl : assert = a := hasset
      obtain ⟨hsep, hmin⟩ := hname rfl
      have hgateway : assert.accessGatewayId = "" ∨ assert.accessGatewayId = "-" := by
        by_cases hempty : assert.accessGatewayId = ""
        · exact .inl hempty
        · exact .inr (not_not.mp fun hdash => hnone ⟨hempty, hdash⟩)
      refine ⟨⟨hsep, hmin, ?_⟩, ?_⟩
      · rcases hgateway with hempty | hdash
        · exact .inl hempty
        · exact .inr (.inl hdash)
      · simp only [Resolved.params, Resolved.dataSource, ownParams, hfind, okOrZero, hpassword]
  · cases hrest

/-- A login name can be resolved to every asset that the proxy serves. -/
theorem ProxyServes.resolve (hserves : ProxyServes db a) (ha : a ∈ db.assets) :
    ∃ r, MariaDBProxy.resolve c db (loginName {} a) true = some r ∧ r.assert = a := by
  obtain ⟨hsep, hmin, hgateway⟩ := hserves
  have hlogin : MariaDBProxy.resolveLogin db (loginName {} a) =
      some (okOrZero (UserRepository.findByUsername db ""), a) := by
    have hsplit : Text.split (loginName {} a) '#' = ["", a.name] := by
      rw [split_loginName (u := {}) (by decide), Text.split_of_not_mem hsep]
    rw [MariaDBProxy.resolveLogin, hsplit]
    simp only [(findAssetByName_eq ha).mpr hmin]
  unfold MariaDBProxy.resolve
  rw [hlogin]
  by_cases hnone : a.accessGatewayId ≠ "" ∧ a.accessGatewayId ≠ "-"
  · rcases hgateway with hempty | hdash | ⟨g, hg, hid⟩
    · exact absurd hempty hnone.1
    · exact absurd hdash hnone.2
    · have hfind : GatewayRepository.findById db a.accessGatewayId = .ok g :=
        firstOrNotFound_eq_ok.mpr (Table.findById_eq_some.mpr ⟨hg, hid⟩)
      simp [hnone, hfind, Except.toOption]
  · simp [hnone]

/-! ## Agreement -/

/-- Every connection is made with the asset's own account, by the proxy, or with the account that
sessions and jobs use. -/
theorem ConnectsWith.params (hc : c.Lawful) (h : Stored c db) (ha : a ∈ db.assets)
    (hp : ConnectsWith c db a p) :
    (ProxyServes db a ∧ p = ownParams c a) ∨ AccountParams c db a p := by
  cases hp with
  | proxy hresolve hasset => exact .inl (Resolved.params_of_resolve hc h ha hresolve hasset)
  | editor hcreate hfind => exact .inr (SessionService.params_of_create ha hcreate hfind)
  | terminal hcreate hfind => exact .inr (Gui.params_of_createSession ha hcreate hfind)
  | job hexecute =>
    exact .inr (ShellJob.params_ok hc h ha (ShellJob.mem_executeShellByAssets hexecute))

theorem ownParams_eq_linkedParams (hc : c.Lawful) {r : Credential} (ha : SealedAsset c a)
    (hr : SealedCredential c r) :
    ownParams c a = linkedParams c a r ↔ CredentialMatches c a r := by
  obtain ⟨password, hpassword⟩ := ha.password.decryptField hc
  obtain ⟨password', hpassword'⟩ := hr.password.decryptField hc
  unfold ownParams linkedParams CredentialMatches
  rw [hpassword, hpassword', Cipher.plain_eq hpassword, Cipher.plain_eq hpassword']
  by_cases htype : r.type = nd.custom
  · simp [htype, eq_comm]
  · simp [htype, eq_comm]

/-- The cipher under the default key, on the one secret that is stored below. -/
def reportCipher : Cipher :=
  { encrypt := fun s =>
      if s = "report-pw" then .ok "x6aTQ4WL1LrtU7cNPZU7Dw==" else .error (.text "invalid key")
    decrypt := fun s =>
      if s = "x6aTQ4WL1LrtU7cNPZU7Dw==" then .ok "report-pw" else .error (.text "invalid text") }

theorem reportCipher_lawful : reportCipher.Lawful := by
  refine ⟨fun s e h => ?_, fun s e h => ?_⟩
  · simp only [reportCipher] at h
    split at h
    · next hs =>
      obtain rfl := Except.ok.inj h
      subst hs
      rfl
    · cases h
  · simp only [reportCipher] at h
    split at h
    · obtain rfl := Except.ok.inj h
      decide
    · cases h

/-- The credential of a reporting account is created, then an asset. -/
def ordersRequests (item : Asset) : List AssetRequest :=
  [.credentialCreate "c1" "admin"
      { name := "reports", type := "custom", username := "report", password := "report-pw" },
    .assetCreate "a1" { item }]

def ordersDatabase (item : Asset) : Database :=
  (ordersRequests item).foldl (AssetRequest.handle reportCipher) {}

theorem reaches_ordersDatabase (item : Asset) :
    Transition.Reaches (AssetRequest.step reportCipher) Transition.Any {} (ordersDatabase item) := by
  have hexec : Transition.exec (AssetRequest.step reportCipher) {} (ordersRequests item) =
      some (ordersDatabase item) := rfl
  exact Transition.reaches_of_exec hexec (Transition.allOk_any _ _)

/-- An asset with an account of its own, as requested and as stored. -/
def customOrders : Asset :=
  { name := "orders", protocol := nd.mariaDB, accountType := "custom", username := "report",
    password := "report-pw" }

def customOrdersRow : Asset :=
  { customOrders with
    id := "a1", password := "x6aTQ4WL1LrtU7cNPZU7Dw==", active := true, encrypted := true }

/-- An asset that is linked to the credential, as requested and as stored. -/
def linkedOrders : Asset :=
  { name := "orders", protocol := nd.mariaDB, accountType := "credential", credentialId := "c1" }

def linkedOrdersRow : Asset :=
  { linkedOrders with id := "a1", active := true, encrypted := true }

/-- A session of the web editor on the linked asset. -/
def linkedSession : Session :=
  { id := "s1", assetId := "a1", username := "report", password := "x6aTQ4WL1LrtU7cNPZU7Dw==",
    protocol := nd.mariaDB, status := nd.noConnect, clientIP := "10.0.0.9", mode := nd.native,
    fileSystem := "1", upload := "1", download := "1", delete := "1", rename := "1", edit := "1",
    copy := "1", paste := "1", creator := "u1" }

end NextDBM
