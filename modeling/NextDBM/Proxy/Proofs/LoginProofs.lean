import NextDBM.Proxy.Login

/-!
# Proofs: login names of the proxy

The query builds a row exactly for the granted pairs (`mem_findAllUsersAssetsProxyAuth`), and a login
name is resolved to the pair it was built from exactly when its parts contain no separator and its
user and asset are the first rows of their names.
-/

namespace NextDBM

open Relational

variable {db : Database} {protocol : String} {u : User} {a : Asset} {pool : UserPool}
  {decrypt : String → Except Error String}

/-! ## The rows of the query -/

theorem selectProxyAuth_eq_some {a : Asset} {o : Option User} {name auth : String} :
    selectProxyAuth a o = (name, some auth) ↔
      ∃ u, o = some u ∧ name = loginName u a ∧ auth = u.proxyAuth := by
  cases o with
  | none => simp [selectProxyAuth]
  | some u =>
    simp only [selectProxyAuth, loginName, Option.map_some, Option.getD_some, Prod.mk.injEq,
      Option.some.injEq]
    constructor
    · rintro ⟨rfl, rfl⟩
      exact ⟨u, rfl, rfl, rfl⟩
    · rintro ⟨u', rfl, rfl, rfl⟩
      exact ⟨rfl, rfl⟩

/-- The first sub-query builds a row for the pairs granted to the user. -/
theorem mem_usersProxyAuth {name auth : String} :
    (name, some auth) ∈ AuthorisedRepository.usersProxyAuth db protocol ↔
      ∃ u a, (u ∈ db.users ∧ u.status = nd.statusEnabled) ∧ (a ∈ db.assets ∧ a.protocol = protocol) ∧
        (∃ r ∈ db.authorised, r.assetId = a.id ∧ r.userId ≠ "" ∧ r.userId = u.id) ∧
        name = loginName u a ∧ auth = u.proxyAuth := by
  simp only [AuthorisedRepository.usersProxyAuth, List.mem_map, List.mem_filter, Bool.and_eq_true,
    bne_iff_ne, ne_eq, beq_iff_eq]
  constructor
  · rintro ⟨⟨⟨r, a⟩, o⟩, ⟨hjoin, hne, hprotocol⟩, hselect⟩
    obtain ⟨u, rfl, hname, hauth⟩ := selectProxyAuth_eq_some.mp hselect
    obtain ⟨hra, hu, hon⟩ := some_mem_leftJoin.mp hjoin
    obtain ⟨hr, ha, hasset⟩ := mem_innerJoin.mp hra
    simp only [Bool.and_eq_true, beq_iff_eq] at hon hasset
    exact ⟨u, a, ⟨hu, hon.2⟩, ⟨ha, hprotocol⟩, ⟨r, hr, hasset, hne, hon.1⟩, hname, hauth⟩
  · rintro ⟨u, a, ⟨hu, henabled⟩, ⟨ha, hprotocol⟩, ⟨r, hr, hasset, hne, huser⟩, hname, hauth⟩
    refine ⟨((r, a), some u), ⟨some_mem_leftJoin.mpr ⟨mem_innerJoin.mpr ⟨hr, ha, ?_⟩, hu, ?_⟩, hne,
      hprotocol⟩, selectProxyAuth_eq_some.mpr ⟨u, rfl, hname, hauth⟩⟩
    · exact beq_iff_eq.mpr hasset
    · simp [huser, henabled]

/-- The second sub-query builds a row for the pairs granted to a group of the user. -/
theorem mem_userGroupsProxyAuth {name auth : String} :
    (name, some auth) ∈ AuthorisedRepository.userGroupsProxyAuth db protocol ↔
      ∃ u a, (u ∈ db.users ∧ u.status = nd.statusEnabled) ∧ (a ∈ db.assets ∧ a.protocol = protocol) ∧
        (∃ r ∈ db.authorised, r.assetId = a.id ∧ r.userGroupId ≠ "" ∧
          MemberOf db u.id r.userGroupId) ∧
        name = loginName u a ∧ auth = u.proxyAuth := by
  simp only [AuthorisedRepository.userGroupsProxyAuth, List.mem_map, List.mem_filter,
    Bool.and_eq_true, bne_iff_ne, ne_eq, beq_iff_eq]
  constructor
  · rintro ⟨⟨⟨⟨r, a⟩, ugm⟩, o⟩, ⟨hjoin, hne, hprotocol⟩, hselect⟩
    obtain ⟨u, rfl, hname, hauth⟩ := selectProxyAuth_eq_some.mp hselect
    obtain ⟨hmembers, hu, hon⟩ := some_mem_leftJoin.mp hjoin
    cases ugm with
    | none => cases hon
    | some m =>
      obtain ⟨hra, hm, hgroup⟩ := some_mem_leftJoin.mp hmembers
      obtain ⟨hr, ha, hasset⟩ := mem_innerJoin.mp hra
      simp only [Bool.and_eq_true, beq_iff_eq] at hon hasset hgroup
      exact ⟨u, a, ⟨hu, hon.2⟩, ⟨ha, hprotocol⟩, ⟨r, hr, hasset, hne, m, hm, hon.1, hgroup.symm⟩,
        hname, hauth⟩
  · rintro ⟨u, a, ⟨hu, henabled⟩, ⟨ha, hprotocol⟩, ⟨r, hr, hasset, hne, m, hm, huser, hgroup⟩, hname,
      hauth⟩
    have hra : (r, a) ∈ innerJoin db.authorised.rows db.assets.rows fun r a => r.assetId == a.id :=
      mem_innerJoin.mpr ⟨hr, ha, beq_iff_eq.mpr hasset⟩
    refine ⟨(((r, a), some m), some u), ⟨some_mem_leftJoin.mpr ⟨some_mem_leftJoin.mpr ⟨hra, hm, ?_⟩,
      hu, ?_⟩, hne, hprotocol⟩, selectProxyAuth_eq_some.mpr ⟨u, rfl, hname, hauth⟩⟩
    · exact beq_iff_eq.mpr hgroup.symm
    · simp [huser, henabled]

/-- The query builds a row exactly for the granted pairs of an enabled user and an asset of the
protocol. -/
theorem mem_findAllUsersAssetsProxyAuth {name auth : String} :
    { username := name, proxyAuth := auth } ∈
        AuthorisedRepository.findAllUsersAssetsProxyAuth db protocol ↔
      ∃ u a, CredentialPair db protocol u a ∧ name = loginName u a ∧ auth = u.proxyAuth := by
  have hmem : { username := name, proxyAuth := auth } ∈
        AuthorisedRepository.findAllUsersAssetsProxyAuth db protocol ↔
      (name, some auth) ∈ AuthorisedRepository.usersProxyAuth db protocol ∨
        (name, some auth) ∈ AuthorisedRepository.userGroupsProxyAuth db protocol := by
    simp only [AuthorisedRepository.findAllUsersAssetsProxyAuth, List.mem_dedup,
      List.mem_filterMap, Option.map_eq_some_iff, ← List.mem_append]
    constructor
    · rintro ⟨⟨n, o⟩, hrow, p, rfl, hp⟩
      cases hp
      exact hrow
    · intro hrow
      exact ⟨_, hrow, auth, rfl, rfl⟩
  rw [hmem, mem_usersProxyAuth, mem_userGroupsProxyAuth]
  constructor
  · rintro (⟨u, a, ⟨hu, hs⟩, ⟨ha, hp⟩, ⟨r, hr, hasset, hgrant⟩, hrow⟩ |
      ⟨u, a, ⟨hu, hs⟩, ⟨ha, hp⟩, ⟨r, hr, hasset, hgrant⟩, hrow⟩)
    · exact ⟨u, a, ⟨hu, hs, ha, hp, r, hr, hasset, .inl hgrant⟩, hrow⟩
    · exact ⟨u, a, ⟨hu, hs, ha, hp, r, hr, hasset, .inr hgrant⟩, hrow⟩
  · rintro ⟨u, a, ⟨hu, hs, ha, hp, r, hr, hasset, hgrant | hgrant⟩, hrow⟩
    · exact .inl ⟨u, a, ⟨hu, hs⟩, ⟨ha, hp⟩, ⟨r, hr, hasset, hgrant⟩, hrow⟩
    · exact .inr ⟨u, a, ⟨hu, hs⟩, ⟨ha, hp⟩, ⟨r, hr, hasset, hgrant⟩, hrow⟩

/-! ## The registered names -/

theorem addRow_isSome {auth : UsersAssetsProxyAuth} {pool' : UserPool} {login : String}
    (h : MariaDBProxy.addRow decrypt pool auth = some pool') :
    (pool' login).isSome ↔
      (auth.proxyAuth ≠ "" ∧ auth.username = login) ∨ (pool login).isSome := by
  rw [MariaDBProxy.addRow] at h
  split at h
  · next hempty =>
    obtain rfl := Option.some.inj h
    simp [hempty]
  · next hne =>
    split at h
    · obtain rfl := Option.some.inj h
      rw [InMemoryProvider.addUser]
      by_cases hlogin : login = auth.username
      · subst hlogin
        simp [hne]
      · rw [Function.update_of_ne hlogin]
        simp [Ne.symm hlogin]
    · cases h

theorem foldlM_addRow_isSome {rows : List UsersAssetsProxyAuth} {pool' : UserPool} {login : String}
    (h : rows.foldlM (MariaDBProxy.addRow decrypt) pool = some pool') :
    (pool' login).isSome ↔
      (∃ auth ∈ rows, auth.proxyAuth ≠ "" ∧ auth.username = login) ∨ (pool login).isSome := by
  induction rows generalizing pool with
  | nil =>
    obtain rfl := Option.some.inj h
    simp
  | cons auth rows ih =>
    obtain ⟨pool₁, hadd, hrest⟩ := Option.bind_eq_some_iff.mp h
    rw [ih hrest, addRow_isSome hadd, List.exists_mem_cons_iff, or_assoc]
    exact or_left_comm

/-- The pool holds exactly the login names of the registered pairs. -/
theorem initAuth_isSome (h : MariaDBProxy.initAuth decrypt db = some pool) {login : String} :
    (pool login).isSome ↔ ∃ u a, Registered db u a ∧ login = loginName u a := by
  rw [foldlM_addRow_isSome h]
  constructor
  · rintro (⟨⟨name, auth⟩, hrow, hne, rfl⟩ | hempty)
    · obtain ⟨u, a, hpair, hname, rfl⟩ := mem_findAllUsersAssetsProxyAuth.mp hrow
      exact ⟨u, a, ⟨hpair, hne⟩, hname⟩
    · cases hempty
  · rintro ⟨u, a, ⟨hpair, hne⟩, rfl⟩
    exact .inl ⟨_, mem_findAllUsersAssetsProxyAuth.mpr ⟨u, a, hpair, rfl, rfl⟩, hne, rfl⟩

/-! ## Resolving a name -/

theorem findByUsername_eq (hu : u ∈ db.users) :
    okOrZero (UserRepository.findByUsername db u.username) = u ↔
      ∀ u' ∈ db.users, u'.username = u.username → u.id ≤ u'.id := by
  rw [UserRepository.findByUsername, okOrZero_firstOrNotFound]
  have hsome : (db.users.first fun v => v.username == u.username).isSome :=
    Table.first_isSome.mpr ⟨u, hu, beq_iff_eq.mpr rfl⟩
  obtain ⟨v, hv⟩ := Option.isSome_iff_exists.mp hsome
  rw [hv, Option.getD_some]
  constructor
  · rintro rfl u' hu' hname
    exact (Table.first_eq_some.mp hv).2.2 u' hu' (beq_iff_eq.mpr hname)
  · intro hmin
    have hfirst : (db.users.first fun v => v.username == u.username) = some u :=
      Table.first_eq_some.mpr ⟨hu, beq_iff_eq.mpr rfl, fun b hb hname =>
        hmin b hb (beq_iff_eq.mp hname)⟩
    exact Option.some.inj (hv.symm.trans hfirst)

theorem findAssetByName_eq (ha : a ∈ db.assets) :
    okOrZero (AssetRepository.findAssetByName db a.name "") = a ↔
      ∀ a' ∈ db.assets, a'.name = a.name → a.id ≤ a'.id := by
  rw [AssetRepository.findAssetByName, okOrZero_firstOrNotFound]
  simp only [beq_self_eq_true, Bool.true_or, Bool.and_true]
  have hsome : (db.assets.first fun b => b.name == a.name).isSome :=
    Table.first_isSome.mpr ⟨a, ha, beq_iff_eq.mpr rfl⟩
  obtain ⟨b, hb⟩ := Option.isSome_iff_exists.mp hsome
  rw [hb, Option.getD_some]
  constructor
  · rintro rfl a' ha' hname
    exact (Table.first_eq_some.mp hb).2.2 a' ha' (beq_iff_eq.mpr hname)
  · intro hmin
    have hfirst : (db.assets.first fun b => b.name == a.name) = some a :=
      Table.first_eq_some.mpr ⟨ha, beq_iff_eq.mpr rfl, fun c hc hname =>
        hmin c hc (beq_iff_eq.mp hname)⟩
    exact Option.some.inj (hb.symm.trans hfirst)

/-- The user found under a name without separator has a user name without separator; so has the zero
user that stands for none. -/
theorem username_of_resolved {username : String} (h : '#' ∉ username.toList)
    (hu : okOrZero (UserRepository.findByUsername db username) = u) : '#' ∉ u.username.toList := by
  rw [UserRepository.findByUsername, okOrZero_firstOrNotFound] at hu
  cases hfirst : db.users.first fun v => v.username == username with
  | some v =>
    rw [hfirst, Option.getD_some] at hu
    obtain ⟨-, hname, -⟩ := Table.first_eq_some.mp hfirst
    rw [← hu, beq_iff_eq.mp hname]
    exact h
  | none =>
    rw [hfirst, Option.getD_none] at hu
    rw [← hu]
    decide

theorem name_of_resolved {name : String} (h : '#' ∉ name.toList)
    (ha : okOrZero (AssetRepository.findAssetByName db name "") = a) : '#' ∉ a.name.toList := by
  rw [AssetRepository.findAssetByName, okOrZero_firstOrNotFound] at ha
  simp only [beq_self_eq_true, Bool.true_or, Bool.and_true] at ha
  cases hfirst : db.assets.first fun b => b.name == name with
  | some b =>
    rw [hfirst, Option.getD_some] at ha
    obtain ⟨-, hname, -⟩ := Table.first_eq_some.mp hfirst
    rw [← ha, beq_iff_eq.mp hname]
    exact h
  | none =>
    rw [hfirst, Option.getD_none] at ha
    rw [← ha]
    decide

theorem split_loginName (hu : '#' ∉ u.username.toList) :
    Text.split (loginName u a) '#' = u.username :: Text.split a.name '#' :=
  Text.split_append_sep hu (by decide) a.name

/-- A name is resolved to the pair it was built from exactly when its parts contain no separator and
its user and asset are the first rows of their names. -/
theorem resolveLogin_loginName (hu : u ∈ db.users) (ha : a ∈ db.assets) :
    MariaDBProxy.resolveLogin db (loginName u a) = some (u, a) ↔
      '#' ∉ u.username.toList ∧ '#' ∉ a.name.toList ∧
      (∀ u' ∈ db.users, u'.username = u.username → u.id ≤ u'.id) ∧
      (∀ a' ∈ db.assets, a'.name = a.name → a.id ≤ a'.id) := by
  rw [← findByUsername_eq hu, ← findAssetByName_eq ha]
  constructor
  · intro h
    rw [MariaDBProxy.resolveLogin] at h
    split at h
    · next username name rest hsplit =>
      obtain ⟨huser, hasset⟩ := Prod.mk.inj (Option.some.inj h)
      have husername : '#' ∉ username.toList :=
        Text.not_mem_of_mem_split (hsplit ▸ List.mem_cons_self)
      have hu' : '#' ∉ u.username.toList := username_of_resolved husername huser
      rw [split_loginName hu'] at hsplit
      obtain ⟨rfl, hparts⟩ := List.cons.inj hsplit
      have hmem : name ∈ Text.split a.name '#' := by
        rw [hparts]
        exact List.mem_cons_self
      have hname : '#' ∉ name.toList := Text.not_mem_of_mem_split hmem
      have ha' : '#' ∉ a.name.toList := name_of_resolved hname hasset
      rw [Text.split_of_not_mem ha'] at hparts
      obtain ⟨rfl, -⟩ := List.cons.inj hparts
      exact ⟨hu', ha', huser, hasset⟩
    · cases h
  · rintro ⟨hu', ha', huser, hasset⟩
    rw [MariaDBProxy.resolveLogin, split_loginName hu', Text.split_of_not_mem ha']
    exact congrArg some (Prod.ext huser hasset)

/-- **Login names identify the authorised asset** exactly when the names of the registered pairs can
be taken apart. -/
theorem loginsIdentify_iff (h : MariaDBProxy.initAuth decrypt db = some pool) :
    LoginsIdentify db pool ↔ NamesIdentify db := by
  constructor
  · intro hlogins u a hreg
    exact (resolveLogin_loginName hreg.pair.user hreg.pair.asset).mp (hlogins.resolved u a hreg).2
  · intro hnames
    have hresolve : ∀ u a, Registered db u a →
        MariaDBProxy.resolveLogin db (loginName u a) = some (u, a) := fun u a hreg =>
      (resolveLogin_loginName hreg.pair.user hreg.pair.asset).mpr (hnames u a hreg)
    refine ⟨?_, ?_⟩
    · intro u a hreg
      exact ⟨(initAuth_isSome h).mpr ⟨u, a, hreg, rfl⟩, hresolve u a hreg⟩
    · intro login hlogin
      obtain ⟨u, a, hreg, rfl⟩ := (initAuth_isSome h).mp hlogin
      obtain ⟨r, hr, hasset, hgrant⟩ := hreg.pair.grant
      refine ⟨u, a, hresolve u a hreg, r, hr, hasset, ?_⟩
      rcases hgrant with ⟨-, huser⟩ | ⟨-, hmember⟩
      · exact .inl huser
      · exact .inr hmember

/-! ## Two assets of one name -/

/-- `Passwder.Decrypt` on the one password that is stored below. -/
def decryptSecret (cryted : String) : Except Error String :=
  if cryted = "J5QIirAxUiPOlA0i7JyytA==" then .ok "secret" else .error (.text "无法获得传入密码")

def ann : User :=
  { id := "u1", username := "ann", status := nd.statusEnabled,
    proxyAuth := "J5QIirAxUiPOlA0i7JyytA==" }

def mariaDBAsset (id name : String) : Asset := { id, name, protocol := nd.mariaDB }

/-- One user, and two assets; the user is granted the second asset. -/
def grantOfSecond (name₁ name₂ : String) : Database :=
  { users := ⟨[ann], by decide⟩
    assets := ⟨[mariaDBAsset "a1" name₁, mariaDBAsset "a2" name₂], by simp [mariaDBAsset]⟩
    authorised := ⟨[{ id := "r1", assetId := "a2", userId := "u1" }], by decide⟩ }

theorem registered_grantOfSecond {name₁ name₂ : String} {u : User} {a : Asset}
    (h : Registered (grantOfSecond name₁ name₂) u a) : u = ann ∧ a = mariaDBAsset "a2" name₂ := by
  obtain ⟨⟨hu, -, ha, -, r, hr, hasset, -⟩, -⟩ := h
  refine ⟨List.mem_singleton.mp hu, ?_⟩
  rw [List.mem_singleton.mp hr] at hasset
  rcases List.mem_cons.mp ha with rfl | ha
  · exact absurd hasset (show "a2" ≠ "a1" by decide)
  · exact List.mem_singleton.mp ha

theorem initAuth_grantOfSecond (name₁ : String) :
    MariaDBProxy.initAuth decryptSecret (grantOfSecond name₁ "orders") =
      some (InMemoryProvider.addUser InMemoryProvider.removeAllUser "ann#orders" "secret") := by
  rfl

/-- With two names apart the logins identify the asset. -/
theorem loginsIdentify_grantOfSecond :
    LoginsIdentify (grantOfSecond "stock" "orders")
      (InMemoryProvider.addUser InMemoryProvider.removeAllUser "ann#orders" "secret") := by
  refine (loginsIdentify_iff (initAuth_grantOfSecond "stock")).mpr ?_
  intro u a h
  obtain ⟨rfl, rfl⟩ := registered_grantOfSecond h
  decide

theorem resolveLogin_grantOfSecond :
    MariaDBProxy.resolveLogin (grantOfSecond "orders" "orders") "ann#orders" =
      some (ann, mariaDBAsset "a1" "orders") := by
  decide

/-- With one name for both assets, the login that is registered for the second one is resolved to
the first one, which nobody was granted. -/
theorem not_loginsIdentify_grantOfSecond :
    ¬ ∀ decrypt db pool, MariaDBProxy.initAuth decrypt db = some pool → LoginsIdentify db pool := by
  intro h
  have hlogins := h decryptSecret _ _ (initAuth_grantOfSecond "orders")
  obtain ⟨u, a, hresolved, r, hr, hasset, -⟩ := hlogins.authorised "ann#orders" (by decide)
  obtain ⟨-, rfl⟩ := Prod.mk.inj
    (Option.some.inj (hresolved.symm.trans resolveLogin_grantOfSecond))
  rw [List.mem_singleton.mp hr] at hasset
  exact absurd hasset (by decide)

end NextDBM
