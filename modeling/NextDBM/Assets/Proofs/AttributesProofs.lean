import NextDBM.Assets.Attributes

/-!
# Proofs about the attributes of assets

An asset has rows for names that are stored for its protocol, with values that are not empty: every request
keeps this. A row that is there is read with its value, and without one the property is read; so what was
sent comes back where its name is stored for the protocol that was sent.
-/

namespace NextDBM

open Relational

variable {c : Cipher} {db db' : Database} {id protocol name : String} {m : String → String}
  {asset : Asset} {s : Submission} {attributes : String → String}

namespace AssetRepository

/-- The rows of the asset are replaced; nothing else changes. -/
theorem updateAttributes_spec (h : updateAttributes db id protocol m = .ok db') :
    (∀ r, r ∈ db'.assetAttributes ↔ r ∈ db.assetAttributes ∧ r.assetId ≠ id ∨
      ∃ n ∈ storedParameterNames protocol, m n ≠ "" ∧ r = genAttribute id m n) ∧
    db'.assets = db.assets ∧ db'.properties = db.properties := by
  unfold updateAttributes at h
  simp only at h
  split at h
  · next assetAttributes hinsert =>
    obtain rfl := Except.ok.inj h
    refine ⟨fun r => ?_, rfl, rfl⟩
    rw [Table.mem_of_insertAll hinsert, Table.mem_deleteWhere, beq_eq_false_iff_ne, List.mem_map]
    constructor
    · rintro (⟨n, hn, rfl⟩ | hr)
      · obtain ⟨hstored, hvalue⟩ := List.mem_filter.mp hn
        exact .inr ⟨n, hstored, bne_iff_ne.mp hvalue, rfl⟩
      · exact .inl hr
    · rintro (hr | ⟨n, hstored, hvalue, rfl⟩)
      · exact .inr hr
      · exact .inl ⟨n, List.mem_filter.mpr ⟨hstored, bne_iff_ne.mpr hvalue⟩, rfl⟩
  · cases h

/-! ## Reading -/

/-- What is read for a name without a row. -/
def defaultValue (db : Database) (protocol name : String) : String :=
  if name ∈ parameterNames protocol then propertyValue db name else ""

theorem findAssetAttrMap_spec (h : findAssetAttrMapByAssetId db id = .ok attributes) :
    ∃ asset ∈ db.assets, asset.id = id ∧ attributes "protocol" = asset.protocol ∧
      ∀ name, name ≠ "protocol" →
        (∃ r ∈ db.assetAttributes, r.assetId = id ∧ r.name = name ∧ attributes name = r.value) ∨
        (∀ r ∈ db.assetAttributes, r.assetId = id → r.name ≠ name) ∧
          attributes name = defaultValue db asset.protocol name := by
  unfold findAssetAttrMapByAssetId at h
  obtain ⟨asset, hasset, h⟩ := bind_eq_ok.mp h
  obtain ⟨hmem, hid⟩ := Table.findById_eq_some.mp (firstOrNotFound_eq_ok.mp hasset)
  obtain rfl := Except.ok.inj h
  refine ⟨asset, hmem, hid, if_pos rfl, fun name hname => ?_⟩
  simp only [if_neg hname]
  cases hfind : (db.assetAttributes.select fun a => a.assetId == id).reverse.find?
      fun a => a.name == name with
  | some r =>
    obtain ⟨hr, hrid⟩ := Table.mem_select.mp (List.mem_reverse.mp (List.mem_of_find?_eq_some hfind))
    have hrname := List.find?_some hfind
    exact .inl ⟨r, hr, beq_iff_eq.mp hrid, beq_iff_eq.mp hrname, rfl⟩
  | none =>
    refine .inr ⟨fun r hr hrid hrname => ?_, ?_⟩
    · have hmem : r ∈ (db.assetAttributes.select fun a => a.assetId == id).reverse :=
        List.mem_reverse.mpr (Table.mem_select.mpr ⟨hr, beq_iff_eq.mpr hrid⟩)
      exact List.find?_eq_none.mp hfind r hmem (beq_iff_eq.mpr hrname)
    · rw [defaultValue]
      simp only [contains_iff]
      rfl

theorem exists_findAssetAttrMap (h : asset ∈ db.assets) :
    ∃ attributes, findAssetAttrMapByAssetId db asset.id = .ok attributes := by
  have hfind : findById db asset.id = .ok asset :=
    firstOrNotFound_eq_ok.mpr (Table.findById_eq_some.mpr ⟨h, rfl⟩)
  unfold findAssetAttrMapByAssetId
  rw [hfind]
  exact ⟨_, rfl⟩

theorem protocol_not_mem_parameterNames (protocol : String) : "protocol" ∉ parameterNames protocol := by
  unfold parameterNames storedParameterNames
  split
  · decide
  · split
    all_goals decide

end AssetRepository

namespace AssetService

theorem encrypt_columns {item item' : Asset} (h : encrypt c item = .ok item') :
    item'.id = item.id ∧ item'.protocol = item.protocol := by
  unfold encrypt at h
  obtain ⟨password, -, h⟩ := bind_eq_ok.mp h
  obtain ⟨privateKey, -, h⟩ := bind_eq_ok.mp h
  obtain ⟨passphrase, -, h⟩ := bind_eq_ok.mp h
  obtain rfl := Except.ok.inj h
  exact ⟨rfl, rfl⟩

theorem placeholders_protocol (item : Asset) : (placeholders item).protocol = item.protocol := by
  unfold placeholders
  simp only
  split
  all_goals rfl

end AssetService

/-! ## A request -/

/-- What a request for an asset does: its rows are those of the names that are stored and were sent with a
value, and no other asset is written. -/
structure Written (db : Database) (s : Submission) (db' : Database) : Prop where
  attributes : ∀ r, r ∈ db'.assetAttributes ↔ r ∈ db.assetAttributes ∧ r.assetId ≠ s.assetId ∨
    ∃ n ∈ AssetRepository.storedParameterNames s.body.item.protocol, s.body.attributes n ≠ "" ∧
      r = AssetRepository.genAttribute s.assetId s.body.attributes n
  properties : db'.properties = db.properties
  protocol : ∀ a ∈ db'.assets, a.id = s.assetId → a.protocol = s.protocol db
  others : ∀ a ∈ db'.assets, a.id ≠ s.assetId → a ∈ db.assets
  kept : ∀ a ∈ db.assets, ∃ a' ∈ db'.assets, a'.id = a.id

theorem written_create {uuid : String} {m : AssetBody}
    (h : (AssetService.create c db uuid m).map Prod.fst = .ok db') :
    Written db (.create uuid m) db' := by
  cases hresult : AssetService.create c db uuid m with
  | error err => rw [hresult] at h; cases h
  | ok result =>
    rw [hresult] at h
    obtain rfl := Except.ok.inj h
    unfold AssetService.create at hresult
    obtain ⟨item, hitem, hresult⟩ := bind_eq_ok.mp hresult
    obtain ⟨db₁, hdb₁, hresult⟩ := bind_eq_ok.mp hresult
    obtain ⟨db₂, hdb₂, hresult⟩ := bind_eq_ok.mp hresult
    obtain rfl := Except.ok.inj hresult
    obtain ⟨hid, hprotocol⟩ := AssetService.encrypt_columns hitem
    change item.id = uuid at hid
    change item.protocol = m.item.protocol at hprotocol
    obtain ⟨hattributes, hassets, hproperties⟩ := AssetRepository.updateAttributes_spec hdb₂
    unfold AssetRepository.create at hdb₁
    split at hdb₁
    · next assets hinsert =>
      obtain rfl := Except.ok.inj hdb₁
      have hmem : ∀ a ∈ db₂.assets, a = item ∨ a ∈ db.assets := by
        intro a ha
        rw [hassets] at ha
        exact (Table.mem_of_insert hinsert).mp ha
      rw [hid, hprotocol] at hattributes
      refine ⟨hattributes, hproperties, fun a ha haid => ?_, fun a ha haid => ?_, fun a ha => ?_⟩
      · rcases hmem a ha with rfl | ha
        · exact hprotocol
        · have hnone := Table.insert_eq_none.mpr ⟨a, ha, haid.trans hid.symm⟩
          rw [hnone] at hinsert
          cases hinsert
      · exact (hmem a ha).resolve_left fun heq => haid (heq ▸ hid)
      · rw [hassets]
        exact ⟨a, (Table.mem_of_insert hinsert).mpr (.inr ha), rfl⟩
    · cases hdb₁

theorem written_update {m : AssetBody} (h : AssetService.updateById c db id m = .ok db') :
    Written db (.update id m) db' := by
  unfold AssetService.updateById at h
  obtain ⟨item, hitem, h⟩ := bind_eq_ok.mp h
  obtain ⟨db₁, hdb₁, h⟩ := bind_eq_ok.mp h
  obtain ⟨-, hprotocol⟩ := AssetService.encrypt_columns hitem
  rw [AssetService.placeholders_protocol] at hprotocol
  obtain ⟨hattributes, hassets, hproperties⟩ := AssetRepository.updateAttributes_spec h
  unfold AssetRepository.updateById at hdb₁
  split at hdb₁
  · cases hdb₁
  · obtain rfl := Except.ok.inj hdb₁
    rw [hprotocol] at hattributes
    refine ⟨hattributes, hproperties, fun a ha haid => ?_, fun a ha haid => ?_, fun a ha => ?_⟩
    · rw [hassets] at ha
      obtain ⟨b, hb, hbid, rfl⟩ :=
        Table.exists_of_mem_updateById (AssetRepository.assign_id item) ha haid
      have hfind : db.assets.findById id = some b := Table.findById_eq_some.mpr ⟨hb, hbid⟩
      show nonZero item.protocol b.protocol = nonZero m.item.protocol _
      rw [hfind, hprotocol]
      rfl
    · rw [hassets] at ha
      rcases Table.mem_updateById (AssetRepository.assign_id item) ha with ha | ⟨b, hb, hbid, rfl⟩
      · exact ha
      · exact absurd hbid haid
    · rw [hassets]
      exact Table.exists_mem_updateById ha id _ (AssetRepository.assign_id item)

theorem written_run (h : s.run c db = .ok db') : Written db s db' := by
  cases s with
  | create uuid m => exact written_create h
  | update id m => exact written_update h

/-! ## Runs -/

/-- The rows of every asset have names that are stored for its protocol, and values. -/
def AttributesStored (db : Database) : Prop :=
  ∀ a ∈ db.assets, ∀ r ∈ db.assetAttributes, r.assetId = a.id →
    r.name ∈ AssetRepository.storedParameterNames a.protocol ∧ r.value ≠ ""

/-- The names that are stored for the protocol of a request are those of the protocol afterwards, or none. -/
theorem stored_of_request (h : name ∈ AssetRepository.storedParameterNames s.body.item.protocol) :
    name ∈ AssetRepository.storedParameterNames (s.protocol db) := by
  cases s with
  | create uuid m => exact h
  | update id m =>
    show name ∈ AssetRepository.storedParameterNames (nonZero m.item.protocol _)
    unfold nonZero
    split
    · next hempty =>
      change name ∈ AssetRepository.storedParameterNames m.item.protocol at h
      rw [hempty] at h
      exact absurd h List.not_mem_nil
    · exact h

theorem AttributesStored.submit (hdb : AttributesStored db) (h : s.run c db = .ok db') :
    AttributesStored db' := by
  have hw := written_run h
  intro a ha r hr hra
  rcases (hw.attributes r).mp hr with ⟨hr, hne⟩ | ⟨n, hn, hvalue, rfl⟩
  · exact hdb a (hw.others a ha (hra ▸ hne)) r hr hra
  · rw [hw.protocol a ha hra.symm]
    exact ⟨stored_of_request hn, hvalue⟩

/-- **Step lemma**: every step leaves the rows as requests store them. -/
theorem AttributesStored.step {action : AttributeAction} (hdb : AttributesStored db)
    (hguard : AttributeAction.Guard db action) (h : action.step c db = some db') :
    AttributesStored db' := by
  cases action with
  | submit s =>
    obtain rfl := Option.some.inj h
    show AttributesStored (commit db (s.run c db))
    cases hrun : s.run c db with
    | ok db₁ => exact hdb.submit hrun
    | error err => exact hdb
  | delete id =>
    obtain rfl := Option.some.inj h
    intro a ha r hr
    exact hdb a (Table.mem_deleteWhere.mp ha).1 r (Table.mem_deleteWhere.mp hr).1
  | fixSshMode =>
    obtain rfl := Option.some.inj h
    intro a ha r hr hra
    obtain ⟨r₀, hr₀, rfl⟩ := List.mem_map.mp hr
    unfold AssetRepository.replaceValue at hra ⊢
    split at hra
    · next hreplaced =>
      rw [if_pos hreplaced]
      exact ⟨(hdb a ha r₀ hr₀ hra).1, show nd.native ≠ "" by decide⟩
    · next hkept =>
      rw [if_neg hkept]
      exact hdb a ha r₀ hr₀ hra
  | other db₁ =>
    obtain rfl := Option.some.inj h
    intro a ha r hr hra
    obtain ⟨a₀, ha₀, hid, hprotocol⟩ := hguard.2 a ha
    rw [hguard.1] at hr
    rw [← hprotocol]
    exact hdb a₀ ha₀ r hr (hra.trans hid.symm)

/-- **Run lemma**: the rows are so in every state that is reached. -/
theorem attributesStored_of_reaches
    (h : Transition.Reaches (AttributeAction.step c) AttributeAction.Guard {} db) :
    AttributesStored db :=
  h.invariant (fun _ _ _ hs hok hstep => hs.step hok hstep) fun _ ha => absurd ha List.not_mem_nil

/-! ## The other requests for assets and credentials -/

theorem leaves_of_eq (hassets : db'.assets = db.assets)
    (hattributes : db'.assetAttributes = db.assetAttributes) : AttributeAction.Leaves db db' :=
  ⟨hattributes, fun a ha => ⟨a, hassets ▸ ha, rfl, rfl⟩⟩

theorem leaves_commit {r : Except Error Database}
    (h : ∀ db', r = .ok db' → AttributeAction.Leaves db db') :
    AttributeAction.Leaves db (commit db r) := by
  cases r with
  | ok db' => exact h db' rfl
  | error err => exact leaves_of_eq rfl rfl

theorem leaves_updateById {o : Asset}
    (ho : ∀ a ∈ db.assets, a.id = id → nonZero o.protocol a.protocol = a.protocol)
    (h : AssetRepository.updateById db o id = .ok db') : AttributeAction.Leaves db db' := by
  unfold AssetRepository.updateById at h
  split at h
  · cases h
  · obtain rfl := Except.ok.inj h
    refine ⟨rfl, fun a' ha' => ?_⟩
    rcases Table.mem_updateById (AssetRepository.assign_id o) ha' with ha' | ⟨a, ha, haid, rfl⟩
    · exact ⟨a', ha', rfl, rfl⟩
    · exact ⟨a, ha, rfl, (ho a ha haid).symm⟩

theorem leaves_setAssetActive {assetId : String}
    (h : AssetRequest.setAssetActive db assetId = .ok db') : AttributeAction.Leaves db db' := by
  unfold AssetRequest.setAssetActive at h
  obtain ⟨asset, hasset, h⟩ := bind_eq_ok.mp h
  obtain ⟨hmem, -⟩ := Table.findById_eq_some.mp (firstOrNotFound_eq_ok.mp hasset)
  split at h
  · obtain rfl := Except.ok.inj h
    exact leaves_of_eq rfl rfl
  · refine leaves_updateById (fun a ha haid => ?_) h
    obtain rfl := Table.eq_of_key ha hmem haid
    show nonZero a.protocol a.protocol = a.protocol
    rw [nonZero, ite_self]

theorem leaves_credentialCreate {o : Credential} (h : CredentialRepository.create db o = .ok db') :
    AttributeAction.Leaves db db' := by
  unfold CredentialRepository.create at h
  split at h
  · obtain rfl := Except.ok.inj h
    exact leaves_of_eq rfl rfl
  · cases h

theorem leaves_credentialUpdate {o : Credential}
    (h : CredentialRepository.updateById db o id = .ok db') : AttributeAction.Leaves db db' := by
  unfold CredentialRepository.updateById at h
  split at h
  · cases h
  · obtain rfl := Except.ok.inj h
    exact leaves_of_eq rfl rfl

/-- Every request for an asset or a credential is a step here. -/
theorem exists_attributeAction (r : AssetRequest) (hr : ∀ db', r ≠ .other db') :
    ∃ action, AttributeAction.Guard db action ∧ action.step c db = some (r.handle c db) := by
  cases r with
  | assetCreate uuid m => exact ⟨.submit (.create uuid m), trivial, rfl⟩
  | assetUpdate id m => exact ⟨.submit (.update id m), trivial, rfl⟩
  | assetDelete id => exact ⟨.delete id, trivial, rfl⟩
  | assetChangeOwner id owner =>
    exact ⟨.other _, leaves_commit fun db' h => leaves_updateById (fun a _ _ => rfl) h, rfl⟩
  | assetUpdateActive active message id =>
    refine ⟨.other (AssetRepository.updateActiveById db active message id),
      ⟨rfl, fun a' ha' => ?_⟩, rfl⟩
    rcases Table.mem_updateById (AssetRepository.setActive_id active message) ha' with
      ha' | ⟨a, ha, -, rfl⟩
    · exact ⟨a', ha', rfl, rfl⟩
    · exact ⟨a, ha, rfl, rfl⟩
  | sessionConnect assetId =>
    exact ⟨.other _, leaves_commit fun db' h => leaves_setAssetActive h, rfl⟩
  | credentialCreate uuid owner item =>
    refine ⟨.other _, leaves_commit fun db' h => ?_, rfl⟩
    unfold CredentialApi.credentialCreateEndpoint CredentialService.create at h
    obtain ⟨item₁, -, h⟩ := bind_eq_ok.mp h
    obtain ⟨item₂, -, h⟩ := bind_eq_ok.mp h
    exact leaves_credentialCreate h
  | credentialImport item =>
    refine ⟨.other _, leaves_commit fun db' h => ?_, rfl⟩
    unfold CredentialService.create at h
    obtain ⟨item₁, -, h⟩ := bind_eq_ok.mp h
    exact leaves_credentialCreate h
  | credentialUpdate id item =>
    refine ⟨.other _, leaves_commit fun db' h => ?_, rfl⟩
    unfold CredentialApi.credentialUpdateEndpoint at h
    obtain ⟨item₁, -, h⟩ := bind_eq_ok.mp h
    obtain ⟨item₂, -, h⟩ := bind_eq_ok.mp h
    exact leaves_credentialUpdate h
  | credentialChangeOwner id owner =>
    exact ⟨.other _, leaves_commit fun db' h => leaves_credentialUpdate h, rfl⟩
  | credentialDelete id => exact ⟨.other (CredentialRepository.deleteById db id), leaves_of_eq rfl rfl, rfl⟩
  | other db' => exact absurd rfl (hr db')

/-! ## What a request leaves to read -/

/-- A name that is stored is read as it was sent, any other one by its property. -/
theorem Written.read (hw : Written db s db') (hid : asset.id = s.assetId) (hasset : asset ∈ db'.assets)
    (h : AssetRepository.findAssetAttrMapByAssetId db' s.assetId = .ok attributes)
    (hname : name ≠ "protocol") : attributes name =
      if name ∈ AssetRepository.storedParameterNames s.body.item.protocol ∧ s.body.attributes name ≠ "" then
        s.body.attributes name
      else AssetRepository.defaultValue db (s.protocol db) name := by
  obtain ⟨a, ha, haid, -, hread⟩ := AssetRepository.findAssetAttrMap_spec h
  obtain rfl := Table.eq_of_key ha hasset (haid.trans hid.symm)
  have hdefault : AssetRepository.defaultValue db' a.protocol name =
      AssetRepository.defaultValue db (s.protocol db) name := by
    rw [AssetRepository.defaultValue, propertyValue, hw.properties, hw.protocol a ha hid]
    rfl
  rcases hread name hname with ⟨r, hr, hrid, hrname, hvalue⟩ | ⟨hnone, hvalue⟩
  · rcases (hw.attributes r).mp hr with ⟨-, hne⟩ | ⟨n, hn, hsent, rfl⟩
    · exact absurd hrid hne
    · obtain rfl : n = name := hrname
      rw [if_pos ⟨hn, hsent⟩]
      exact hvalue
  · rw [if_neg, hvalue, hdefault]
    rintro ⟨hn, hsent⟩
    exact hnone _ ((hw.attributes _).mpr (.inr ⟨name, hn, hsent, rfl⟩)) rfl rfl

theorem submitted_iff (hrun : s.run c db = .ok db') (hasset : asset ∈ db'.assets)
    (hid : asset.id = s.assetId) :
    (∃ attributes, AssetRepository.findAssetAttrMapByAssetId db' s.assetId = .ok attributes ∧
      ∀ name ∈ AssetRepository.parameterNames asset.protocol,
        s.body.attributes name ≠ "" → attributes name = s.body.attributes name) ↔ Storable db s := by
  have hw := written_run hrun
  obtain ⟨attributes, hread⟩ := AssetRepository.exists_findAssetAttrMap hasset
  rw [hid] at hread
  have hvalue (name : String) (hname : name ∈ AssetRepository.parameterNames (s.protocol db))
      (hsent : s.body.attributes name ≠ "") : attributes name = s.body.attributes name ↔
        name ∈ AssetRepository.storedParameterNames s.body.item.protocol ∨
          propertyValue db name = s.body.attributes name := by
    have hne : name ≠ "protocol" := by
      rintro rfl
      exact AssetRepository.protocol_not_mem_parameterNames _ hname
    rw [hw.read hid hasset hread hne]
    split
    · next hstored => exact iff_of_true rfl (.inl hstored.1)
    · next hnot =>
      rw [AssetRepository.defaultValue, if_pos hname]
      exact (or_iff_right fun hstored => hnot ⟨hstored, hsent⟩).symm
  rw [hw.protocol asset hasset hid]
  constructor
  · rintro ⟨attributes', hread', hall⟩ name hname hsent
    obtain rfl := Except.ok.inj (hread.symm.trans hread')
    exact (hvalue name hname hsent).mp (hall name hname hsent)
  · intro h
    exact ⟨attributes, hread, fun name hname hsent => (hvalue name hname hsent).mpr (h name hname hsent)⟩

theorem decrypt_protocol {item : Asset} (h : AssetRepository.decrypt c asset = .ok item) :
    item.protocol = asset.protocol := by
  unfold AssetRepository.decrypt at h
  split at h
  · obtain ⟨password, -, h⟩ := bind_eq_ok.mp h
    obtain ⟨privateKey, -, h⟩ := bind_eq_ok.mp h
    obtain ⟨passphrase, -, h⟩ := bind_eq_ok.mp h
    obtain rfl := Except.ok.inj h
    rfl
  · obtain rfl := Except.ok.inj h
    rfl

/-- `AssetGetEndpoint` returns the protocol of the asset and its attributes. -/
theorem assetGetEndpoint_eq_ok {body : AssetBody} (h : AssetApi.assetGetEndpoint c db id = .ok body) :
    AssetRepository.findAssetAttrMapByAssetId db id = .ok body.attributes ∧
      ∃ a ∈ db.assets, a.id = id ∧ body.item.protocol = a.protocol := by
  unfold AssetApi.assetGetEndpoint at h
  obtain ⟨item, hitem, h⟩ := bind_eq_ok.mp h
  obtain ⟨attributes, hattributes, h⟩ := bind_eq_ok.mp h
  obtain rfl := Except.ok.inj h
  obtain ⟨a, ha, hitem⟩ := bind_eq_ok.mp hitem
  obtain ⟨hmem, haid⟩ := Table.findById_eq_some.mp (firstOrNotFound_eq_ok.mp ha)
  exact ⟨hattributes, a, hmem, haid, decrypt_protocol hitem⟩

/-- An update with what is read stores a value for every name that had a row, and the values of the
properties for others that are stored. -/
theorem findAssetAttrMap_resubmitted {body : AssetBody} (hdb : AttributesStored db)
    (hget : AssetApi.assetGetEndpoint c db id = .ok body)
    (hupdate : AssetService.updateById c db id body = .ok db') :
    AssetRepository.findAssetAttrMapByAssetId db' id =
      AssetRepository.findAssetAttrMapByAssetId db id := by
  obtain ⟨hattributes, a, ha, haid, hitem⟩ := assetGetEndpoint_eq_ok hget
  have hw := written_update hupdate
  obtain ⟨a', ha', haid'⟩ := hw.kept a ha
  rw [haid] at haid'
  have hprotocol : (Submission.update id body).protocol db = a.protocol := by
    have hfind : db.assets.findById id = some a := Table.findById_eq_some.mpr ⟨ha, haid⟩
    show nonZero body.item.protocol (((db.assets.findById id).map Asset.protocol).getD "") = a.protocol
    rw [hfind, hitem, nonZero]
    split
    · rfl
    · rfl
  obtain ⟨attributes', hattributes'⟩ := AssetRepository.exists_findAssetAttrMap ha'
  rw [haid'] at hattributes'
  rw [hattributes', hattributes]
  congr 1
  funext name
  obtain ⟨a₀, ha₀, haid₀, hname₀, hread₀⟩ := AssetRepository.findAssetAttrMap_spec hattributes
  obtain rfl := Table.eq_of_key ha₀ ha (haid₀.trans haid.symm)
  by_cases hname : name = "protocol"
  · obtain ⟨a₁, ha₁, haid₁, hname₁, -⟩ := AssetRepository.findAssetAttrMap_spec hattributes'
    rw [hname, hname₀, hname₁, hw.protocol a₁ ha₁ haid₁, hprotocol]
  · rw [hw.read haid' ha' hattributes' hname, hprotocol]
    change (if name ∈ AssetRepository.storedParameterNames body.item.protocol ∧ body.attributes name ≠ ""
      then body.attributes name else _) = _
    split
    · rfl
    · next hnot =>
      rcases hread₀ name hname with ⟨r, hr, hrid, hrname, hvalue⟩ | ⟨-, hvalue⟩
      · -- A row has a name that is stored and a value, so it is written again.
        obtain ⟨hstored, hne⟩ := hdb a₀ ha r hr (hrid.trans haid.symm)
        rw [hrname, ← hitem] at hstored
        rw [← hvalue] at hne
        exact absurd ⟨hstored, hne⟩ hnot
      · exact hvalue.symm

/-! ## The claim on attributes -/

/-- **Attributes of assets**: in every state that is reached, the supported attributes of a request are read
back exactly when they are among those that are stored for the protocol of the request, or their property
has the value already. -/
theorem attributesReturn_iff
    (hreach : Transition.Reaches (AttributeAction.step c) AttributeAction.Guard {} db)
    (hrun : s.run c db = .ok db') (hasset : asset ∈ db'.assets) (hid : asset.id = s.assetId) :
    AttributesReturn c db s db' asset ↔ Storable db s := by
  have hstored := attributesStored_of_reaches hreach
  constructor
  · exact fun h => (submitted_iff hrun hasset hid).mp h.submitted
  · exact fun h => ⟨(submitted_iff hrun hasset hid).mpr h,
      fun id body db₁ hget hupdate => findAssetAttrMap_resubmitted hstored hget hupdate⟩

/-- A cipher that leaves texts as they are. -/
def openTexts : Cipher := { encrypt := .ok, decrypt := .ok }

/-- A request for a new asset of a protocol with one attribute. -/
def newAsset (protocol name value : String) : Submission :=
  .create "1" {
    item := { name := "db", protocol }
    attributes := fun n => if n = name then value else "" }

/-- The asset that it stores. -/
def storedAsset (protocol : String) : Asset :=
  { id := "1", name := "db", protocol, active := true, encrypted := true }

theorem attributesReturn_ssh : AttributesReturn openTexts {} (newAsset "ssh" "font-size" "14")
    { assets := .single (storedAsset "ssh")
      assetAttributes := .single { id := sign ["1", "font-size"], assetId := "1", name := "font-size",
                                   value := "14" } } (storedAsset "ssh") :=
  (attributesReturn_iff (.refl _) rfl (List.mem_singleton_self _) rfl).mpr (by decide)

/-- The proxy of a new MySQL asset is lost. -/
theorem not_attributesReturn_mysql : ¬ ∀ (c : Cipher) (db : Database) (s : Submission) (db' : Database)
    (asset : Asset), Transition.Reaches (AttributeAction.step c) AttributeAction.Guard {} db →
      s.run c db = .ok db' → asset ∈ db'.assets → asset.id = s.assetId →
        AttributesReturn c db s db' asset := by
  intro h
  have hrun : (newAsset "MySQL" "socks-proxy-enable" "true").run openTexts {} =
      .ok { assets := .single (storedAsset "MySQL") } := rfl
  have hreturn := h openTexts {} _ _ (storedAsset "MySQL") (.refl _) hrun (List.mem_singleton_self _) rfl
  have hstorable := (submitted_iff hrun (List.mem_singleton_self _) rfl).mp hreturn.submitted
  exact absurd (hstorable "socks-proxy-enable" (by decide) (by decide)) (by decide)

end NextDBM
