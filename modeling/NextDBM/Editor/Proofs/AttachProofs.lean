import NextDBM.Assets.Proofs.ParametersProofs
import NextDBM.Editor.Attach

/-!
# Proofs: who may attach to a session

The endpoint opens the connection of every session that can be attached, whoever asks
(`sshEndpoint_account`). So the accounts that opened connections were entitled to them exactly when
only entitled accounts asked.
-/

namespace NextDBM

open Relational

namespace WebTerminalApi

variable {c : Cipher} {db : Database} {net : Network} {account : User} {sessionId : String}
  {s : Session} {upstream : Upstream}

theorem permissionCheck_eq (account : User) (assetId : String) :
    permissionCheck account assetId = .ok () := by
  unfold permissionCheck
  split
  · rfl
  · rfl

/-- The endpoint does the same for every account. -/
theorem sshEndpoint_account (c : Cipher) (db : Database) (net : Network) (account account' : User)
    (sessionId : String) :
    sshEndpoint c db net account sessionId = sshEndpoint c db net account' sessionId := by
  unfold sshEndpoint
  simp only [permissionCheck_eq]

/-- The gateway and the tunnel that `Attachable` asks for. -/
theorem address_ok_iff :
    (∃ exposed, address db net s = .ok exposed) ↔
      s.accessGatewayId = "" ∨ s.accessGatewayId = "-" ∨
        ((net.gatewayLoaded = true ∨ ∃ g ∈ db.accessGateways, g.id = s.accessGatewayId) ∧
          net.openSshTunnel.isOk = true) := by
  unfold address
  by_cases hgateway : s.accessGatewayId ≠ "" ∧ s.accessGatewayId ≠ "-"
  · rw [if_pos hgateway]
    have hfound : (∃ g ∈ db.accessGateways, g.id = s.accessGatewayId) ↔
        ∃ g, GatewayRepository.findById db s.accessGatewayId = .ok g := by
      constructor
      · rintro ⟨g, hg, hid⟩
        exact ⟨g, firstOrNotFound_eq_ok.mpr (Table.findById_eq_some.mpr ⟨hg, hid⟩)⟩
      · rintro ⟨g, hg⟩
        exact ⟨g, Table.findById_eq_some.mp (firstOrNotFound_eq_ok.mp hg)⟩
    rw [hfound]
    simp only [hgateway.1, hgateway.2, false_or]
    cases net.gatewayLoaded with
    | true =>
      cases net.openSshTunnel with
      | ok exposed => simp [Except.isOk, Except.toBool]
      | error err => simp [Except.isOk, Except.toBool]
    | false =>
      cases GatewayRepository.findById db s.accessGatewayId with
      | error err => simp
      | ok g =>
        cases net.openSshTunnel with
        | ok exposed => simp [Except.isOk, Except.toBool]
        | error err => simp [Except.isOk, Except.toBool]
  · rw [if_neg hgateway]
    refine ⟨fun _ => ?_, fun _ => ⟨_, rfl⟩⟩
    by_cases hempty : s.accessGatewayId = ""
    · exact .inl hempty
    · exact .inr (.inl (not_not.mp fun hdash => hgateway ⟨hempty, hdash⟩))

theorem attributes_ok_iff {assetId : String} :
    (∃ attributes, AssetRepository.findAssetAttrMapByAssetId db assetId = .ok attributes) ↔
      ∃ a ∈ db.assets, a.id = assetId := by
  unfold AssetRepository.findAssetAttrMapByAssetId
  constructor
  · rintro ⟨attributes, h⟩
    obtain ⟨a, ha, -⟩ := bind_eq_ok.mp h
    exact ⟨a, Table.findById_eq_some.mp (firstOrNotFound_eq_ok.mp ha)⟩
  · rintro ⟨a, ha, rfl⟩
    rw [AssetRepository.findById_of_mem ha]
    exact ⟨_, rfl⟩

theorem afterOpen_upstream : (afterOpen db net sessionId upstream).upstream = some upstream := by
  unfold afterOpen
  split
  · rfl
  · split
    · rfl
    · rfl

/-- **What the endpoint opens**: the connection of the stored session, whenever it can be attached. -/
theorem sshEndpoint_upstream :
    (∃ upstream, (sshEndpoint c db net account sessionId).upstream = some upstream ∧
        upstream.session = s) ↔
      SessionService.findByIdAndDecrypt c db sessionId = .ok s ∧ Editor.Attachable db net s := by
  unfold sshEndpoint
  constructor
  · rintro ⟨upstream, hopen, rfl⟩
    split at hopen
    · cases hopen
    · next sess hsess =>
      rw [permissionCheck_eq] at hopen
      simp only at hopen
      split at hopen
      · cases hopen
      · next ip port haddress =>
        split at hopen
        · cases hopen
        · next attributes hattributes =>
          split at hopen
          · cases hopen
          · next hclient =>
            rw [afterOpen_upstream] at hopen
            obtain rfl := Option.some.inj hopen
            exact ⟨hsess, address_ok_iff.mp ⟨_, haddress⟩, attributes_ok_iff.mp ⟨_, hattributes⟩,
              by rw [hclient]; rfl⟩
  · rintro ⟨hsess, hgateway, hasset, hclient⟩
    obtain ⟨⟨ip, port⟩, haddress⟩ := address_ok_iff.mpr hgateway
    obtain ⟨attributes, hattributes⟩ := attributes_ok_iff.mpr hasset
    refine ⟨upstreamOf s ip port attributes, ?_, rfl⟩
    rw [hsess]
    simp only [permissionCheck_eq, haddress, hattributes]
    cases hdial : net.newNextDBM with
    | error err =>
      rw [hdial] at hclient
      cases hclient
    | ok u => exact afterOpen_upstream

end WebTerminalApi

namespace Editor

variable {c : Cipher} {s t : State} {a : Action}

/-- **Step lemma**: one step keeps the property exactly when it meets the condition. -/
theorem attachAuthorised_step (h : step c s a = some t) :
    AttachAuthorised t ↔ AttachAuthorised s ∧ AttachOk c s a := by
  have hkeep : t.opened = s.opened → AttachOk c s a →
      (AttachAuthorised t ↔ AttachAuthorised s ∧ AttachOk c s a) := by
    intro hopened hok
    unfold AttachAuthorised
    rw [hopened]
    exact ⟨fun hs => ⟨hs, hok⟩, fun hs => hs.1⟩
  cases a with
  | create uuid clientIp assetId mode user =>
    refine hkeep ?_ trivial
    simp only [step] at h
    split at h
    · obtain rfl := Option.some.inj h
      rfl
    · obtain rfl := Option.some.inj h
      rfl
  | terminal uuid clientIp assetId creator =>
    refine hkeep ?_ trivial
    simp only [step] at h
    split at h
    · obtain rfl := Option.some.inj h
      rfl
    · obtain rfl := Option.some.inj h
      rfl
  | close sessionId reason =>
    refine hkeep ?_ trivial
    simp only [step] at h
    split at h
    · obtain rfl := Option.some.inj h
      rfl
    · obtain rfl := Option.some.inj h
      rfl
  | database db =>
    refine hkeep ?_ trivial
    obtain rfl := Option.some.inj h
    rfl
  | attach net account sessionId =>
    simp only [step] at h
    split at h
    · next upstream hopen =>
      obtain rfl := Option.some.inj h
      obtain ⟨hfind, hattach⟩ := WebTerminalApi.sshEndpoint_upstream.mp ⟨upstream, hopen, rfl⟩
      simp only [AttachAuthorised, List.forall_mem_cons]
      constructor
      · rintro ⟨hnew, hold⟩
        refine ⟨hold, fun htype sess hsess _ => ?_⟩
        obtain rfl := Except.ok.inj (hfind.symm.trans hsess)
        exact hnew htype
      · rintro ⟨hold, hok⟩
        exact ⟨fun htype => hok htype _ hfind hattach, hold⟩
    · next hnone =>
      obtain rfl := Option.some.inj h
      refine hkeep rfl fun _ sess hsess hattach => ?_
      obtain ⟨upstream, hopen, -⟩ :
          ∃ upstream, (WebTerminalApi.sshEndpoint c s.db net account sessionId).upstream =
            some upstream ∧ upstream.session = sess :=
        WebTerminalApi.sshEndpoint_upstream.mpr ⟨hsess, hattach⟩
      rw [hnone] at hopen
      cases hopen

/-- A run keeps the property exactly when each of its steps meets the condition. -/
theorem attachAuthorised_exec {as : List Action} (h : Transition.exec (step c) s as = some t) :
    AttachAuthorised t ↔ AttachAuthorised s ∧ Transition.AllOk (step c) (AttachOk c) s as := by
  induction as generalizing s with
  | nil =>
    obtain rfl := Option.some.inj h
    exact ⟨fun ht => ⟨ht, trivial⟩, fun ht => ht.1⟩
  | cons a as ih =>
    obtain ⟨s', hstep, hrest⟩ := Option.bind_eq_some_iff.mp h
    rw [ih hrest, attachAuthorised_step hstep]
    constructor
    · rintro ⟨⟨hs, hok⟩, hall⟩
      refine ⟨hs, hok, fun u hu => ?_⟩
      obtain rfl := Option.some.inj (hstep.symm.trans hu)
      exact hall
    · rintro ⟨hs, hok, hall⟩
      exact ⟨⟨hs, hok⟩, hall s' hstep⟩

def account (id : String) : User := { id, type := nd.typeUser }

/-- An asset that the account `u1` owns; there are no grants. -/
def ownedAsset : Asset :=
  { id := "a1", name := "orders", protocol := nd.mariaDB, accountType := "custom",
    username := "app", password := "x6aTQ4WL1LrtU7cNPZU7Dw==", owner := "u1", active := true,
    encrypted := true }

def ownedDatabase : Database := { assets := ⟨[ownedAsset], by simp⟩ }

/-- No gateway is loaded, and the database answers. -/
def network : Network :=
  { gatewayLoaded := false, openSshTunnel := .error "", newNextDBM := .ok (), shell := .ok () }

/-- The account `u1` creates a session, and another account attaches to it. -/
def attachRun (id : String) : List Action :=
  [.create "s1" "10.0.0.9" "a1" nd.native (account "u1"), .attach network (account id) "s1"]

def ownedSession : Session :=
  { id := "s1", assetId := "a1", username := "app", password := "x6aTQ4WL1LrtU7cNPZU7Dw==",
    protocol := nd.mariaDB, status := nd.noConnect, clientIP := "10.0.0.9", mode := nd.native,
    fileSystem := "1", upload := "1", download := "1", delete := "1", rename := "1", edit := "1",
    copy := "1", paste := "1", creator := "u1" }

def createdDatabase : Database := { ownedDatabase with sessions := ⟨[ownedSession], by simp⟩ }

def attachedSession : Session :=
  { ownedSession with connectionId := "s1", status := nd.connecting, reviewed := true }

def attachOpening (id : String) : Opening :=
  { account := account id
    session := { ownedSession with password := "report-pw" }
    db := createdDatabase }

def attachedState (id : String) : State :=
  { db := { ownedDatabase with sessions := ⟨[attachedSession], by simp⟩ }
    opened := [attachOpening id] }

theorem exec_attachRun (id : String) :
    Transition.exec (step reportCipher) { db := ownedDatabase } (attachRun id) =
      some (attachedState id) := by
  rfl

end Editor

end NextDBM
