import NextDBM.Editor.Proofs.AttachProofs
import NextDBM.Sessions.Lifecycle

/-!
# Proofs: disconnected sessions

`step_change` says once what a step can do to a row: it reviews it, updates it by one of the statements of
`Writes`, creates it under a new id, or restarts. Both results are read off it: a disconnected session
has no secrets (`disconnected_blank_of_reaches`), and it stays disconnected in runs whose connects and
attaches do not find it so (`staysDisconnected_of_reaches`).
-/

namespace NextDBM

open Relational

/-! ## New sessions -/

section Create
variable {db db' : Database} {s r : Session}

theorem SessionRepository.mem_of_create (h : SessionRepository.create db s = .ok db') :
    r ∈ db'.sessions ↔ r = s ∨ r ∈ db.sessions := by
  unfold create at h
  split at h
  · next sessions hinsert =>
    obtain rfl := Except.ok.inj h
    exact Table.mem_of_insert hinsert
  · cases h

theorem Session.linkCredential_id (s : Session) (r : Credential) :
    (s.linkCredential r).id = s.id ∧ (s.linkCredential r).status = s.status := by
  unfold Session.linkCredential
  split
  · exact ⟨rfl, rfl⟩
  · exact ⟨rfl, rfl⟩

/-- A session of the web editor is stored under its id, without a connection. -/
theorem SessionService.create_ok {uuid clientIp assetId mode : String} {user : User}
    (h : SessionService.create db uuid clientIp assetId mode user = .ok (db', s)) :
    s.id = uuid ∧ s.status = nd.noConnect ∧ SessionRepository.create db s = .ok db' := by
  unfold SessionService.create at h
  obtain ⟨asset, -, h⟩ := bind_eq_ok.mp h
  obtain ⟨strategy, -, h⟩ := bind_eq_ok.mp h
  obtain ⟨⟨fileSystem, storageId⟩, -, h⟩ := bind_eq_ok.mp h
  simp only at h
  obtain ⟨s₁, hs₁, h⟩ := bind_eq_ok.mp h
  obtain ⟨db₁, hdb₁, h⟩ := bind_eq_ok.mp h
  obtain ⟨rfl, rfl⟩ := Prod.mk.inj (Except.ok.inj h)
  unfold SessionService.linkAccount at hs₁
  split at hs₁
  · obtain ⟨r, -, hs₁⟩ := bind_eq_ok.mp hs₁
    obtain rfl := Except.ok.inj hs₁
    exact ⟨(Session.linkCredential_id _ r).1, (Session.linkCredential_id _ r).2, hdb₁⟩
  · obtain rfl := Except.ok.inj hs₁
    exact ⟨rfl, rfl, hdb₁⟩

/-- A session of the terminal is stored under its id, without a connection. -/
theorem Gui.createSession_ok {uuid clientIp assetId creator : String}
    (h : Gui.createSession db uuid clientIp assetId creator = .ok (some (db', s))) :
    s.id = uuid ∧ s.status = nd.noConnect ∧ SessionRepository.create db s = .ok db' := by
  unfold Gui.createSession at h
  obtain ⟨asset, -, h⟩ := bind_eq_ok.mp h
  simp only at h
  split at h
  · split at h
    · cases h
    · next r hr =>
      obtain ⟨db₁, hdb₁, h⟩ := bind_eq_ok.mp h
      obtain ⟨rfl, rfl⟩ := Prod.mk.inj (Option.some.inj (Except.ok.inj h))
      exact ⟨(Session.linkCredential_id _ r).1, (Session.linkCredential_id _ r).2, hdb₁⟩
  · obtain ⟨db₁, hdb₁, h⟩ := bind_eq_ok.mp h
    obtain ⟨rfl, rfl⟩ := Prod.mk.inj (Option.some.inj (Except.ok.inj h))
    exact ⟨rfl, rfl, hdb₁⟩

end Create

namespace Sessions

variable {κ : Type} {c : Cipher} {s t : State κ} {a : Action κ} {db : Database}
  {r r₀ o m : Session} {id : String} {k : κ}

/-! ## Placeholders -/

theorem Placeholder.nonZero {new old : String} (hnew : Placeholder new) (hold : Placeholder old) :
    Placeholder (nonZero new old) := by
  by_cases h : new = ""
  · rw [h, nonZero_empty]
    exact hold
  · rw [nonZero_of_ne h]
    exact hnew

theorem Blank.assign (ho : Blank o) (hr : Blank r) : Blank (SessionRepository.assign o r) :=
  ⟨ho.password.nonZero hr.password, ho.privateKey.nonZero hr.privateKey,
    ho.passphrase.nonZero hr.passphrase⟩

/-- Every secret is the placeholder. -/
structure Dashed (o : Session) : Prop where
  password : o.password = "-"
  privateKey : o.privateKey = "-"
  passphrase : o.passphrase = "-"

theorem Dashed.blank (ho : Dashed o) : Blank o :=
  ⟨.inr ho.password, .inr ho.privateKey, .inr ho.passphrase⟩

/-- Placeholders overwrite whatever was there. -/
theorem Dashed.assign (ho : Dashed o) (r : Session) : Blank (SessionRepository.assign o r) := by
  refine ⟨.inr ?_, .inr ?_, .inr ?_⟩
  · exact (nonZero_of_ne (by rw [ho.password]; decide) _).trans ho.password
  · exact (nonZero_of_ne (by rw [ho.privateKey]; decide) _).trans ho.privateKey
  · exact (nonZero_of_ne (by rw [ho.passphrase]; decide) _).trans ho.passphrase

/-! ## Statements -/

theorem mem_tryUpdate {served : Bool}
    (h : r ∈ (SessionRepository.tryUpdate served db o id).sessions) :
    r ∈ db.sessions ∨
      served = true ∧ ∃ r₀ ∈ db.sessions, r₀.id = id ∧ r = SessionRepository.assign o r₀ := by
  unfold SessionRepository.tryUpdate SessionRepository.updateById at h
  split at h
  · next db' hdb =>
    split at hdb
    · cases hdb
    · obtain rfl := Except.ok.inj hdb
      cases served with
      | false => exact .inl h
      | true =>
        rcases Table.mem_updateById (SessionRepository.assign_id o) h with hr | ⟨r₀, hr₀, hid, heq⟩
        · exact .inl hr
        · exact .inr ⟨rfl, r₀, hr₀, hid, heq.symm⟩
  · exact .inl h

theorem mem_deleteAll {ids : List String}
    (h : r ∈ (ids.foldl SessionRepository.deleteById db).sessions) : r ∈ db.sessions := by
  induction ids generalizing db with
  | nil => exact h
  | cons id ids ih => exact (Table.mem_deleteWhere.mp (ih h)).1

/-- What the start of the server does to a row: its status is kept or becomes `disconnected`. -/
theorem mem_fixSessionState {served : String → Bool}
    (h : r ∈ (SessionService.fixSessionState served db).sessions) :
    ∃ r₀ ∈ db.sessions, r.id = r₀.id ∧ (r.status = r₀.status ∨ r.status = nd.disconnected) := by
  unfold SessionService.fixSessionState at h
  generalize (db.sessions.select fun s => s.status == nd.connected) = rows at h
  induction rows generalizing db with
  | nil => exact ⟨r, h, rfl, .inl rfl⟩
  | cons x rows ih =>
    obtain ⟨r₁, hr₁, hid, hstatus⟩ := ih h
    rcases mem_tryUpdate hr₁ with hr₁ | ⟨-, r₀, hr₀, -, rfl⟩
    · exact ⟨r₁, hr₁, hid, hstatus⟩
    · refine ⟨r₀, hr₀, hid, .inr ?_⟩
      have hfixed : (SessionRepository.assign { status := nd.disconnected } r₀).status =
          nd.disconnected := rfl
      rcases hstatus with hstatus | hstatus
      · exact hstatus.trans hfixed
      · exact hstatus

theorem mem_emptyPassword (h : r ∈ (SessionRepository.emptyPassword db).sessions) :
    ∃ r₀ ∈ db.sessions, r.id = r₀.id ∧ r.status = r₀.status ∧ Blank r := by
  have hmodify : r ∈ db.sessions.modify SessionRepository.empty SessionRepository.empty_id := h
  obtain ⟨r₀, hr₀, rfl⟩ := Table.mem_modify.mp hmodify
  exact ⟨r₀, hr₀, rfl, rfl, .inr rfl, .inr rfl, .inr rfl⟩

theorem mem_updateReadByIds {reviewed : Bool} {ids : List String}
    (h : r ∈ (SessionRepository.updateReadByIds db reviewed ids).sessions) :
    ∃ r₀ ∈ db.sessions, ∃ reviewed, r = { r₀ with reviewed } := by
  have hmodify : r ∈ db.sessions.modify (SessionRepository.setReviewed reviewed ids)
      (SessionRepository.setReviewed_id reviewed ids) := h
  obtain ⟨r₀, hr₀, rfl⟩ := Table.mem_modify.mp hmodify
  exact ⟨r₀, hr₀, _, rfl⟩

/-! ## What a step can do -/

/-- The session that a handler of the proxy has in memory. -/
def Handler.session? : Handler → Option Session
  | .accepted m => some m
  | .serving m => some m
  | .ended m => some m
  | _ => none

/-- What `DisDBSess` writes. -/
def closedSession (reason : String) : Session :=
  { status := nd.disconnected, message := reason, password := "-", privateKey := "-",
    passphrase := "-" }

/-- The update of a row that a step makes. -/
inductive Writes (s : State κ) : Action κ → String → Session → Prop
  | connect {id : String} : Writes s (.connect id true) id { status := nd.connected }
  | attach {k : κ} {id : String} {guacamole : Option (String × Bool)}
      (h : s.handlers k = .attaching id) :
      Writes s (.attachConnecting k guacamole true) id (attachedSession id guacamole)
  | terminal {k : κ} {id : String} (h : s.handlers k = .opening id) :
      Writes s (.terminalConnected k true) id { status := nd.connected, reviewed := true }
  | proxyConnected {k : κ} {m : Session} {assetId creator username accessGatewayId : String}
      (h : s.handlers k = .accepted m) :
      Writes s (.proxyConnected k assetId creator username accessGatewayId true) m.id
        (connectedSession m assetId creator username accessGatewayId)
  | proxyEnded {k : κ} {m : Session} {a : Action κ} {message : String}
      (h : (s.handlers k).session? = some m) : Writes s a m.id (endedSession m message)
  | close {id reason : String} : Writes s (.closeWrite true) id (closedSession reason)

theorem proxySession_blank (uuid remoteAddr : String) (port : Int) :
    Blank (proxySession uuid remoteAddr port) := ⟨.inr rfl, .inl rfl, .inl rfl⟩

theorem connectedSession_dashed (m : Session) (assetId creator username accessGatewayId : String) :
    Dashed (connectedSession m assetId creator username accessGatewayId) := ⟨rfl, rfl, rfl⟩

theorem Blank.ended (h : Blank m) (message : String) : Blank (endedSession m message) :=
  ⟨h.password, h.privateKey, h.passphrase⟩

/-- What a step leaves in place of the rows: a row is reviewed, updated, created, or restarted with. -/
def Rows (s : State κ) (a : Action κ) (t : State κ) (r : Session) : Prop :=
  (∃ r₀ ∈ s.db.sessions, ∃ reviewed, r = { r₀ with reviewed }) ∨
  (∃ r₀ ∈ s.db.sessions, ∃ o, Writes s a r₀.id o ∧ r = SessionRepository.assign o r₀) ∨
  (r.id ∉ s.drawn ∧ r.id ∈ t.drawn ∧ r.status ≠ nd.disconnected) ∨
  (∃ r₀ ∈ s.db.sessions, r.id = r₀.id ∧ Blank r ∧
    (r.status = r₀.status ∨ r.status = nd.disconnected))

theorem Rows.same (h : r ∈ s.db.sessions) : Rows s a t r := .inl ⟨r, h, r.reviewed, rfl⟩

theorem Rows.update {served : Bool} (hw : served = true → Writes s a id o)
    (hr : r ∈ (SessionRepository.tryUpdate served s.db o id).sessions) : Rows s a t r := by
  rcases mem_tryUpdate hr with hr | ⟨hserved, r₀, hr₀, rfl, heq⟩
  · exact .same hr
  · exact .inr (.inl ⟨r₀, hr₀, o, hw hserved, heq⟩)

theorem Rows.insert (hcreate : SessionRepository.create s.db o = .ok db) (hnew : o.id ∉ s.drawn)
    (hdrawn : o.id ∈ t.drawn) (hstatus : o.status ≠ nd.disconnected) (hr : r ∈ db.sessions) :
    Rows s a t r := by
  rcases (SessionRepository.mem_of_create hcreate).mp hr with rfl | hr
  · exact .inr (.inr (.inl ⟨hnew, hdrawn, hstatus⟩))
  · exact .same hr

theorem mem_closeWrite {closing : Closing} {served : Bool}
    (hr : r ∈ (closeWrite db closing served).sessions) :
    r ∈ db.sessions ∨ served = true ∧ ∃ r₀ ∈ db.sessions, r₀.id = closing.sessionId ∧
      r = SessionRepository.assign (closedSession closing.reason) r₀ := by
  unfold closeWrite SessionService.disconnect at hr
  split at hr
  · exact .inl hr
  · split at hr
    · exact .inl hr
    · next db' hdb =>
      cases served with
      | false => exact .inl hr
      | true =>
        split at hdb
        · obtain rfl := Except.ok.inj hdb
          exact .inl hr
        · split at hdb
          · obtain rfl := Except.ok.inj hdb
            exact .inl (Table.mem_deleteWhere.mp hr).1
          · have hupdate : r ∈ (SessionRepository.tryUpdate true db (closedSession closing.reason)
                closing.sessionId).sessions := by
              unfold SessionRepository.tryUpdate
              rw [closedSession, hdb]
              exact hr
            exact mem_tryUpdate hupdate

/-- A session that the proxy has in memory after a step was there before, or is a new one. -/
def Held (s t : State κ) (k : κ) (m : Session) : Prop :=
  (∃ m₀, (s.handlers k).session? = some m₀ ∧ m.id = m₀.id ∧ (Blank m₀ → Blank m)) ∨
  (m.id ∉ s.drawn ∧ m.id ∈ t.drawn ∧ Blank m ∧ ∀ r ∈ t.db.sessions, r ∈ s.db.sessions ∨ Blank r)

theorem Held.same (h : (s.handlers k).session? = some m) : Held s t k m := .inl ⟨m, h, rfl, id⟩

/-- What the updates write: placeholders, or what the proxy has in memory. -/
theorem Writes.blank (hw : Writes s a id o)
    (hheld : ∀ k m, (s.handlers k).session? = some m → Blank m) : Blank o := by
  cases hw with
  | connect => exact ⟨.inl rfl, .inl rfl, .inl rfl⟩
  | attach h =>
    rename_i k guacamole
    cases guacamole with
    | none => exact ⟨.inl rfl, .inl rfl, .inl rfl⟩
    | some x => exact ⟨.inl rfl, .inl rfl, .inl rfl⟩
  | terminal h => exact ⟨.inl rfl, .inl rfl, .inl rfl⟩
  | proxyConnected h => exact (connectedSession_dashed ..).blank
  | proxyEnded h => exact (hheld _ _ h).ended _
  | close => exact ⟨.inr rfl, .inr rfl, .inr rfl⟩

/-- The status that is written: `disconnected` overwrites the secrets or is the proxy's, and any other one
meets the condition on the step. -/
theorem Writes.status (hw : Writes s a id o) :
    (o.status = nd.disconnected ∧ (Dashed o ∨ ∃ k m, (s.handlers k).session? = some m ∧ m.id = id)) ∨
    (o.status ≠ "" ∧ o.status ≠ nd.disconnected ∧ (StepOk s a → NotDisconnected s.db id)) := by
  have hconnected : nd.connected ≠ "" ∧ nd.connected ≠ nd.disconnected := by decide
  have hconnecting : nd.connecting ≠ "" ∧ nd.connecting ≠ nd.disconnected := by decide
  cases hw with
  | connect => exact .inr ⟨hconnected.1, hconnected.2, fun hok => hok rfl⟩
  | attach h =>
    rename_i k guacamole
    cases guacamole with
    | none => exact .inr ⟨hconnecting.1, hconnecting.2, fun hok => hok rfl _ h⟩
    | some x => exact .inr ⟨hconnecting.1, hconnecting.2, fun hok => hok rfl _ h⟩
  | terminal h => exact .inr ⟨hconnected.1, hconnected.2, fun hok => hok rfl _ h⟩
  | proxyConnected h => exact .inr ⟨hconnected.1, hconnected.2, fun hok => hok rfl _ h⟩
  | proxyEnded h => exact .inl ⟨rfl, .inr ⟨_, _, h, rfl⟩⟩
  | close => exact .inl ⟨rfl, .inl ⟨rfl, rfl, rfl⟩⟩

/-- What a step changes: the rows, the sessions in memory, and the drawn ids. -/
structure Change (s : State κ) (a : Action κ) (t : State κ) : Prop where
  rows : ∀ r ∈ t.db.sessions, Rows s a t r
  held : ∀ k m, (t.handlers k).session? = some m → Held s t k m
  drawn : ∀ id ∈ s.drawn, id ∈ t.drawn

theorem noConnect_ne_disconnected : nd.noConnect ≠ nd.disconnected := by decide

theorem mem_drawn_cons (uuid : String) : ∀ id ∈ s.drawn, id ∈ uuid :: s.drawn :=
  fun _ hid => List.mem_cons_of_mem uuid hid

/-- A step that changes neither the rows nor the sessions in memory. -/
theorem Change.same (hdb : t.db.sessions = s.db.sessions) (hhandlers : t.handlers = s.handlers)
    (hdrawn : ∀ id ∈ s.drawn, id ∈ t.drawn) : Change s a t :=
  ⟨fun _ hr => .same (hdb ▸ hr), fun _ _ hm => .same (hhandlers ▸ hm), hdrawn⟩

/-! ## Steps -/

section Steps
variable [DecidableEq κ]

/-- The sessions in memory after one handler has moved. -/
theorem held_put {h : Handler} {k' : κ} (hm : ((s.put k h).handlers k').session? = some m) :
    k' = k ∧ h.session? = some m ∨ (s.handlers k').session? = some m := by
  have hupdate : (Function.update s.handlers k h k').session? = some m := hm
  by_cases hk : k' = k
  · subst hk
    rw [Function.update_self] at hupdate
    exact .inl ⟨rfl, hupdate⟩
  · rw [Function.update_of_ne hk] at hupdate
    exact .inr hupdate

/-- A handler that has no session in memory any more. -/
theorem Held.idle {k' : κ} {h : Handler} (hnone : h.session? = none)
    (hm : ((s.put k' h).handlers k).session? = some m) : Held s t k m := by
  rcases held_put hm with ⟨-, hh⟩ | hm
  · rw [hnone] at hh
    cases hh
  · exact .same hm

/-- A handler whose session changes in memory. -/
theorem Held.change {k' : κ} {h h' : Handler} {m₀ m₁ : Session}
    (hm : ((s.put k' h').handlers k).session? = some m) (h₁ : h'.session? = some m₁)
    (hk : s.handlers k' = h) (h₀ : h.session? = some m₀) (hid : m₁.id = m₀.id)
    (hblank : Blank m₀ → Blank m₁) : Held s t k m := by
  rcases held_put hm with ⟨rfl, hh⟩ | hm
  · obtain rfl := Option.some.inj (h₁.symm.trans hh)
    exact .inl ⟨m₀, by rw [hk]; exact h₀, hid, hblank⟩
  · exact .same hm

/-- A step after which a handler has no session in memory. -/
theorem Change.idle {k : κ} {h : Handler} (hnone : h.session? = none) : Change s a (s.put k h) :=
  ⟨fun _ hr => .same hr, fun _ _ hm => .idle hnone hm, fun _ hid => hid⟩

/-- A step that updates a row and leaves its handler idle. -/
theorem Change.updateIdle {k : κ} {served : Bool} (hw : served = true → Writes s a id o) :
    Change s a { s.put k .idle with db := SessionRepository.tryUpdate served s.db o id } :=
  ⟨fun _ => .update hw, fun _ _ hm => .idle rfl hm, fun _ hid => hid⟩

theorem change_create {uuid clientIp assetId mode : String} {user : User}
    (h : step c s (.create uuid clientIp assetId mode user) = some t) :
    Change s (.create uuid clientIp assetId mode user) t := by
  dsimp only [step] at h
  split at h
  · cases h
  · next hnew =>
    split at h
    · next db x hcreate =>
      obtain rfl := Option.some.inj h
      obtain ⟨rfl, hstatus, hinsert⟩ := SessionService.create_ok hcreate
      exact ⟨fun r => .insert hinsert hnew List.mem_cons_self (hstatus ▸ noConnect_ne_disconnected),
        fun k m hm => .same hm, mem_drawn_cons _⟩
    · obtain rfl := Option.some.inj h
      exact .same rfl rfl (mem_drawn_cons _)

theorem change_terminalCreate {k : κ} {uuid clientIp assetId creator : String}
    (h : step c s (.terminalCreate k uuid clientIp assetId creator) = some t) :
    Change s (.terminalCreate k uuid clientIp assetId creator) t := by
  dsimp only [step] at h
  split at h
  · split at h
    · cases h
    · next hnew =>
      split at h
      · next db x hcreate =>
        obtain rfl := Option.some.inj h
        obtain ⟨rfl, hstatus, hinsert⟩ := Gui.createSession_ok hcreate
        exact ⟨fun r => .insert hinsert hnew List.mem_cons_self (hstatus ▸ noConnect_ne_disconnected),
          fun k m hm => .idle rfl hm, mem_drawn_cons _⟩
      · obtain rfl := Option.some.inj h
        exact .same rfl rfl (mem_drawn_cons _)
  · cases h

theorem change_terminalRead {k : κ} (h : step c s (.terminalRead k) = some t) :
    Change s (.terminalRead k) t := by
  dsimp only [step] at h
  split at h
  · split at h
    · obtain rfl := Option.some.inj h
      exact .idle rfl
    · obtain rfl := Option.some.inj h
      exact .idle rfl
  · cases h

theorem change_terminalConnected {k : κ} {served : Bool}
    (h : step c s (.terminalConnected k served) = some t) :
    Change s (.terminalConnected k served) t := by
  dsimp only [step] at h
  split at h
  · next id hk =>
    obtain rfl := Option.some.inj h
    exact .updateIdle fun hserved => hserved ▸ .terminal hk
  · cases h

theorem change_attachRead {k : κ} {sessionId : String}
    (h : step c s (.attachRead k sessionId) = some t) :
    Change s (.attachRead k sessionId) t := by
  dsimp only [step] at h
  split at h
  · split at h
    · obtain rfl := Option.some.inj h
      exact .idle rfl
    · obtain rfl := Option.some.inj h
      exact .same rfl rfl fun _ hid => hid
  · cases h

theorem change_attachConnecting {k : κ} {guacamole : Option (String × Bool)} {served : Bool}
    (h : step c s (.attachConnecting k guacamole served) = some t) :
    Change s (.attachConnecting k guacamole served) t := by
  dsimp only [step] at h
  split at h
  · next id hk =>
    obtain rfl := Option.some.inj h
    exact .updateIdle fun hserved => hserved ▸ .attach hk
  · cases h

theorem change_abort {k : κ} (h : step c s (.abort k) = some t) :
    Change s (.abort k) t := by
  dsimp only [step] at h
  split at h
  · obtain rfl := Option.some.inj h
    exact .idle rfl
  · obtain rfl := Option.some.inj h
    exact .idle rfl
  · obtain rfl := Option.some.inj h
    exact .idle rfl
  · cases h

theorem change_proxyAccept {k : κ} {uuid remoteAddr : String} {port : Int}
    (h : step c s (.proxyAccept k uuid remoteAddr port) = some t) :
    Change s (.proxyAccept k uuid remoteAddr port) t := by
  dsimp only [step] at h
  split at h
  · split at h
    · cases h
    · next hnew =>
      split at h
      · next db hcreate =>
        obtain rfl := Option.some.inj h
        have hstatus : (proxySession uuid remoteAddr port).status ≠ nd.disconnected := by
          show nd.connecting ≠ nd.disconnected
          decide
        have hblank := proxySession_blank uuid remoteAddr port
        refine ⟨fun r => .insert hcreate hnew List.mem_cons_self hstatus, fun k' m hm => ?_,
          mem_drawn_cons _⟩
        rcases held_put hm with ⟨-, hh⟩ | hm
        · obtain rfl := Option.some.inj hh
          refine .inr ⟨hnew, List.mem_cons_self, hblank, fun r hr => ?_⟩
          rcases (SessionRepository.mem_of_create hcreate).mp hr with rfl | hr
          · exact .inr hblank
          · exact .inl hr
        · exact .same hm
      · obtain rfl := Option.some.inj h
        exact .same rfl rfl (mem_drawn_cons _)
  · cases h

theorem change_proxyRefuse {k : κ} {assetId creator : String}
    (h : step c s (.proxyRefuse k assetId creator) = some t) :
    Change s (.proxyRefuse k assetId creator) t := by
  dsimp only [step] at h
  split at h
  · next m₀ hk =>
    obtain rfl := Option.some.inj h
    exact ⟨fun r hr => .same hr,
      fun k m hm => .change hm rfl hk rfl rfl
        fun hb => ⟨hb.password, hb.privateKey, hb.passphrase⟩, fun _ hid => hid⟩
  · cases h

theorem change_proxyConnected {k : κ} {assetId creator username accessGatewayId : String}
    {served : Bool}
    (h : step c s (.proxyConnected k assetId creator username accessGatewayId served) = some t) :
    Change s (.proxyConnected k assetId creator username accessGatewayId served) t := by
  dsimp only [step] at h
  split at h
  · next m₀ hk =>
    obtain rfl := Option.some.inj h
    have hw (hserved : served = true) :
        Writes s (.proxyConnected k assetId creator username accessGatewayId served) m₀.id
          (connectedSession m₀ assetId creator username accessGatewayId) :=
      hserved ▸ .proxyConnected hk
    exact ⟨fun r => .update hw,
      fun k m hm => .change hm rfl hk rfl rfl fun _ => (connectedSession_dashed m₀ ..).blank,
      fun _ hid => hid⟩
  · cases h

theorem change_proxyClose {k : κ} {served : Bool} (h : step c s (.proxyClose k served) = some t) :
    Change s (.proxyClose k served) t := by
  dsimp only [step] at h
  split at h
  · next m₀ hk =>
    obtain rfl := Option.some.inj h
    have hw : Writes s (.proxyClose k served) m₀.id (endedSession m₀ "远程连接已关闭") :=
      .proxyEnded (by rw [hk]; rfl)
    exact ⟨fun r => .update fun _ => hw,
      fun k m hm => .change hm rfl hk rfl rfl fun hb => hb.ended _, fun _ hid => hid⟩
  · next m₀ hk =>
    obtain rfl := Option.some.inj h
    have hw : Writes s (.proxyClose k served) m₀.id (endedSession m₀ "远程连接已关闭") :=
      .proxyEnded (by rw [hk]; rfl)
    exact ⟨fun r => .update fun _ => hw,
      fun k m hm => .change hm rfl hk rfl rfl fun hb => hb.ended _, fun _ hid => hid⟩
  · cases h

theorem change_proxyEnd {k : κ} {err : Option String} {served : Bool}
    (h : step c s (.proxyEnd k err served) = some t) :
    Change s (.proxyEnd k err served) t := by
  dsimp only [step] at h
  split at h
  · next m₀ hk =>
    split at h
    · obtain rfl := Option.some.inj h
      exact .idle rfl
    · obtain rfl := Option.some.inj h
      exact .updateIdle fun _ => .proxyEnded (by rw [hk]; rfl)
  · cases h

theorem change_closeWrite {served : Bool} (h : step c s (.closeWrite served) = some t) :
    Change s (.closeWrite served) t := by
  dsimp only [step] at h
  split at h
  · cases h
  · next closing hclosing =>
    obtain rfl := Option.some.inj h
    refine ⟨fun r hr => ?_, fun k m hm => .same hm, fun _ hid => hid⟩
    rcases mem_closeWrite hr with hr | ⟨hserved, r₀, hr₀, -, heq⟩
    · exact .same hr
    · exact .inr (.inl ⟨r₀, hr₀, _, hserved ▸ .close, heq⟩)

theorem change_restart {served : String → Bool} (h : step c s (.restart served) = some t) :
    Change s (.restart served) t := by
  obtain rfl := Option.some.inj h
  refine ⟨fun r hr => ?_, fun k m hm => (by cases hm), fun _ hid => hid⟩
  obtain ⟨r₁, hr₁, hid₁, hstatus₁, hblank⟩ := mem_emptyPassword hr
  obtain ⟨r₀, hr₀, hid, hstatus⟩ := mem_fixSessionState hr₁
  rw [← hid₁] at hid
  rw [← hstatus₁] at hstatus
  exact .inr (.inr (.inr ⟨r₀, hr₀, hid, hblank, hstatus⟩))

/-- **What a step can do.** -/
theorem step_change (h : step c s a = some t) : Change s a t := by
  cases a with
  | create _ _ _ _ _ => exact change_create h
  | terminalCreate _ _ _ _ _ => exact change_terminalCreate h
  | terminalRead _ => exact change_terminalRead h
  | terminalConnected _ _ => exact change_terminalConnected h
  | attachRead _ _ => exact change_attachRead h
  | attachConnecting _ _ _ => exact change_attachConnecting h
  | abort _ => exact change_abort h
  | proxyAccept _ _ _ _ => exact change_proxyAccept h
  | proxyRefuse _ _ _ => exact change_proxyRefuse h
  | proxyConnected _ _ _ _ _ _ => exact change_proxyConnected h
  | proxyClose _ _ => exact change_proxyClose h
  | proxyEnd _ _ _ => exact change_proxyEnd h
  | connect sessionId served =>
    obtain rfl := Option.some.inj h
    exact ⟨fun r => .update fun hserved => hserved ▸ .connect, fun k m hm => .same hm,
      fun _ hid => hid⟩
  | close sessionId reason =>
    dsimp only [step] at h
    split at h
    · cases h
    · obtain rfl := Option.some.inj h
      exact .same rfl rfl fun _ hid => hid
  | closeWrite _ => exact change_closeWrite h
  | delete ids =>
    obtain rfl := Option.some.inj h
    exact ⟨fun r hr => .same (mem_deleteAll hr), fun k m hm => .same hm, fun _ hid => hid⟩
  | review reviewed ids =>
    obtain rfl := Option.some.inj h
    exact ⟨fun r hr => .inl (mem_updateReadByIds hr), fun k m hm => .same hm, fun _ hid => hid⟩
  | restart _ => exact change_restart h
  | others db =>
    obtain rfl := Option.some.inj h
    exact .same rfl rfl fun _ hid => hid

end Steps

/-! ## Invariants -/

/-- The invariant of the secrets: disconnected rows have none, nor have the sessions of the proxy, in
memory and in the table. -/
structure Kept (s : State κ) : Prop where
  drawn : ∀ r ∈ s.db.sessions, r.id ∈ s.drawn
  blank : ∀ r ∈ s.db.sessions, r.status = nd.disconnected → Blank r
  held : ∀ k m, (s.handlers k).session? = some m →
    m.id ∈ s.drawn ∧ Blank m ∧ ∀ r ∈ s.db.sessions, r.id = m.id → Blank r

theorem Kept.init (db : Database) : Kept (init db : State κ) :=
  ⟨fun r hr => absurd hr List.not_mem_nil, fun r hr => absurd hr List.not_mem_nil,
    fun k m hm => by cases hm⟩

/-- A blank row stays blank. -/
theorem Kept.blank_row (hs : Kept s) (hr : Rows s a t r) (hid : r.id = id) (hdrawn : id ∈ s.drawn)
    (hold : ∀ r ∈ s.db.sessions, r.id = id → Blank r) : Blank r := by
  rcases hr with ⟨r₀, hr₀, reviewed, rfl⟩ | ⟨r₀, hr₀, o, hw, rfl⟩ | ⟨hnew, -, -⟩ | ⟨r₀, -, -, hb, -⟩
  · have hb := hold r₀ hr₀ hid
    exact ⟨hb.password, hb.privateKey, hb.passphrase⟩
  · exact (hw.blank fun k m hm => (hs.held k m hm).2.1).assign (hold r₀ hr₀ hid)
  · rw [hid] at hnew
    exact absurd hdrawn hnew
  · exact hb

theorem Rows.drawn (hs : ∀ r ∈ s.db.sessions, r.id ∈ s.drawn) (hkeep : ∀ id ∈ s.drawn, id ∈ t.drawn)
    (hr : Rows s a t r) : r.id ∈ t.drawn := by
  rcases hr with ⟨r₀, hr₀, reviewed, rfl⟩ | ⟨r₀, hr₀, o, hw, rfl⟩ | ⟨-, hdrawn, -⟩ | ⟨r₀, hr₀, hid, -⟩
  · exact hkeep _ (hs r₀ hr₀)
  · exact hkeep _ (hs r₀ hr₀)
  · exact hdrawn
  · exact hid ▸ hkeep _ (hs r₀ hr₀)

section Runs
variable [DecidableEq κ]

/-- **Step lemma** of the secrets. -/
theorem Kept.step (hs : Kept s) (h : step c s a = some t) : Kept t := by
  obtain ⟨hrows, hheld, hkeep⟩ := step_change h
  refine ⟨fun r hr => (hrows r hr).drawn hs.drawn hkeep, fun r hr hd => ?_, fun k m hm => ?_⟩
  · rcases hrows r hr with ⟨r₀, hr₀, reviewed, rfl⟩ | ⟨r₀, hr₀, o, hw, rfl⟩ | ⟨-, -, hne⟩ |
      ⟨r₀, -, -, hb, -⟩
    · have hb := hs.blank r₀ hr₀ hd
      exact ⟨hb.password, hb.privateKey, hb.passphrase⟩
    · rcases hw.status with ⟨-, hdashed | ⟨k, m, hm, hid⟩⟩ | ⟨hne, hnot, -⟩
      · exact hdashed.assign r₀
      · obtain ⟨-, -, hblank⟩ := hs.held k m hm
        exact (hw.blank fun k m hm => (hs.held k m hm).2.1).assign (hblank r₀ hr₀ hid.symm)
      · have hstatus : (SessionRepository.assign o r₀).status = o.status := nonZero_of_ne hne _
        exact absurd (hstatus.symm.trans hd) hnot
    · exact absurd hd hne
    · exact hb
  · rcases hheld k m hm with ⟨m₀, hm₀, hid, hblank⟩ | ⟨hnew, hdrawn, hblank, hrows'⟩
    · obtain ⟨hdrawn, hb, hall⟩ := hs.held k m₀ hm₀
      refine ⟨hid ▸ hkeep _ hdrawn, hblank hb, fun r hr hrid => ?_⟩
      exact hs.blank_row (hrows r hr) (hrid.trans hid) hdrawn hall
    · refine ⟨hdrawn, hblank, fun r hr hrid => ?_⟩
      rcases hrows' r hr with hr | hr
      · exact absurd (hrid ▸ hs.drawn r hr) hnew
      · exact hr

/-- **Closed sessions keep no secrets.** -/
theorem disconnected_blank_of_reaches {db : Database}
    (hs : Transition.Reaches (step c) Transition.Any (init db) s) :
    ∀ r ∈ s.db.sessions, r.status = nd.disconnected → Blank r := by
  have hkept : Kept s :=
    Transition.Reaches.invariant (fun s a t hs _ h => hs.step h) hs (Kept.init db)
  exact hkept.blank

/-- Nothing but a disconnected session has this id. -/
structure Ended (s : State κ) (id : String) : Prop where
  drawn : id ∈ s.drawn
  status : ∀ r ∈ s.db.sessions, r.id = id → r.status = nd.disconnected

/-- **Step lemma** of the status. -/
theorem Ended.step (hs : Ended s id) (hok : StepOk s a) (h : step c s a = some t) : Ended t id := by
  obtain ⟨hrows, -, hkeep⟩ := step_change h
  refine ⟨hkeep id hs.drawn, fun r hr hid => ?_⟩
  rcases hrows r hr with ⟨r₀, hr₀, reviewed, rfl⟩ | ⟨r₀, hr₀, o, hw, rfl⟩ | ⟨hnew, -, -⟩ |
    ⟨r₀, hr₀, hid₀, -, hstatus⟩
  · exact hs.status r₀ hr₀ hid
  · have hold := hs.status r₀ hr₀ hid
    rcases hw.status with ⟨hd, -⟩ | ⟨-, -, hnot⟩
    · have hne : o.status ≠ "" := by
        rw [hd]
        decide
      exact (nonZero_of_ne hne _).trans hd
    · exact absurd hold (hnot hok r₀ hr₀ rfl)
  · rw [hid] at hnew
    exact absurd hs.drawn hnew
  · rcases hstatus with hstatus | hstatus
    · exact hstatus.trans (hs.status r₀ hr₀ (hid₀.symm.trans hid))
    · exact hstatus

/-- **A disconnected session is never connecting or connected again**, in a run whose writes of these
statuses do not find their session disconnected. -/
theorem staysDisconnected_of_reaches {db : Database}
    (hs : Transition.Reaches (step c) Transition.Any (init db) s)
    (ht : Transition.Reaches (step c) StepOk s t) (hr : r ∈ s.db.sessions)
    (hd : r.status = nd.disconnected) :
    ∀ r' ∈ t.db.sessions, r'.id = r.id → r'.status ≠ nd.connecting ∧ r'.status ≠ nd.connected := by
  have hkept : Kept s :=
    Transition.Reaches.invariant (fun s a t hs _ h => hs.step h) hs (Kept.init db)
  have hended : Ended s r.id := by
    refine ⟨hkept.drawn r hr, fun r' hr' hid => ?_⟩
    rw [Table.eq_of_key hr' hr hid]
    exact hd
  have hended' : Ended t r.id :=
    Transition.Reaches.invariant (I := fun s => Ended s r.id)
      (fun s a t hs hok h => hs.step hok h) ht hended
  intro r' hr' hid
  rw [hended'.status r' hr' hid]
  decide

end Runs

/-! ## A session that is closed -/

open Editor (account ownedAsset ownedDatabase ownedSession)

/-- A session of the web editor with a secret is connected, and closed. -/
def closedRun : List (Action Unit) :=
  [.create "s1" "10.0.0.9" "a1" nd.native (account "u1"), .connect "s1" true, .close "s1" "bye",
    .closeWrite true]

def disconnectedSession : Session :=
  { ownedSession with
    status := nd.disconnected, message := "bye", password := "-", privateKey := "-",
    passphrase := "-" }

def closedState : State Unit :=
  { db := { ownedDatabase with sessions := ⟨[disconnectedSession], by simp⟩ }, drawn := ["s1"] }

theorem reaches_closedState :
    Transition.Reaches (step reportCipher) Transition.Any (init ownedDatabase) closedState := by
  have hexec : Transition.exec (step reportCipher) (init ownedDatabase) closedRun =
      some closedState := rfl
  exact Transition.reaches_of_exec hexec (Transition.allOk_any _ _)

theorem disconnected_blank_closedState :
    disconnectedSession ∈ closedState.db.sessions ∧ Blank disconnectedSession :=
  ⟨List.mem_cons_self,
    disconnected_blank_of_reaches reaches_closedState _ List.mem_cons_self rfl⟩

/-- An attach to the closed session that does not get through. -/
def attachingState : State Unit := closedState.put () (.attaching "s1")

theorem staysDisconnected_attachingState :
    disconnectedSession ∈ attachingState.db.sessions ∧
      disconnectedSession.status ≠ nd.connecting ∧ disconnectedSession.status ≠ nd.connected :=
  have hattach : Transition.Reaches (step reportCipher) StepOk closedState attachingState :=
    .head (a := .attachRead () "s1") trivial rfl (.refl _)
  ⟨List.mem_cons_self,
    staysDisconnected_of_reaches (r := disconnectedSession) reaches_closedState hattach
      List.mem_cons_self rfl _ List.mem_cons_self rfl⟩

/-- The browser reports the connection of a session that has been closed. -/
theorem not_staysDisconnected_connect :
    ¬ ∀ (c : Cipher) (db : Database) (s t : State Unit) (r : Session),
      Transition.Reaches (step c) Transition.Any (init db) s →
      Transition.Reaches (step c) Transition.Any s t → r ∈ s.db.sessions →
      r.status = nd.disconnected →
      ∀ r' ∈ t.db.sessions, r'.id = r.id → r'.status ≠ nd.connecting ∧ r'.status ≠ nd.connected := by
  intro h
  have hconnect : Transition.Reaches (step reportCipher) Transition.Any closedState
      { closedState with
        db := { ownedDatabase with
          sessions := ⟨[{ disconnectedSession with status := nd.connected }], by simp⟩ } } :=
    .head (a := .connect "s1" true) trivial rfl (.refl _)
  have hnot := h _ _ _ _ disconnectedSession reaches_closedState hconnect List.mem_cons_self rfl _
    List.mem_cons_self rfl
  exact hnot.2 rfl

end Sessions

end NextDBM
