import NextDBM.Gateways.Tunnels

/-!
# Who closes a tunnel

The part of the invariant that speaks of the gateway alone, and what each half of the two functions does
to it. The rest says that what a caller holds is in the map, under an id that no other caller holds.
-/

namespace NextDBM

open Relational

namespace Gateway

variable {w w' : GatewayWorld} {answers : OpenAnswers} {id ip : String} {port : Int} {t : Tunnel}
  {e : Error}

/-- What holds of a gateway and what is open around it. -/
structure Sound (w : GatewayWorld) : Prop where
  listeners : ∀ l, l ∈ w.listeners ↔ ∃ t ∈ w.gateway.tunnels, t.listener = l
  fresh : ∀ l ∈ w.listeners, l < w.next
  distinct : ∀ t ∈ w.gateway.tunnels, ∀ t' ∈ w.gateway.tunnels, t.listener = t'.listener → t = t'
  client : ∀ t ∈ w.gateway.tunnels, w.gateway.connected = true ∧ w.gateway.sshClient = some t.client
  connected : w.gateway.connected = true → ∃ c ∈ w.clients, w.gateway.sshClient = some c

namespace Sound

/-- A tunnel in the map is open, with its client. -/
theorem isOpen (h : Sound w) (ht : t ∈ w.gateway.tunnels) :
    t.listener ∈ w.listeners ∧ t.client ∈ w.clients := by
  refine ⟨(h.listeners _).mpr ⟨t, ht, rfl⟩, ?_⟩
  obtain ⟨hconnected, hclient⟩ := h.client t ht
  obtain ⟨c, hc, hsome⟩ := h.connected hconnected
  rw [hclient] at hsome
  rw [Option.some.inj hsome]
  exact hc

/-- What `connect` keeps, and what a success gives. -/
theorem connect (h : Sound w) {r : Except Error Unit} (hrun : Gateway.connect w answers = (r, w')) :
    Sound w' ∧ w'.gateway.tunnels = w.gateway.tunnels ∧
      (r = .ok () → w'.gateway.connected = true ∧
        (w.gateway.connected = true ∨ answers.newSshClient.isOk = true)) := by
  unfold Gateway.connect at hrun
  by_cases hconnected : w.gateway.connected = true
  · rw [if_pos hconnected] at hrun
    obtain ⟨rfl, rfl⟩ := Prod.mk.inj hrun
    exact ⟨h, rfl, fun _ => ⟨hconnected, .inl hconnected⟩⟩
  -- without a connection there are no tunnels
  have hnone : ∀ t ∈ w.gateway.tunnels, False := fun t ht => hconnected (h.client t ht).1
  rw [if_neg hconnected] at hrun
  split at hrun
  · next err herr =>
    obtain ⟨rfl, rfl⟩ := Prod.mk.inj hrun
    refine ⟨?_, rfl, fun hok => (by cases hok)⟩
    exact
      { listeners := h.listeners
        fresh := h.fresh
        distinct := h.distinct
        client := fun t ht => (hnone t ht).elim
        connected := fun hfalse => (by cases hfalse) }
  · next hnew =>
    obtain ⟨rfl, rfl⟩ := Prod.mk.inj hrun
    refine ⟨?_, rfl, fun _ => ⟨rfl, .inr (by rw [hnew]; rfl)⟩⟩
    exact
      { listeners := h.listeners
        fresh := fun l hl => Nat.lt_succ_of_lt (h.fresh l hl)
        distinct := h.distinct
        client := fun t ht => (hnone t ht).elim
        connected := fun _ => ⟨w.next, List.mem_cons_self, rfl⟩ }

/-- A new tunnel under a free id. -/
theorem listen (h : Sound w) (hconnected : w.gateway.connected = true)
    (hrun : Gateway.listen w answers id ip port = (.ok t, w'))
    (hfree : ∀ t ∈ w.gateway.tunnels, t.id ≠ id) :
    Sound w' ∧ t.id = id ∧
      ∀ t', t' ∈ w'.gateway.tunnels ↔ t' = t ∨ t' ∈ w.gateway.tunnels := by
  unfold Gateway.listen at hrun
  split at hrun
  · cases hrun
  next localPort hostname hanswers =>
  obtain ⟨ht, hw⟩ := Prod.mk.inj hrun
  have ht := Except.ok.inj ht
  have hid : t.id = id := by rw [← ht]
  have hlistener : t.listener = w.next := by rw [← ht]
  have hclient : t.client = w.gateway.sshClient.getD 0 := by rw [← ht]
  rw [ht] at hw
  subst hw
  obtain ⟨c, hc, hsome⟩ := h.connected hconnected
  have hmem : ∀ t', t' ∈ w.gateway.tunnels.put t ↔ t' = t ∨ t' ∈ w.gateway.tunnels := by
    intro t'
    rw [Table.mem_put, hid]
    exact or_congr_right ⟨fun h => h.1, fun h => ⟨h, hfree t' h⟩⟩
  have hold : ∀ t' ∈ w.gateway.tunnels, t'.listener < w.next := fun t' ht' =>
    h.fresh _ ((h.listeners _).mpr ⟨t', ht', rfl⟩)
  refine ⟨?_, hid, hmem⟩
  refine
    { listeners := ?_
      fresh := ?_
      distinct := ?_
      client := ?_
      connected := h.connected }
  · intro l
    constructor
    · intro hl
      rcases List.mem_cons.mp hl with rfl | hl
      · exact ⟨t, (hmem t).mpr (.inl rfl), hlistener⟩
      · obtain ⟨t', ht', rfl⟩ := (h.listeners l).mp hl
        exact ⟨t', (hmem t').mpr (.inr ht'), rfl⟩
    · rintro ⟨t', ht', rfl⟩
      rcases (hmem t').mp ht' with rfl | ht'
      · exact hlistener ▸ List.mem_cons_self
      · exact List.mem_cons_of_mem _ ((h.listeners _).mpr ⟨t', ht', rfl⟩)
  · intro l hl
    rcases List.mem_cons.mp hl with rfl | hl
    · exact Nat.lt_succ_self _
    · exact Nat.lt_succ_of_lt (h.fresh l hl)
  · intro t₁ ht₁ t₂ ht₂ heq
    rcases (hmem t₁).mp ht₁ with h₁ | h₁
    · rcases (hmem t₂).mp ht₂ with h₂ | h₂
      · rw [h₁, h₂]
      · have := hold t₂ h₂
        rw [h₁] at heq
        omega
    · rcases (hmem t₂).mp ht₂ with h₂ | h₂
      · have := hold t₁ h₁
        rw [h₂] at heq
        omega
      · exact h.distinct t₁ h₁ t₂ h₂ heq
  · intro t' ht'
    rcases (hmem t').mp ht' with rfl | ht'
    · refine ⟨hconnected, ?_⟩
      show w.gateway.sshClient = some t'.client
      rw [hclient, hsome]
      rfl
    · exact h.client t' ht'

theorem closeTunnel (h : Sound w) (id : String) : Sound (Gateway.closeTunnel w id) ∧
    ∀ t, t ∈ (Gateway.closeTunnel w id).gateway.tunnels ↔ t ∈ w.gateway.tunnels ∧ t.id ≠ id := by
  unfold Gateway.closeTunnel
  split
  · next t hfind =>
    obtain ⟨ht, hid⟩ := Table.findById_eq_some.mp hfind
    have hmem : ∀ t', t' ∈ (w.gateway.tunnels.deleteWhere fun t => t.id == id) ↔
        t' ∈ w.gateway.tunnels ∧ t'.id ≠ id := by
      intro t'
      rw [Table.mem_deleteWhere, beq_eq_false_iff_ne]
    refine ⟨?_, hmem⟩
    refine
      { listeners := ?_
        fresh := fun l hl => h.fresh l (List.mem_of_mem_filter hl)
        distinct := fun t₁ h₁ t₂ h₂ => h.distinct t₁ ((hmem t₁).mp h₁).1 t₂ ((hmem t₂).mp h₂).1
        client := fun t' ht' => h.client t' ((hmem t').mp ht').1
        connected := h.connected }
    intro l
    rw [List.mem_filter, h.listeners, bne_iff_ne]
    constructor
    · rintro ⟨⟨t', ht', rfl⟩, hne⟩
      refine ⟨t', (hmem t').mpr ⟨ht', fun hid' => hne ?_⟩, rfl⟩
      rw [Table.eq_of_key ht' ht (hid'.trans hid.symm)]
    · rintro ⟨t', ht', rfl⟩
      obtain ⟨ht', hne⟩ := (hmem t').mp ht'
      refine ⟨⟨t', ht', rfl⟩, fun heq => hne ?_⟩
      rw [h.distinct t' ht' t ht heq, hid]
  · next hfind =>
    refine ⟨h, fun t => ⟨fun ht => ⟨ht, Table.findById_eq_none.mp hfind t ht⟩, fun ht => ht.1⟩⟩

theorem disconnectIdle (h : Sound w) : Sound (Gateway.disconnectIdle w) ∧
    (Gateway.disconnectIdle w).gateway.tunnels = w.gateway.tunnels := by
  unfold Gateway.disconnectIdle
  split
  · next hempty =>
    have hnone : ∀ t ∈ w.gateway.tunnels, False := by
      intro t ht
      rw [Table.mem_def, hempty] at ht
      exact absurd ht List.not_mem_nil
    refine ⟨?_, rfl⟩
    exact
      { listeners := h.listeners
        fresh := h.fresh
        distinct := h.distinct
        client := fun t ht => (hnone t ht).elim
        connected := fun hfalse => (by cases hfalse) }
  · exact ⟨h, rfl⟩

theorem closeSshTunnel (h : Sound w) (id : String) : Sound (Gateway.closeSshTunnel w id) ∧
    ∀ t, t ∈ (Gateway.closeSshTunnel w id).gateway.tunnels ↔
      t ∈ w.gateway.tunnels ∧ t.id ≠ id := by
  obtain ⟨hclosed, hmem⟩ := h.closeTunnel id
  obtain ⟨hsound, hsame⟩ := hclosed.disconnectIdle
  refine ⟨hsound, fun t => ?_⟩
  unfold Gateway.closeSshTunnel
  rw [hsame]
  exact hmem t

/-- An `OpenSshTunnel` leaves the map as it was, or adds the tunnel that it returns. -/
theorem openSshTunnel (h : Sound w) {r : Except Error Tunnel}
    (hrun : Gateway.openSshTunnel w answers id ip port = (r, w'))
    (hfree : r.isOk = true → ∀ t ∈ w.gateway.tunnels, t.id ≠ id) :
    Sound w' ∧ ((∃ e, r = .error e) ∧ w'.gateway.tunnels = w.gateway.tunnels ∨
      ∃ t, r = .ok t ∧ t.id = id ∧
        ∀ t', t' ∈ w'.gateway.tunnels ↔ t' = t ∨ t' ∈ w.gateway.tunnels) := by
  unfold Gateway.openSshTunnel at hrun
  rcases hconnect : Gateway.connect w answers with ⟨r₁, w₁⟩
  obtain ⟨h₁, htunnels, hok⟩ := h.connect hconnect
  rw [hconnect] at hrun
  cases r₁ with
  | error e =>
    obtain ⟨rfl, rfl⟩ := Prod.mk.inj hrun
    exact ⟨h₁, .inl ⟨⟨e, rfl⟩, htunnels⟩⟩
  | ok u =>
    cases r with
    | error e =>
      change Gateway.listen w₁ answers id ip port = _ at hrun
      have hsame : w' = w₁ := by
        unfold Gateway.listen at hrun
        split at hrun
        · exact (Prod.mk.inj hrun).2.symm
        · cases hrun
      subst hsame
      exact ⟨h₁, .inl ⟨⟨e, rfl⟩, htunnels⟩⟩
    | ok t =>
      obtain ⟨h', hid, hmem⟩ := h₁.listen (hok rfl).1 hrun (by rw [htunnels]; exact hfree rfl)
      rw [htunnels] at hmem
      exact ⟨h', .inr ⟨t, rfl, hid, hmem⟩⟩

end Sound

end Gateway

/-! ## Every interleaving -/

namespace TunnelState

variable {κ : Type} {s s' : TunnelState κ}

/-- What holds in every state of a run: what callers hold is in the map, and no two of them hold the same
id. -/
structure Inv (s : TunnelState κ) : Prop where
  sound : Gateway.Sound s.world
  held : ∀ p ∈ s.held, p.2 ∈ s.world.gateway.tunnels
  owner : ∀ p ∈ s.held, ∀ q ∈ s.held, p.2.id = q.2.id → p.1 = q.1

theorem Inv.belong (h : Inv s) : s.Belong where
  listeners := h.sound.listeners
  held p hp := h.sound.isOpen (h.held p hp)

theorem inv_start : Inv ({} : TunnelState κ) where
  sound :=
    { listeners := fun l => by
        constructor
        · exact fun hl => absurd hl List.not_mem_nil
        · rintro ⟨t, ht, -⟩
          exact absurd ht List.not_mem_nil
      fresh := fun l hl => absurd hl List.not_mem_nil
      distinct := fun t ht => absurd ht List.not_mem_nil
      client := fun t ht => absurd ht List.not_mem_nil
      connected := fun hfalse => (by cases hfalse) }
  held p hp := absurd hp List.not_mem_nil
  owner p hp := absurd hp List.not_mem_nil

/-- A call that returns a tunnel had answers that open one. -/
theorem opens_of_ok {answers : OpenAnswers} {id ip : String} {port : Int} {t : Tunnel}
    {world : GatewayWorld} (h : Inv s)
    (hrun : Gateway.openSshTunnel s.world answers id ip port = (.ok t, world)) :
    s.Opens answers := by
  unfold Gateway.openSshTunnel at hrun
  rcases hconnect : Gateway.connect s.world answers with ⟨r, w⟩
  obtain ⟨-, -, hok⟩ := h.sound.connect hconnect
  rw [hconnect] at hrun
  cases r with
  | error e => cases hrun
  | ok u =>
    refine ⟨(hok rfl).2, ?_⟩
    change Gateway.listen w answers id ip port = _ at hrun
    unfold Gateway.listen at hrun
    split at hrun
    · cases hrun
    next localPort hostname hanswers =>
    obtain ⟨p, hp, hanswers⟩ := bind_eq_ok.mp hanswers
    obtain ⟨n, hn, hanswers⟩ := bind_eq_ok.mp hanswers
    obtain ⟨u, hu, -⟩ := bind_eq_ok.mp hanswers
    rw [hp, hn, hu]
    exact ⟨rfl, rfl, rfl⟩

variable [DecidableEq κ]

theorem Inv.openSshTunnel (h : Inv s) {caller : κ} {answers : OpenAnswers} {id ip : String}
    {port : Int} (hok : s.OwnIds (.openSshTunnel caller answers id ip port)) :
    Inv (s.call (.openSshTunnel caller answers id ip port)) := by
  rcases hrun : Gateway.openSshTunnel s.world answers id ip port with ⟨r, world⟩
  have hfree : r.isOk = true → ∀ t ∈ s.world.gateway.tunnels, t.id ≠ id := by
    intro hr
    cases r with
    | error e => cases hr
    | ok t => exact hok (opens_of_ok h hrun)
  obtain ⟨hsound, ⟨⟨e, rfl⟩, hsame⟩ | ⟨t, rfl, hid, hmem⟩⟩ := h.sound.openSshTunnel hrun hfree
  · show Inv (s.returned caller (Gateway.openSshTunnel s.world answers id ip port))
    rw [hrun]
    exact
      { sound := hsound
        held := fun p hp => hsame ▸ h.held p hp
        owner := h.owner }
  · show Inv (s.returned caller (Gateway.openSshTunnel s.world answers id ip port))
    rw [hrun]
    have hother : ∀ p ∈ s.held, p.2.id ≠ t.id := by
      intro p hp
      rw [hid]
      exact hfree rfl p.2 (h.held p hp)
    refine
      { sound := hsound
        held := ?_
        owner := ?_ }
    · intro p hp
      rcases List.mem_cons.mp hp with rfl | hp
      · exact (hmem _).mpr (.inl rfl)
      · exact (hmem p.2).mpr (.inr (h.held p hp))
    · intro p hp q hq heq
      rcases List.mem_cons.mp hp with rfl | hp
      · rcases List.mem_cons.mp hq with rfl | hq
        · rfl
        · exact absurd heq.symm (hother q hq)
      · rcases List.mem_cons.mp hq with rfl | hq
        · exact absurd heq (hother p hp)
        · exact h.owner p hp q hq heq

theorem Inv.closeSshTunnel (h : Inv s) {caller : κ} {id : String}
    (hok : s.OwnIds (.closeSshTunnel caller id)) : Inv (s.call (.closeSshTunnel caller id)) := by
  obtain ⟨hsound, hmem⟩ := h.sound.closeSshTunnel id
  refine
    { sound := hsound
      held := ?_
      owner := ?_ }
  · intro p hp
    obtain ⟨hp, hkeep⟩ := List.mem_filter.mp hp
    refine (hmem p.2).mpr ⟨h.held p hp, fun hid => ?_⟩
    -- the caller is the one who holds the tunnel
    have hown := hok p.2 (h.held p hp) hid
    have hcaller : p.1 = caller := h.owner p hp (caller, p.2) hown rfl
    exact of_decide_eq_true hkeep ⟨hcaller, hid⟩
  · intro p hp q hq
    exact h.owner p (List.mem_of_mem_filter hp) q (List.mem_of_mem_filter hq)

/-- In every interleaving of calls in which no id is opened while it is in the map, and no caller closes
the tunnel of another, the open listeners are those of the map and a tunnel stays open until its caller
closes it. -/
theorem belong_of_reaches (h : Transition.Reaches TunnelState.step OwnIds {} s) : s.Belong := by
  refine (h.invariant (I := Inv) (fun s c t hs hok hstep => ?_) inv_start).belong
  obtain rfl := Option.some.inj hstep
  cases c with
  | openSshTunnel caller answers id ip port => exact hs.openSshTunnel hok
  | closeSshTunnel caller id => exact hs.closeSshTunnel hok

/-- The answers to a call that goes through. -/
def opened : OpenAnswers := { getAvailablePort := .ok 40000, hostname := .ok "dbm" }

/-- Two users with sessions of their own; the gateway refuses a third. -/
def ownSessions : List (TunnelCall Nat) :=
  [.openSshTunnel 0 opened "s1" "10.0.0.1" 3306, .openSshTunnel 1 opened "s2" "10.0.0.2" 3306,
    .openSshTunnel 2 { opened with listen := .error (.text "in use") } "s3" "10.0.0.3" 3306,
    .closeSshTunnel 2 "s3", .closeSshTunnel 0 "s1"]

theorem belong_ownSessions : ∃ s, Transition.exec TunnelState.step {} ownSessions = some s ∧
    s.world.listeners = [2] ∧ s.held.map Prod.fst = [1] ∧ s.Belong := by
  obtain ⟨s, hrun, hlisteners, hheld⟩ : ∃ s,
      Transition.exec TunnelState.step {} ownSessions = some s ∧
        s.world.listeners = [2] ∧ s.held.map Prod.fst = [1] :=
    ⟨_, rfl, by decide, by decide⟩
  refine ⟨s, hrun, hlisteners, hheld, belong_of_reaches (Transition.reaches_of_exec hrun ?_)⟩
  refine ⟨fun _ t ht => absurd ht List.not_mem_nil, fun s₁ h₁ => ?_⟩
  obtain rfl := Option.some.inj h₁
  refine ⟨fun _ => by decide, fun s₂ h₂ => ?_⟩
  obtain rfl := Option.some.inj h₂
  refine ⟨fun hopens => absurd hopens.2.2.2 (by decide), fun s₃ h₃ => ?_⟩
  obtain rfl := Option.some.inj h₃
  refine ⟨by unfold OwnIds; decide, fun s₄ h₄ => ?_⟩
  obtain rfl := Option.some.inj h₄
  exact ⟨by unfold OwnIds; decide, fun _ _ => trivial⟩

/-- A session is attached twice: the first listener leaves the map and stays open. -/
def attachedTwice : List (TunnelCall Nat) :=
  [.openSshTunnel 0 opened "s1" "10.0.0.1" 3306, .openSshTunnel 1 opened "s1" "10.0.0.1" 3306]

theorem not_belong_attachedTwice : ∃ s : TunnelState Nat,
    Transition.Reaches TunnelState.step Transition.Any {} s ∧ ¬ s.Belong := by
  obtain ⟨s, hrun, hlisteners, htunnels⟩ : ∃ s,
      Transition.exec TunnelState.step {} attachedTwice = some s ∧
        1 ∈ s.world.listeners ∧ ∀ t ∈ s.world.gateway.tunnels, t.listener ≠ 1 :=
    ⟨_, rfl, by decide, by decide⟩
  refine ⟨s, Transition.reaches_of_exec hrun (Transition.allOk_any _ _), fun h => ?_⟩
  obtain ⟨t, ht, hlistener⟩ := (h.listeners 1).mp hlisteners
  exact htunnels t ht hlistener

end TunnelState

end NextDBM
