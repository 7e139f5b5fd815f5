import NextDBM.Library.Runs
import NextDBM.Proxy.Connection

/-!
# Proofs: isolation of proxy connections

The invariant of a run says, for every connection, that the shared fields still hold what the
connection has written and not yet read, and that what it has read so far is its own. A step that
writes a field keeps it for the other connections only if it writes the value they wait for: this is
the condition `Undisturbed`. Without it some connection can be brought to a dial that belongs to
another asset (`misdialled_of_disturbed`).
-/

namespace NextDBM.MariaDBProxy

open Transition

variable {κ : Type} {c : Cipher} {s t : State κ} {k j : κ} {r : Resolved}

/-! ## The dial of an asset -/

theorem intended_of_ne (h : r.sshConfig ≠ {}) :
    r.intended = { dataSource := r.dataSource, gateway := some r.sshConfig } := by
  cases hg : r.gateway with
  | none => exact absurd (by rw [Resolved.sshConfig, hg]) h
  | some gateway => simp [Resolved.intended, Resolved.sshConfig, hg]

theorem intended_of_none (h : r.gateway = none) :
    r.intended = { dataSource := r.dataSource, gateway := none } := by
  rw [Resolved.intended, h, Option.map_none]

theorem gateway_of_ne_intended {dsn : CoreDataSource} {cfg : SSHConfig} (h : cfg ≠ r.sshConfig) :
    { dataSource := dsn, gateway := some cfg } ≠ r.intended := by
  intro heq
  have hgateway : some cfg = r.gateway.map sshConfigOf := congrArg Dial.gateway heq
  cases hg : r.gateway with
  | none => rw [hg] at hgateway; cases hgateway
  | some gateway =>
    rw [hg] at hgateway
    exact h (by rw [Resolved.sshConfig, hg]; exact Option.some.inj hgateway)

theorem dataSource_of_ne_intended {dsn : CoreDataSource} {gateway : Option SSHConfig}
    (h : dsn ≠ r.dataSource) : { dataSource := dsn, gateway } ≠ r.intended := by
  intro heq
  exact h (congrArg Dial.dataSource heq)

/-! ## The invariant -/

/-- What a connection has read or tested so far is its own. -/
def Phase.Sound : Phase → Prop
  | .sshWritten r | .dataSourceWritten r => r.gateway.isSome → r.sshConfig ≠ {}
  | .useSocks r => r.sshConfig ≠ {}
  | .useSocksDsn r dsn => r.sshConfig ≠ {} ∧ dsn = r.dataSource
  | .direct r => r.gateway = none
  | .dialled r dial => dial = r.intended
  | .idle | .resolved _ | .closed => True

/-- The shared fields hold what the connection still waits for. -/
structure Consistent (s : State κ) (p : Phase) : Prop where
  ssh : ∀ cfg, p.pendingSsh = some cfg → s.sshConfig = cfg
  dataSource : ∀ dsn, p.pendingDataSource = some dsn → s.dataSource = dsn
  sound : p.Sound

def Inv (s : State κ) : Prop := ∀ k, Consistent s (s.conns k)

/-- A phase that waits for nothing is consistent when it is sound. -/
theorem Consistent.of_sound {p : Phase} (hs : p.pendingSsh = none) (hd : p.pendingDataSource = none)
    (h : p.Sound) : Consistent s p := by
  refine ⟨fun cfg hcfg => ?_, fun dsn hdsn => ?_, h⟩
  · rw [hs] at hcfg
    cases hcfg
  · rw [hd] at hdsn
    cases hdsn

section Steps

variable [DecidableEq κ]

theorem inv_setPhase {p : Phase} (hothers : ∀ j ≠ k, Consistent s (s.conns j))
    (hk : Consistent s p) : Inv (s.setPhase k p) := by
  intro j
  by_cases hj : j = k
  · rw [hj, State.setPhase_self]
    exact ⟨hk.ssh, hk.dataSource, hk.sound⟩
  · rw [State.setPhase_of_ne hj]
    exact ⟨(hothers j hj).ssh, (hothers j hj).dataSource, (hothers j hj).sound⟩

/-- Step lemma for the accesses to the shared fields. -/
theorem nextStep_inv (hinv : Inv s) (hok : Undisturbed s (.next k)) (h : nextStep s k = some t) :
    Inv t := by
  have hk := hinv k
  cases hphase : s.conns k with
  | idle => rw [nextStep, hphase] at h; cases h
  | dialled r dial => rw [nextStep, hphase] at h; cases h
  | closed => rw [nextStep, hphase] at h; cases h
  | resolved r =>
    rw [nextStep, hphase] at h
    obtain rfl := Option.some.inj h
    rw [Undisturbed, hphase] at hok
    refine inv_setPhase ?_ ?_
    · intro j hj
      exact ⟨fun cfg hcfg => hok.1 j hj cfg hcfg, (hinv j).dataSource, (hinv j).sound⟩
    · refine ⟨fun cfg hcfg => Option.some.inj hcfg, fun dsn hdsn => ?_, hok.2⟩
      cases hdsn
  | sshWritten r =>
    rw [nextStep, hphase] at h
    obtain rfl := Option.some.inj h
    rw [Undisturbed, hphase] at hok
    rw [hphase] at hk
    refine inv_setPhase ?_ ?_
    · intro j hj
      exact ⟨(hinv j).ssh, fun dsn hdsn => hok j hj dsn hdsn, (hinv j).sound⟩
    · exact ⟨hk.ssh, fun dsn hdsn => Option.some.inj hdsn, hk.sound⟩
  | dataSourceWritten r =>
    simp only [nextStep, hphase] at h
    rw [hphase] at hk
    have hcfg : s.sshConfig = r.sshConfig := hk.ssh r.sshConfig rfl
    split at h
    · next hne =>
      obtain rfl := Option.some.inj h
      rw [hcfg] at hne
      exact inv_setPhase (fun j _ => hinv j) ⟨hk.ssh, hk.dataSource, hne⟩
    · next heq =>
      obtain rfl := Option.some.inj h
      have hempty : r.sshConfig = {} := hcfg ▸ not_not.mp heq
      have hnone : r.gateway = none := by
        rw [← Option.not_isSome_iff_eq_none]
        exact fun hsome => hk.sound hsome hempty
      refine inv_setPhase (fun j _ => hinv j) ⟨fun cfg hcfg => ?_, hk.dataSource, hnone⟩
      cases hcfg
  | useSocks r =>
    rw [nextStep, hphase] at h
    obtain rfl := Option.some.inj h
    rw [hphase] at hk
    refine inv_setPhase (fun j _ => hinv j) ⟨hk.ssh, fun dsn hdsn => ?_, hk.sound, ?_⟩
    · cases hdsn
    · exact hk.dataSource r.dataSource rfl
  | useSocksDsn r dsn =>
    rw [nextStep, hphase] at h
    obtain rfl := Option.some.inj h
    rw [hphase] at hk
    obtain ⟨hne, hdsn⟩ := hk.sound
    refine inv_setPhase (fun j _ => hinv j) (Consistent.of_sound rfl rfl ?_)
    show { dataSource := dsn, gateway := some s.sshConfig } = r.intended
    rw [intended_of_ne hne, hdsn, hk.ssh r.sshConfig rfl]
  | direct r =>
    rw [nextStep, hphase] at h
    obtain rfl := Option.some.inj h
    rw [hphase] at hk
    refine inv_setPhase (fun j _ => hinv j) (Consistent.of_sound rfl rfl ?_)
    show { dataSource := s.dataSource, gateway := none } = r.intended
    rw [intended_of_none hk.sound, hk.dataSource r.dataSource rfl]

/-- Step lemma: an undisturbed step keeps the invariant. -/
theorem step_inv {a : Action κ} (hinv : Inv s) (hok : Undisturbed s a) (h : step c s a = some t) :
    Inv t := by
  cases a with
  | login k name policyOk =>
    rw [step] at h
    split at h
    · split at h
      · obtain rfl := Option.some.inj h
        exact inv_setPhase (fun j _ => hinv j) (Consistent.of_sound rfl rfl trivial)
      · obtain rfl := Option.some.inj h
        exact inv_setPhase (fun j _ => hinv j) (Consistent.of_sound rfl rfl trivial)
    · cases h
  | next k => exact nextStep_inv hinv hok h
  | abort k =>
    obtain rfl := Option.some.inj h
    exact inv_setPhase (fun j _ => hinv j) (Consistent.of_sound rfl rfl trivial)
  | database db =>
    obtain rfl := Option.some.inj h
    intro j
    exact ⟨(hinv j).ssh, (hinv j).dataSource, (hinv j).sound⟩

theorem inv_of_reaches {db : Database} (h : Reaches (step c) Undisturbed { db } s) :
    Inv (κ := κ) s := by
  refine h.invariant (fun s a t hs hok hst => step_inv hs hok hst) ?_
  intro k
  exact Consistent.of_sound rfl rfl trivial

/-- Some continuation of a run dials a client with the parameters of another asset. -/
def Misdials (c : Cipher) (s : State κ) : Prop :=
  ∃ t, Reaches (step c) Any s t ∧ ¬ Isolated t

theorem Misdials.of_next (hnext : nextStep s k = some t) (h : Misdials c t) : Misdials c s := by
  obtain ⟨u, hreach, hu⟩ := h
  exact ⟨u, Reaches.head trivial (show step c s (.next k) = some t from hnext) hreach, hu⟩

theorem Misdials.of_dialled {dial : Dial} (hphase : s.conns k = .dialled r dial)
    (hdial : dial ≠ r.intended) : Misdials c s :=
  ⟨s, Reaches.refl s, fun h => hdial (h k r dial hphase)⟩

theorem misdials_direct (hphase : s.conns k = .direct r) (h : s.dataSource ≠ r.dataSource) :
    Misdials c s := by
  refine Misdials.of_next (by rw [nextStep, hphase]) ?_
  exact Misdials.of_dialled (State.setPhase_self ..) (dataSource_of_ne_intended h)

theorem misdials_useSocksDsn {dsn : CoreDataSource} (hphase : s.conns k = .useSocksDsn r dsn)
    (h : s.sshConfig ≠ r.sshConfig ∨ dsn ≠ r.dataSource) : Misdials c s := by
  refine Misdials.of_next (by rw [nextStep, hphase]) ?_
  refine Misdials.of_dialled (State.setPhase_self ..) ?_
  rcases h with h | h
  · exact gateway_of_ne_intended h
  · exact dataSource_of_ne_intended h

theorem misdials_useSocks (hphase : s.conns k = .useSocks r)
    (h : s.sshConfig ≠ r.sshConfig ∨ s.dataSource ≠ r.dataSource) : Misdials c s := by
  refine Misdials.of_next (by rw [nextStep, hphase]) ?_
  exact misdials_useSocksDsn (State.setPhase_self ..) h

/-- A connection that goes to the test while a field holds a foreign value, or whose gateway row is
all empty, is misdialled by its next steps. -/
theorem misdials_dataSourceWritten (hphase : s.conns k = .dataSourceWritten r)
    (h : s.sshConfig ≠ r.sshConfig ∨ s.dataSource ≠ r.dataSource ∨
      (r.gateway.isSome ∧ s.sshConfig = {})) : Misdials c s := by
  by_cases hcfg : s.sshConfig = {}
  · have hnext : nextStep s k = some (s.setPhase k (.direct r)) := by
      simp only [nextStep, hphase, hcfg, ne_eq, not_true_eq_false, if_false]
    refine Misdials.of_next hnext (Misdials.of_next (by rw [nextStep, State.setPhase_self]) ?_)
    refine Misdials.of_dialled (State.setPhase_self ..) ?_
    intro heq
    have hgateway : r.gateway = none :=
      Option.map_eq_none_iff.mp (congrArg Dial.gateway heq).symm
    rcases h with h | h | ⟨h, -⟩
    · exact h (by rw [hcfg, Resolved.sshConfig, hgateway])
    · exact h (congrArg Dial.dataSource heq)
    · rw [hgateway] at h
      cases h
  · have hnext : nextStep s k = some (s.setPhase k (.useSocks r)) := by
      simp only [nextStep, hphase, ne_eq, hcfg, not_false_eq_true, if_true]
    refine Misdials.of_next hnext (misdials_useSocks (State.setPhase_self ..) ?_)
    rcases h with h | h | ⟨-, h⟩
    · exact .inl h
    · exact .inr h
    · exact absurd h hcfg

theorem misdials_sshWritten (hphase : s.conns k = .sshWritten r)
    (h : s.sshConfig ≠ r.sshConfig ∨ (r.gateway.isSome ∧ s.sshConfig = {})) : Misdials c s := by
  refine Misdials.of_next (by rw [nextStep, hphase]) ?_
  refine misdials_dataSourceWritten (State.setPhase_self ..) ?_
  rcases h with h | h
  · exact .inl h
  · exact .inr (.inr h)

theorem misdials_of_pendingSsh {cfg : SSHConfig} (hpending : (s.conns k).pendingSsh = some cfg)
    (h : s.sshConfig ≠ cfg) : Misdials c s := by
  cases hphase : s.conns k with
  | sshWritten r =>
    rw [hphase] at hpending
    exact misdials_sshWritten hphase (.inl (Option.some.inj hpending ▸ h))
  | dataSourceWritten r =>
    rw [hphase] at hpending
    exact misdials_dataSourceWritten hphase (.inl (Option.some.inj hpending ▸ h))
  | useSocks r =>
    rw [hphase] at hpending
    exact misdials_useSocks hphase (.inl (Option.some.inj hpending ▸ h))
  | useSocksDsn r dsn =>
    rw [hphase] at hpending
    exact misdials_useSocksDsn hphase (.inl (Option.some.inj hpending ▸ h))
  | idle => rw [hphase] at hpending; cases hpending
  | resolved r => rw [hphase] at hpending; cases hpending
  | direct r => rw [hphase] at hpending; cases hpending
  | dialled r dial => rw [hphase] at hpending; cases hpending
  | closed => rw [hphase] at hpending; cases hpending

theorem misdials_of_pendingDataSource {dsn : CoreDataSource}
    (hpending : (s.conns k).pendingDataSource = some dsn) (h : s.dataSource ≠ dsn) :
    Misdials c s := by
  cases hphase : s.conns k with
  | dataSourceWritten r =>
    rw [hphase] at hpending
    exact misdials_dataSourceWritten hphase (.inr (.inl (Option.some.inj hpending ▸ h)))
  | useSocks r =>
    rw [hphase] at hpending
    exact misdials_useSocks hphase (.inr (Option.some.inj hpending ▸ h))
  | direct r =>
    rw [hphase] at hpending
    exact misdials_direct hphase (Option.some.inj hpending ▸ h)
  | idle => rw [hphase] at hpending; cases hpending
  | resolved r => rw [hphase] at hpending; cases hpending
  | sshWritten r => rw [hphase] at hpending; cases hpending
  | useSocksDsn r dsn => rw [hphase] at hpending; cases hpending
  | dialled r dial => rw [hphase] at hpending; cases hpending
  | closed => rw [hphase] at hpending; cases hpending

/-- The condition is exact: after a step that does not meet it, some continuation of the run dials a
client with the parameters of another asset. -/
theorem misdials_of_disturbed {a : Action κ} (hok : ¬ Undisturbed s a)
    (h : step c s a = some t) : Misdials c t := by
  cases a with
  | login k name policyOk => exact absurd trivial hok
  | abort k => exact absurd trivial hok
  | database db => exact absurd trivial hok
  | next k =>
    cases hphase : s.conns k with
    | resolved r =>
      simp only [step, nextStep, hphase, Option.some.injEq] at h
      subst h
      simp only [Undisturbed, hphase, not_and_or, not_forall, exists_prop, not_not] at hok
      rcases hok with ⟨j, hj, cfg, hpending, hne⟩ | ⟨hgateway, hempty⟩
      · refine misdials_of_pendingSsh (k := j) ?_ hne
        rw [State.setPhase_of_ne hj]
        exact hpending
      · exact misdials_sshWritten (State.setPhase_self ..) (.inr ⟨hgateway, hempty⟩)
    | sshWritten r =>
      simp only [step, nextStep, hphase, Option.some.injEq] at h
      subst h
      simp only [Undisturbed, hphase, not_forall, exists_prop] at hok
      obtain ⟨j, hj, dsn, hpending, hne⟩ := hok
      refine misdials_of_pendingDataSource (k := j) ?_ hne
      rw [State.setPhase_of_ne hj]
      exact hpending
    | idle => simp only [Undisturbed, hphase, not_true_eq_false] at hok
    | dataSourceWritten r => simp only [Undisturbed, hphase, not_true_eq_false] at hok
    | useSocks r => simp only [Undisturbed, hphase, not_true_eq_false] at hok
    | useSocksDsn r dsn => simp only [Undisturbed, hphase, not_true_eq_false] at hok
    | direct r => simp only [Undisturbed, hphase, not_true_eq_false] at hok
    | dialled r dial => simp only [Undisturbed, hphase, not_true_eq_false] at hok
    | closed => simp only [Undisturbed, hphase, not_true_eq_false] at hok

end Steps

/-! ## A connection that runs alone -/

/-- No other connection waits for a shared field. -/
structure Alone (k : κ) (s : State κ) : Prop where
  ssh : ∀ j ≠ k, (s.conns j).pendingSsh = none
  dataSource : ∀ j ≠ k, (s.conns j).pendingDataSource = none
  gateway : ∀ r, s.conns k = .resolved r → r.gateway.isSome → r.sshConfig ≠ {}

theorem Alone.undisturbed (h : Alone k s) : Undisturbed s (.next k) := by
  rw [Undisturbed]
  split
  · next r hphase =>
    refine ⟨fun j hj cfg hcfg => ?_, h.gateway r hphase⟩
    rw [h.ssh j hj] at hcfg
    cases hcfg
  · intro j hj dsn hdsn
    rw [h.dataSource j hj] at hdsn
    cases hdsn
  · trivial

theorem Alone.of_conns (h : Alone k s) (hconns : t.conns = s.conns) : Alone k t := by
  refine ⟨?_, ?_, ?_⟩
  · rw [hconns]
    exact h.ssh
  · rw [hconns]
    exact h.dataSource
  · rw [hconns]
    exact h.gateway

section Alone

variable [DecidableEq κ]

theorem Alone.setPhase (h : Alone k s) (p : Phase) (hp : ∀ r, p ≠ .resolved r) :
    Alone k (s.setPhase k p) := by
  refine ⟨fun j hj => ?_, fun j hj => ?_, fun r hr => ?_⟩
  · rw [State.setPhase_of_ne hj]
    exact h.ssh j hj
  · rw [State.setPhase_of_ne hj]
    exact h.dataSource j hj
  · rw [State.setPhase_self] at hr
    exact absurd hr (hp r)

theorem Alone.nextStep (h : Alone k s) (hstep : nextStep s k = some t) : Alone k t := by
  cases hphase : s.conns k with
  | idle => rw [MariaDBProxy.nextStep, hphase] at hstep; cases hstep
  | dialled r dial => rw [MariaDBProxy.nextStep, hphase] at hstep; cases hstep
  | closed => rw [MariaDBProxy.nextStep, hphase] at hstep; cases hstep
  | resolved r =>
    rw [MariaDBProxy.nextStep, hphase] at hstep
    obtain rfl := Option.some.inj hstep
    have hwritten : Alone k { s with sshConfig := r.sshConfig } := h.of_conns rfl
    exact hwritten.setPhase _ (by simp)
  | sshWritten r =>
    rw [MariaDBProxy.nextStep, hphase] at hstep
    obtain rfl := Option.some.inj hstep
    have hwritten : Alone k { s with dataSource := r.dataSource } := h.of_conns rfl
    exact hwritten.setPhase _ (by simp)
  | dataSourceWritten r =>
    simp only [MariaDBProxy.nextStep, hphase] at hstep
    split at hstep
    · obtain rfl := Option.some.inj hstep
      exact h.setPhase _ (by simp)
    · obtain rfl := Option.some.inj hstep
      exact h.setPhase _ (by simp)
  | useSocks r =>
    rw [MariaDBProxy.nextStep, hphase] at hstep
    obtain rfl := Option.some.inj hstep
    exact h.setPhase _ (by simp)
  | useSocksDsn r dsn =>
    rw [MariaDBProxy.nextStep, hphase] at hstep
    obtain rfl := Option.some.inj hstep
    exact h.setPhase _ (by simp)
  | direct r =>
    rw [MariaDBProxy.nextStep, hphase] at hstep
    obtain rfl := Option.some.inj hstep
    exact h.setPhase _ (by simp)

/-- The steps of a connection that runs alone are an undisturbed run. -/
theorem Alone.reaches (h : Alone k s) (n : ℕ)
    (hexec : exec (step c) s (List.replicate n (.next k)) = some t) :
    Reaches (step c) Undisturbed s t := by
  induction n generalizing s with
  | zero =>
    obtain rfl := Option.some.inj hexec
    exact Reaches.refl s
  | succ n ih =>
    obtain ⟨s', hs', hrest⟩ := Option.bind_eq_some_iff.mp hexec
    exact Reaches.head h.undisturbed hs' (ih (h.nextStep hs') hrest)

end Alone

/-! ## Two assets -/

/-- A cipher that is never asked: the assets below have no secrets. -/
def noSecrets : Cipher := { encrypt := .ok, decrypt := .ok }

def databaseAsset (id name ip : String) : Asset :=
  { id, name, ip, port := 3306, protocol := nd.mariaDB, accountType := nd.custom, username := "root",
    password := "-", encrypted := true }

def twoAssets : Database :=
  { users := ⟨[{ id := "u1", username := "ann", status := nd.statusEnabled }], by decide⟩
    assets := ⟨[databaseAsset "a1" "orders" "10.0.0.1", databaseAsset "a2" "stock" "10.0.0.2"],
      by decide⟩ }

def resolvedAsset (a : Asset) : Resolved := { assert := a, assertDecrypt := a, gateway := none }

/-- The state after one login. -/
def afterLogin : State Nat :=
  State.setPhase { db := twoAssets } 0
    (.resolved (resolvedAsset (databaseAsset "a1" "orders" "10.0.0.1")))

theorem alone_afterLogin : Alone 0 afterLogin := by
  refine ⟨fun j hj => ?_, fun j hj => ?_, fun r hr => ?_⟩
  · rw [afterLogin, State.setPhase_of_ne hj]
    rfl
  · rw [afterLogin, State.setPhase_of_ne hj]
    rfl
  · rw [afterLogin, State.setPhase_self] at hr
    cases hr
    intro hsome
    cases hsome

/-- The dial of an asset without secrets and without a gateway. -/
def dialOf (ip : String) : Dial :=
  { dataSource := { username := "root", password := "-", ip, port := 3306 }, gateway := none }

theorem exec_afterLogin :
    ∃ s, exec (step noSecrets) afterLogin (List.replicate 4 (.next 0)) = some s ∧
      s.conns 0 = .dialled (resolvedAsset (databaseAsset "a1" "orders" "10.0.0.1"))
        (dialOf "10.0.0.1") :=
  ⟨_, rfl, rfl⟩

/-- Two logins to two assets; the second one writes the data source before the first one reads it. -/
def crossedRun : List (Action Nat) :=
  [.login 0 "ann#orders" true, .login 1 "ann#stock" true, .next 0, .next 0, .next 1, .next 1,
    .next 0, .next 0]

theorem exec_crossedRun :
    ∃ s, exec (step noSecrets) { db := twoAssets } crossedRun = some s ∧
      s.conns 0 = .dialled (resolvedAsset (databaseAsset "a1" "orders" "10.0.0.1"))
        (dialOf "10.0.0.2") :=
  ⟨_, rfl, rfl⟩

end NextDBM.MariaDBProxy
