import NextDBM.Accounts.Online
import NextDBM.Accounts.Proofs.TokenProofs

/-!
# Proofs: the online flag

A flag that is set has a reason: an alive login log of a token that is live or being logged out, a count
of the logs or a write of the flag that is still to come, or a login that is not done. A live token has
an alive log, or an operation in progress logs it out. When no operation is in progress, both say that
the flags are those of the users with a live token.
-/

namespace NextDBM

open Relational
open LoginLogRepository (isAlive findAliveLoginLogsByUsername)
open UserService (isForever)

variable {κ : Type} {s s' : OnlineServer κ} {k k' : κ} {i j : OnlineStatement}
  {is rest : List OnlineStatement} {l l' : WebLogin} {user user' u v : User} {r r' : LoginLog}
  {t id name : String} {b : Bool}

namespace OnlineStatement

/-- The statement may end its operation early. -/
def Stops : OnlineStatement → Prop
  | .deleteLoginLog _ | .findUser _ => True
  | _ => False

/-- The statement logs the token out, or deletes its log. -/
def Ends (t : String) : OnlineStatement → Prop
  | .logout token _ | .onEvicted token => token = t
  | .updateLogoutTime token _ _ | .deleteById token => token = t
  | _ => False

theorem token?_of_ends (h : i.Ends t) : i.token? = some t := by
  cases i with
  | logout => exact congrArg some h
  | onEvicted => exact congrArg some h
  | updateLogoutTime => exact congrArg some h
  | deleteById => exact congrArg some h
  | _ => exact h.elim

theorem token?_of_login? (h : i.login? = some (l, user)) : i.token? = some l.token := by
  cases i with
  | setToken =>
    obtain ⟨rfl, rfl⟩ := Prod.mk.inj (Option.some.inj h)
    rfl
  | setOnline =>
    obtain ⟨rfl, rfl⟩ := Prod.mk.inj (Option.some.inj h)
    rfl
  | saveLoginLog =>
    obtain ⟨rfl, rfl⟩ := Prod.mk.inj (Option.some.inj h)
    rfl
  | _ => cases h

end OnlineStatement

open OnlineStatement

namespace OnlineServer

/-! ## The invariant -/

/-- What a login has done before the statement. -/
def Stage (s : OnlineServer κ) : OnlineStatement → Prop
  | .setToken l _ => ∀ c ∈ s.tokens, c.key ≠ l.token
  | .setOnline l user => s.Holds l.token user.id
  | .saveLoginLog l user => s.Holds l.token user.id ∧ s.online user.id = true
  | _ => True

/-- A login in progress, at its statement `i`. -/
structure LoginAt (s : OnlineServer κ) (k : κ) (i : OnlineStatement) (l : WebLogin) (user : User) :
    Prop where
  alone : s.running k = [i]
  only : ∀ k' j l' user', j ∈ s.running k' → j.login? = some (l', user') →
    l'.token = l.token → k' = k
  uuid : IsUuid l.token
  log : ∀ r ∈ s.db.loginLogs, r.id ≠ l.token
  named : s.Named user.id l.username
  clear : ¬ s.Pending (.updateOnline l.username)
  ends : ∀ j, s.Pending j → ¬ j.Ends l.token
  stage : s.Stage i

/-- What holds while a statement is left to do. -/
def Valid (s : OnlineServer κ) : OnlineStatement → Prop
  | .onEvicted t => ∀ c ∈ s.tokens, c.key ≠ t
  | .updateLogoutTime t name deletesLog => t ≠ "" ∧
    (∀ r ∈ s.db.loginLogs, r.id = t → r.username = name) ∧
      (deletesLog = false → ∀ c ∈ s.tokens, c.key ≠ t)
  | .logout t deletesLog => deletesLog = true →
    ∀ r ∈ s.db.loginLogs, r.id = t → isAlive r = false
  | .deleteById t => (∀ r ∈ s.db.loginLogs, r.id = t → isAlive r = false) ∧
    ∀ c ∈ s.tokens, c.key ≠ t
  | .updateOnline name => ∀ r ∈ s.db.loginLogs, r.username = name → isAlive r = true →
    ∀ id, ¬ s.Holds r.id id
  | _ => True

/-- The reason for a flag that is set. -/
def Backed (s : OnlineServer κ) (u : User) : Prop :=
  (∃ r ∈ s.db.loginLogs, isAlive r = true ∧ r.username = u.username ∧ s.OfToken r) ∨
    s.Pending (.findAliveLoginLogs u.username) ∨ s.Pending (.updateOnline u.username) ∨
      ∃ i l user, s.Pending i ∧ i.login? = some (l, user) ∧ user.id = u.id

/-- The log of a live token. -/
def Logged (s : OnlineServer κ) (t id : String) : Prop :=
  ∃ r ∈ s.db.loginLogs, r.id = t ∧ s.Named id r.username ∧
    (isAlive r = true ∨ ∃ deletesLog, s.Pending (.logout t deletesLog))

structure Inv (s : OnlineServer κ) : Prop where
  queue : ∀ k, (s.running k).Pairwise fun i j => i.Stops → j.Stops
  ids : ∀ u ∈ s.db.users, u.id ≠ ""
  names : ∀ u ∈ s.db.users, ∀ v ∈ s.db.users, u.username = v.username → u = v
  logIds : ∀ r ∈ s.db.loginLogs, r.id ≠ "" ∧ isForever r.id = false
  login : ∀ k i l user, i ∈ s.running k → i.login? = some (l, user) → s.LoginAt k i l user
  valid : ∀ i, s.Pending i → s.Valid i
  tokens : ∀ t id, s.Holds t id →
    (∃ i l user, s.Pending i ∧ i.login? = some (l, user) ∧ l.token = t ∧ user.id = id) ∨
      s.Logged t id
  backed : ∀ u ∈ s.db.users, s.online u.id = true → s.Backed u
  alive : ∀ r ∈ s.db.loginLogs, isAlive r = true → ∀ id, s.Holds r.id id →
    ∀ u ∈ s.db.users, u.username = r.username → s.online u.id = true

/-- The flags agree whenever no operation is in progress. -/
theorem Inv.flagsAgree (h : Inv s) (hidle : s.Idle) : s.FlagsAgree := by
  have hnone : ∀ i, ¬ s.Pending i := by
    rintro i ⟨k, hk⟩
    rw [hidle k] at hk
    exact absurd hk List.not_mem_nil
  have hlogged : ∀ t id, s.Holds t id → ∃ r ∈ s.db.loginLogs, r.id = t ∧ s.Named id r.username ∧
      isAlive r = true := by
    intro t id hholds
    rcases h.tokens t id hholds with ⟨i, _, _, hi, -⟩ | ⟨r, hr, hid, hnamed, halive⟩
    · exact absurd hi (hnone i)
    · rcases halive with halive | ⟨deletesLog, hlogout⟩
      · exact ⟨r, hr, hid, hnamed, halive⟩
      · exact absurd hlogout (hnone _)
  intro u hu
  constructor
  · intro honline
    rcases h.backed u hu honline with ⟨r, hr, halive, hname, hof⟩ | hp | hp | ⟨i, _, _, hp, -⟩
    · rcases hof with ⟨id, hholds⟩ | hp | ⟨_, _, hp⟩
      · obtain ⟨r', hr', hid, ⟨v, hv, hvid, hvname⟩, -⟩ := hlogged r.id id hholds
        obtain rfl := Table.eq_of_key hr' hr hid
        obtain rfl := h.names v hv u hu (hvname.trans hname)
        rw [hvid]
        exact ⟨r'.id, hholds⟩
      · exact absurd hp (hnone _)
      · exact absurd hp (hnone _)
    · exact absurd hp (hnone _)
    · exact absurd hp (hnone _)
    · exact absurd hp (hnone i)
  · rintro ⟨t, hholds⟩
    obtain ⟨r, hr, rfl, ⟨v, hv, hvid, hvname⟩, halive⟩ := hlogged t u.id hholds
    obtain rfl := Table.eq_of_key hv hu hvid
    exact h.alive r hr halive v.id hholds v hv hvname

/-- The user of the login is the one with its name. -/
theorem LoginAt.id_eq (hat : s.LoginAt k i l user) (h : Inv s) (hu : u ∈ s.db.users)
    (hname : u.username = l.username) : u.id = user.id := by
  obtain ⟨v, hv, hid, hvname⟩ := hat.named
  rw [h.names u hu v hv (hname.trans hvname.symm)]
  exact hid

theorem LoginAt.username_eq (hat : s.LoginAt k i l user) (hu : u ∈ s.db.users)
    (hid : u.id = user.id) : u.username = l.username := by
  obtain ⟨v, hv, hvid, hvname⟩ := hat.named
  rw [Table.eq_of_key hu hv (hid.trans hvid.symm)]
  exact hvname

/-! ## Pending statements -/

section Running

variable [DecidableEq κ]

theorem mem_running_update (hrun : s'.running = Function.update s.running k is) :
    i ∈ s'.running k' ↔ k' = k ∧ i ∈ is ∨ k' ≠ k ∧ i ∈ s.running k' := by
  rw [hrun]
  by_cases hk : k' = k
  · rw [hk, Function.update_self]
    simp
  · rw [Function.update_of_ne hk]
    simp [hk]

theorem pending_of_mem (hrun : s'.running = Function.update s.running k is) (hi : i ∈ is) :
    s'.Pending i :=
  ⟨k, (mem_running_update hrun).mpr (.inl ⟨rfl, hi⟩)⟩

/-- What is left to do of the other operations stays. -/
theorem Pending.keep (h : s.Pending i) (hrun : s'.running = Function.update s.running k is)
    (hi : i ∈ s.running k → i ∈ is) : s'.Pending i := by
  obtain ⟨k', hk'⟩ := h
  by_cases hk : k' = k
  · rw [hk] at hk'
    exact pending_of_mem hrun (hi hk')
  · exact ⟨k', (mem_running_update hrun).mpr (.inr ⟨hk, hk'⟩)⟩

theorem pending_cases (hrun : s'.running = Function.update s.running k is) (h : s'.Pending i) :
    i ∈ is ∨ s.Pending i := by
  obtain ⟨k', hk'⟩ := h
  rcases (mem_running_update hrun).mp hk' with ⟨-, hi⟩ | ⟨-, hi⟩
  · exact .inl hi
  · exact .inr ⟨k', hi⟩

theorem queue_update (hrun : s'.running = Function.update s.running k is)
    (h : ∀ k, (s.running k).Pairwise fun i j => i.Stops → j.Stops)
    (his : is.Pairwise fun i j => i.Stops → j.Stops) (k' : κ) :
    (s'.running k').Pairwise fun i j => i.Stops → j.Stops := by
  rw [hrun]
  by_cases hk : k' = k
  · rw [hk, Function.update_self]
    exact his
  · rw [Function.update_of_ne hk]
    exact h k'

end Running

/-! ## Steps that add nothing to the cache, the logs and the flags -/

/-- The logs and the items of the second state are those of the first, logged out or not. -/
structure Shrinks (s s' : OnlineServer κ) : Prop where
  users : s'.db.users = s.db.users
  logs : ∀ r ∈ s'.db.loginLogs, ∃ r₀ ∈ s.db.loginLogs, r₀.id = r.id ∧ r₀.username = r.username ∧
    (isAlive r = true → isAlive r₀ = true)
  tokens : ∀ c ∈ s'.tokens, c ∈ s.tokens

theorem Shrinks.holds (hs : Shrinks s s') (h : s'.Holds t id) : s.Holds t id := by
  obtain ⟨c, hc, hfacts⟩ := h
  exact ⟨c, hs.tokens c hc, hfacts⟩

theorem Shrinks.named (hs : Shrinks s s') : s'.Named id name ↔ s.Named id name := by
  unfold Named
  rw [hs.users]

theorem Shrinks.closed (hs : Shrinks s s')
    (h : ∀ r ∈ s.db.loginLogs, r.id = t → isAlive r = false) :
    ∀ r ∈ s'.db.loginLogs, r.id = t → isAlive r = false := by
  intro r hr hid
  obtain ⟨r₀, hr₀, hid₀, -, halive⟩ := hs.logs r hr
  by_contra hne
  have hr₁ := halive (by simpa using hne)
  rw [h r₀ hr₀ (hid₀.trans hid)] at hr₁
  cases hr₁

theorem Valid.shrink (hs : Shrinks s s') (h : s.Valid i) : s'.Valid i := by
  cases i with
  | onEvicted t => exact fun c hc => h c (hs.tokens c hc)
  | updateLogoutTime t name deletesLog =>
    obtain ⟨hne, hname, huncached⟩ := h
    refine ⟨hne, fun r hr hid => ?_, fun hb c hc => huncached hb c (hs.tokens c hc)⟩
    obtain ⟨r₀, hr₀, hid₀, hname₀, -⟩ := hs.logs r hr
    exact hname₀.symm.trans (hname r₀ hr₀ (hid₀.trans hid))
  | logout t deletesLog => exact fun hb => hs.closed (h hb)
  | deleteById t => exact ⟨hs.closed h.1, fun c hc => h.2 c (hs.tokens c hc)⟩
  | updateOnline name =>
    intro r hr hname halive id hholds
    obtain ⟨r₀, hr₀, hid₀, hname₀, halive₀⟩ := hs.logs r hr
    have hholds₀ : s.Holds r₀.id id := hid₀ ▸ hs.holds hholds
    exact h r₀ hr₀ (hname₀.trans hname) (halive₀ halive) id hholds₀
  | _ => trivial

theorem Inv.loginAt_of_with (h : Inv s) (ht : s.LoggingInWith t) :
    ∃ k i l user, i ∈ s.running k ∧ s.LoginAt k i l user ∧ l.token = t := by
  obtain ⟨i, l, user, ⟨k, hk⟩, hl, htoken⟩ := ht
  exact ⟨k, i, l, user, hk, h.login k i l user hk hl, htoken⟩

/-- A statement that logs a token out is not about a login in progress. -/
theorem Inv.not_loggingInWith (h : Inv s) (hi : s.Pending i) (hends : i.Ends t) :
    ¬ s.LoggingInWith t := by
  intro ht
  obtain ⟨k, j, l, user, -, hat, rfl⟩ := h.loginAt_of_with ht
  exact hat.ends i hi hends

/-- Nor is a token that has a log. -/
theorem Inv.not_loggingInWith_of_log (h : Inv s) (hr : r ∈ s.db.loginLogs) :
    ¬ s.LoggingInWith r.id := by
  intro ht
  obtain ⟨k, j, l, user, -, hat, htoken⟩ := h.loginAt_of_with ht
  exact hat.log r hr htoken.symm

theorem Inv.not_loggingIn (h : Inv s) (hi : s.Pending (.updateOnline name)) :
    ¬ s.LoggingIn name := by
  rintro ⟨i, l, user, ⟨k, hk⟩, hl, rfl⟩
  exact (h.login k i l user hk hl).clear hi

/-- An operation that is not a login has no statement of one. -/
theorem Inv.login?_eq_none (h : Inv s) (hk : s.running k = i :: rest) (hi : i.login? = none) :
    ∀ j ∈ s.running k, j.login? = none := by
  intro j hj
  cases hl : j.login? with
  | none => rfl
  | some p =>
    obtain ⟨l, user⟩ := p
    have halone := (h.login k j l user hj hl).alone
    rw [hk] at halone
    obtain ⟨rfl, -⟩ := List.cons.inj halone
    rw [hi] at hl
    cases hl

theorem Inv.login_rest (h : Inv s) (hk : s.running k = i :: rest) (hi : i.login? = some (l, user)) :
    s.LoginAt k i l user ∧ rest = [] := by
  have hmem : i ∈ s.running k := by
    rw [hk]
    exact List.mem_cons_self
  have hat := h.login k i l user hmem hi
  have halone := hat.alone
  rw [hk] at halone
  exact ⟨hat, (List.cons.inj halone).2⟩

/-- What a new statement of an operation needs. -/
structure Admissible (s s' : OnlineServer κ) (j : OnlineStatement) : Prop where
  login : j.login? = none
  goes : ¬ j.Stops
  valid : s'.Valid j
  ends : ∀ t, j.Ends t → ¬ s.LoggingInWith t
  clear : ∀ name, j = .updateOnline name → ¬ s.LoggingIn name

/-- `DeleteById` follows a logout in `DeleteLoginLogs`. -/
def deletesAfter (t : String) (b : Bool) : List OnlineStatement :=
  if b then [.deleteById t] else []

theorem admissible_deleteById (h : Inv s) (hpending : s.Pending (.logout t b))
    (hvalid : s'.Valid (.logout t b)) (huncached : ∀ c ∈ s'.tokens, c.key ≠ t)
    (hj : j ∈ deletesAfter t b) : Admissible s s' j := by
  cases b with
  | false => exact absurd hj List.not_mem_nil
  | true =>
    rw [List.mem_singleton.mp hj]
    refine ⟨rfl, fun hstop => hstop, ⟨hvalid rfl, huncached⟩, fun t' hends => ?_,
      fun _ heq => by cases heq⟩
    exact h.not_loggingInWith hpending hends

section Steps

variable [DecidableEq κ]

/-- A step of an operation that is not a login, and that adds nothing: what has to be shown is what the
new statements need, and that the reasons of the flags and the logs of the tokens stay. -/
theorem Inv.shrink (h : Inv s) (hs : Shrinks s s')
    (hrun : s'.running = Function.update s.running k is)
    (hold : ∀ j ∈ s.running k, j.login? = none) (hnew : ∀ j ∈ is, j.login? = none)
    (hqueue : is.Pairwise fun i j => i.Stops → j.Stops) (hvalid : ∀ j ∈ is, s'.Valid j)
    (hends : ∀ j ∈ is, ∀ t, j.Ends t → ¬ s.LoggingInWith t)
    (hclear : ∀ name, OnlineStatement.updateOnline name ∈ is → ¬ s.LoggingIn name)
    (hlogin : ∀ i l user, s.Pending i → i.login? = some (l, user) →
      (s.Holds l.token user.id → s'.Holds l.token user.id) ∧
        (s.online user.id = true → s'.online user.id = true))
    (hlogged : ∀ t id, s'.Holds t id → s.Logged t id → s'.Logged t id)
    (hbacked : ∀ u ∈ s.db.users, s'.online u.id = true → s.online u.id = true ∧
      (s.Backed u → s'.Backed u))
    (halive : ∀ r ∈ s'.db.loginLogs, isAlive r = true → ∀ id, s'.Holds r.id id →
      ∀ u ∈ s.db.users, u.username = r.username → s.online u.id = true → s'.online u.id = true) :
    Inv s' := by
  have hlogins {k' i l user} (hi : i ∈ s'.running k') (hl : i.login? = some (l, user)) :
      k' ≠ k ∧ i ∈ s.running k' := by
    rcases (mem_running_update hrun).mp hi with ⟨-, hi⟩ | hi
    · rw [hnew i hi] at hl
      cases hl
    · exact hi
  refine
    { queue := queue_update hrun h.queue hqueue
      ids := fun u hu => h.ids u (hs.users ▸ hu)
      names := fun u hu v hv => h.names u (hs.users ▸ hu) v (hs.users ▸ hv)
      logIds := fun r hr => ?_
      login := fun k' i l user hi hl => ?_
      valid := fun i hi => ?_
      tokens := fun t id hholds => ?_
      backed := fun u hu honline => ?_
      alive := fun r hr hal id hholds u hu hname => ?_ }
  · obtain ⟨r₀, hr₀, hid₀, -⟩ := hs.logs r hr
    rw [← hid₀]
    exact h.logIds r₀ hr₀
  · obtain ⟨hk', hi'⟩ := hlogins hi hl
    have hat := h.login k' i l user hi' hl
    have hpending : s.Pending i := ⟨k', hi'⟩
    obtain ⟨hholds, honline⟩ := hlogin i l user hpending hl
    refine
      { alone := ?_
        only := fun k'' j l' user' hj hl' htoken => ?_
        uuid := hat.uuid
        log := fun r hr hid => ?_
        named := hs.named.mpr hat.named
        clear := fun hp => ?_
        ends := fun j hj hends' => ?_
        stage := ?_ }
    · rw [hrun, Function.update_of_ne hk']
      exact hat.alone
    · exact hat.only k'' j l' user' (hlogins hj hl').2 hl' htoken
    · obtain ⟨r₀, hr₀, hid₀, -⟩ := hs.logs r hr
      exact hat.log r₀ hr₀ (hid₀.trans hid)
    · rcases pending_cases hrun hp with hmem | hp
      · exact hclear l.username hmem ⟨i, l, user, hpending, hl, rfl⟩
      · exact hat.clear hp
    · rcases pending_cases hrun hj with hmem | hj
      · exact hends j hmem l.token hends' ⟨i, l, user, hpending, hl, rfl⟩
      · exact hat.ends j hj hends'
    · have hstage := hat.stage
      cases i with
      | setToken =>
        exact fun c hc => hstage c (hs.tokens c hc)
      | setOnline =>
        obtain ⟨rfl, rfl⟩ := Prod.mk.inj (Option.some.inj hl)
        exact hholds hstage
      | saveLoginLog =>
        obtain ⟨rfl, rfl⟩ := Prod.mk.inj (Option.some.inj hl)
        exact ⟨hholds hstage.1, honline hstage.2⟩
      | _ => cases hl
  · rcases pending_cases hrun hi with hmem | hi
    · exact hvalid i hmem
    · exact (h.valid i hi).shrink hs
  · rcases h.tokens t id (hs.holds hholds) with ⟨i, l, user, hi, hl, htoken, hid⟩ | hlog
    · refine .inl ⟨i, l, user, hi.keep hrun fun hmem => ?_, hl, htoken, hid⟩
      rw [hold i hmem] at hl
      cases hl
    · exact .inr (hlogged t id hholds hlog)
  · rw [hs.users] at hu
    obtain ⟨honline₀, hkeep⟩ := hbacked u hu honline
    exact hkeep (h.backed u hu honline₀)
  · rw [hs.users] at hu
    obtain ⟨r₀, hr₀, hid₀, hname₀, hal₀⟩ := hs.logs r hr
    have hholds₀ : s.Holds r₀.id id := hid₀ ▸ hs.holds hholds
    have honline := h.alive r₀ hr₀ (hal₀ hal) id hholds₀ u hu (hname.trans hname₀.symm)
    exact halive r hr hal id hholds u hu hname honline

theorem pairwise_stops {pushes : List OnlineStatement} (hpush : ∀ j ∈ pushes, ¬ j.Stops)
    (hrest : rest.Pairwise fun i j => i.Stops → j.Stops) :
    (pushes ++ rest).Pairwise fun i j => i.Stops → j.Stops := by
  induction pushes with
  | nil => exact hrest
  | cons j pushes ih =>
    obtain ⟨hj, hpushes⟩ := List.forall_mem_cons.mp hpush
    rw [List.cons_append, List.pairwise_cons]
    exact ⟨fun _ _ hstops => absurd hstops hj, ih hpushes⟩

/-- The operation `k` does its statement `i`, which leaves some new ones before the rest. -/
structure Advances (s s' : OnlineServer κ) (k : κ) (i : OnlineStatement)
    (pushes rest : List OnlineStatement) : Prop where
  before : s.running k = i :: rest
  after : s'.running = Function.update s.running k (pushes ++ rest)
  login : i.login? = none
  shrinks : Shrinks s s'

variable {pushes : List OnlineStatement}

theorem Advances.keep (ha : Advances s s' k i pushes rest) (hj : s.Pending j) (hne : j ≠ i) :
    s'.Pending j := by
  refine hj.keep ha.after fun hmem => ?_
  rw [ha.before] at hmem
  rcases List.mem_cons.mp hmem with rfl | hmem
  · exact absurd rfl hne
  · exact List.mem_append_right _ hmem

theorem Advances.pushed (ha : Advances s s' k i pushes rest) (hj : j ∈ pushes) : s'.Pending j :=
  pending_of_mem ha.after (List.mem_append_left _ hj)

theorem Advances.pending (ha : Advances s s' k i pushes rest) : s.Pending i := by
  refine ⟨k, ?_⟩
  rw [ha.before]
  exact List.mem_cons_self

/-- The reasons that a statement does not take away. -/
theorem Advances.backed (ha : Advances s s' k i pushes rest)
    (hlogs : ∀ r ∈ s.db.loginLogs, isAlive r = true → r.username = u.username → s.OfToken r →
      s'.Backed u)
    (hcount : i = .findAliveLoginLogs u.username → s'.Backed u)
    (hclear : i = .updateOnline u.username → s'.Backed u) (h : s.Backed u) : s'.Backed u := by
  rcases h with ⟨r, hr, hal, hname, hof⟩ | hp | hp | ⟨j, l, user, hj, hl, hid⟩
  · exact hlogs r hr hal hname hof
  · by_cases hi : i = .findAliveLoginLogs u.username
    · exact hcount hi
    · exact .inr (.inl (ha.keep hp (Ne.symm hi)))
  · by_cases hi : i = .updateOnline u.username
    · exact hclear hi
    · exact .inr (.inr (.inl (ha.keep hp (Ne.symm hi))))
  · refine .inr (.inr (.inr ⟨j, l, user, ha.keep hj fun heq => ?_, hl, hid⟩))
    rw [heq, ha.login] at hl
    cases hl

theorem Advances.ofToken (ha : Advances s s' k i pushes rest)
    (hholds : ∀ id, s.Holds r.id id → s'.OfToken r) (hevicted : i = .onEvicted r.id → s'.OfToken r)
    (hupdate : ∀ name b, i = .updateLogoutTime r.id name b → s'.OfToken r) (h : s.OfToken r) :
    s'.OfToken r := by
  rcases h with ⟨id, h⟩ | hp | ⟨name, b, hp⟩
  · exact hholds id h
  · by_cases hi : i = .onEvicted r.id
    · exact hevicted hi
    · exact .inr (.inl (ha.keep hp (Ne.symm hi)))
  · by_cases hi : i = .updateLogoutTime r.id name b
    · exact hupdate name b hi
    · exact .inr (.inr ⟨name, b, ha.keep hp (Ne.symm hi)⟩)

/-- **Step lemma** of the statements that are not those of a login. -/
theorem Inv.advance (h : Inv s) (ha : Advances s s' k i pushes rest)
    (hpush : ∀ j ∈ pushes, Admissible s s' j)
    (hlogin : ∀ j l user, s.Pending j → j.login? = some (l, user) →
      (s.Holds l.token user.id → s'.Holds l.token user.id) ∧
        (s.online user.id = true → s'.online user.id = true))
    (hlogged : ∀ t id, s'.Holds t id → s.Logged t id → s'.Logged t id)
    (hbacked : ∀ u ∈ s.db.users, s'.online u.id = true → s.online u.id = true ∧
      (s.Backed u → s'.Backed u))
    (halive : ∀ r ∈ s'.db.loginLogs, isAlive r = true → ∀ id, s'.Holds r.id id →
      ∀ u ∈ s.db.users, u.username = r.username → s.online u.id = true → s'.online u.id = true) :
    Inv s' := by
  have hold := h.login?_eq_none ha.before ha.login
  have hrest : ∀ j ∈ rest, s.Pending j := by
    intro j hj
    refine ⟨k, ?_⟩
    rw [ha.before]
    exact List.mem_cons_of_mem i hj
  have hqueue := h.queue k
  rw [ha.before, List.pairwise_cons] at hqueue
  refine h.shrink ha.shrinks ha.after hold (fun j hj => ?_)
    (pairwise_stops (fun j hj => (hpush j hj).goes) hqueue.2) (fun j hj => ?_)
    (fun j hj t hends => ?_) (fun name hmem => ?_) hlogin hlogged hbacked halive
  · rcases List.mem_append.mp hj with hj | hj
    · exact (hpush j hj).login
    · exact hold j (by rw [ha.before]; exact List.mem_cons_of_mem i hj)
  · rcases List.mem_append.mp hj with hj | hj
    · exact (hpush j hj).valid
    · exact (h.valid j (hrest j hj)).shrink ha.shrinks
  · rcases List.mem_append.mp hj with hj | hj
    · exact (hpush j hj).ends t hends
    · exact h.not_loggingInWith (hrest j hj) hends
  · rcases List.mem_append.mp hmem with hmem | hmem
    · exact (hpush _ hmem).clear name rfl
    · exact h.not_loggingIn (hrest _ hmem)

/-! ## The statements of a logout -/

/-- A statement that changes nothing but what is left to do. -/
theorem Shrinks.goOn (s : OnlineServer κ) (k : κ) (is : List OnlineStatement) :
    Shrinks s (s.goOn k is) :=
  ⟨rfl, fun r hr => ⟨r, hr, rfl, rfl, id⟩, fun _ hc => hc⟩

theorem Inv.goOn (h : Inv s) (pushes : List OnlineStatement) (hk : s.running k = i :: rest) (hi : i.login? = none)
    (hpush : ∀ j ∈ pushes, Admissible s (s.goOn k (pushes ++ rest)) j)
    (hlogout : ∀ t b, i = .logout t b → ∀ id, ¬ s.Holds t id)
    (hbacked : Advances s (s.goOn k (pushes ++ rest)) k i pushes rest → ∀ u ∈ s.db.users,
      s.online u.id = true → s.Backed u → (s.goOn k (pushes ++ rest)).Backed u) :
    Inv (s.goOn k (pushes ++ rest)) := by
  have ha : Advances s (s.goOn k (pushes ++ rest)) k i pushes rest :=
    ⟨hk, rfl, hi, Shrinks.goOn s k _⟩
  refine h.advance ha hpush (fun j l user _ _ => ⟨id, id⟩) (fun t id hholds hlog => ?_)
    (fun u hu honline => ⟨honline, hbacked ha u hu honline⟩)
    (fun _ _ _ _ _ _ _ _ honline => honline)
  obtain ⟨r, hr, hid, hnamed, hal | ⟨b, hp⟩⟩ := hlog
  · exact ⟨r, hr, hid, hnamed, .inl hal⟩
  · refine ⟨r, hr, hid, hnamed, .inr ⟨b, ha.keep hp fun heq => ?_⟩⟩
    exact hlogout t b heq.symm id hholds

/-- A statement that may end its operation does. -/
theorem Inv.stop (h : Inv s) (hk : s.running k = i :: rest) (hi : i.Stops) : Inv (s.goOn k []) := by
  have hlogin : i.login? = none := by
    cases i with
    | deleteLoginLog => rfl
    | findUser => rfl
    | _ => exact hi.elim
  have hqueue := h.queue k
  rw [hk, List.pairwise_cons] at hqueue
  have hstops : ∀ j ∈ s.running k, j.Stops := by
    intro j hj
    rw [hk] at hj
    rcases List.mem_cons.mp hj with rfl | hj
    · exact hi
    · exact hqueue.1 j hj hi
  have hrun : (s.goOn k []).running = Function.update s.running k [] := rfl
  have hkeep {j : OnlineStatement} (hj : s.Pending j) (hgo : ¬ j.Stops) :
      (s.goOn k []).Pending j := hj.keep hrun fun hmem => absurd (hstops j hmem) hgo
  refine h.shrink (Shrinks.goOn s k []) hrun (h.login?_eq_none hk hlogin)
    (fun _ hj => absurd hj List.not_mem_nil) List.Pairwise.nil
    (fun _ hj => absurd hj List.not_mem_nil) (fun _ hj => absurd hj List.not_mem_nil)
    (fun _ hj => absurd hj List.not_mem_nil) (fun j l user _ _ => ⟨id, id⟩) (fun t id _ hlog => ?_)
    (fun u hu honline => ⟨honline, fun hb => ?_⟩) (fun _ _ _ _ _ _ _ _ honline => honline)
  · obtain ⟨r, hr, hid, hnamed, hal | ⟨b, hp⟩⟩ := hlog
    · exact ⟨r, hr, hid, hnamed, .inl hal⟩
    · exact ⟨r, hr, hid, hnamed, .inr ⟨b, hkeep hp fun hstop => hstop⟩⟩
  · rcases hb with ⟨r, hr, hal, hname, hof⟩ | hp | hp | ⟨j, l, user, hj, hl, hid⟩
    · refine .inl ⟨r, hr, hal, hname, ?_⟩
      rcases hof with hholds | hp | ⟨name, b, hp⟩
      · exact .inl hholds
      · exact .inr (.inl (hkeep hp fun hstop => hstop))
      · exact .inr (.inr ⟨name, b, hkeep hp fun hstop => hstop⟩)
    · exact .inr (.inl (hkeep hp fun hstop => hstop))
    · exact .inr (.inr (.inl (hkeep hp fun hstop => hstop)))
    · refine .inr (.inr (.inr ⟨j, l, user, hkeep hj fun hstop => ?_, hl, hid⟩))
      cases j with
      | deleteLoginLog => cases hl
      | findUser => cases hl
      | _ => exact hstop

/-- A statement that takes no reason of a flag away. -/
theorem Advances.backed_of_ne (ha : Advances s (s.goOn k (pushes ++ rest)) k i pushes rest)
    (hevicted : ∀ r ∈ s.db.loginLogs, isAlive r = true → i = .onEvicted r.id →
      (s.goOn k (pushes ++ rest)).OfToken r)
    (hupdate : ∀ t name b, i ≠ .updateLogoutTime t name b)
    (hcount : i ≠ .findAliveLoginLogs u.username) (hclear : i ≠ .updateOnline u.username)
    (h : s.Backed u) : (s.goOn k (pushes ++ rest)).Backed u := by
  refine ha.backed (fun r hr hal hname hof => .inl ⟨r, hr, hal, hname, ?_⟩)
    (fun heq => absurd heq hcount) (fun heq => absurd heq hclear) h
  exact ha.ofToken (fun id hholds => .inl ⟨id, hholds⟩) (hevicted r hr hal)
    (fun name b heq => absurd heq (hupdate _ name b)) hof

theorem Inv.execOnEvicted (h : Inv s) (hk : s.running k = .onEvicted t :: rest) :
    Inv (s.exec k rest (.onEvicted t)) := by
  have hpending : s.Pending (.onEvicted t) := ⟨k, by rw [hk]; exact List.mem_cons_self⟩
  have hrestOf (hnone : ∀ r ∈ s.db.loginLogs, isAlive r = true → r.id ≠ t) :
      Inv (s.goOn k ([] ++ rest)) := by
    refine h.goOn _ hk rfl (fun _ hj => absurd hj List.not_mem_nil) (fun _ _ heq => by cases heq)
      fun ha u hu _ hb => ha.backed_of_ne (fun r hr hal heq => ?_) (fun _ _ _ heq => by cases heq)
        (fun heq => by cases heq) (fun heq => by cases heq) hb
    exact absurd (OnlineStatement.onEvicted.inj heq).symm (hnone r hr hal)
  dsimp only [exec]
  by_cases hforever : isForever t = true
  · rw [if_pos hforever]
    refine hrestOf fun r hr _ hid => ?_
    rw [← hid, (h.logIds r hr).2] at hforever
    cases hforever
  · rw [if_neg hforever]
    split
    · next err herr =>
      refine hrestOf fun r hr _ hid => ?_
      have hfind : LoginLogRepository.findById s.db t = .ok r :=
        firstOrNotFound_eq_ok.mpr (Table.findById_eq_some.mpr ⟨hr, hid⟩)
      rw [hfind] at herr
      cases herr
    · next l hfind =>
      obtain ⟨hl, rfl⟩ := Table.findById_eq_some.mp (firstOrNotFound_eq_ok.mp hfind)
      have hnot := h.not_loggingInWith hpending rfl
      have hadmissible : Admissible s (s.goOn k ([.updateLogoutTime l.id l.username false] ++ rest))
          (.updateLogoutTime l.id l.username false) := by
        refine ⟨rfl, fun hstop => hstop, ⟨(h.logIds l hl).1, fun r hr hid => ?_, fun _ => ?_⟩,
          fun t' hends => ?_, fun _ heq => by cases heq⟩
        · rw [Table.eq_of_key hr hl hid]
        · exact h.valid _ hpending
        · obtain rfl : l.id = t' := hends
          exact hnot
      refine h.goOn [.updateLogoutTime l.id l.username false] hk rfl (fun j hj => ?_)
        (fun _ _ heq => by cases heq) fun ha u hu _ hb => ha.backed_of_ne (fun r hr hal heq => ?_)
          (fun _ _ _ heq => by cases heq) (fun heq => by cases heq) (fun heq => by cases heq) hb
      · rw [List.mem_singleton.mp hj]
        exact hadmissible
      · have hid := OnlineStatement.onEvicted.inj heq
        refine .inr (.inr ⟨l.username, false, ?_⟩)
        rw [← hid]
        exact ha.pushed (List.mem_singleton.mpr rfl)

theorem Inv.execDeleteLoginLog (h : Inv s) (hk : s.running k = .deleteLoginLog t :: rest) :
    Inv (s.exec k rest (.deleteLoginLog t)) := by
  dsimp only [exec]
  split
  · exact h.stop hk trivial
  · next l hfind =>
    obtain ⟨hl, rfl⟩ := Table.findById_eq_some.mp (firstOrNotFound_eq_ok.mp hfind)
    have hadmissible : Admissible s (s.goOn k ([.updateLogoutTime l.id l.username true] ++ rest))
        (.updateLogoutTime l.id l.username true) := by
      refine ⟨rfl, fun hstop => hstop, ⟨(h.logIds l hl).1, fun r hr hid => ?_, fun hb => ?_⟩,
        fun t' hends => ?_, fun _ heq => by cases heq⟩
      · rw [Table.eq_of_key hr hl hid]
      · cases hb
      · obtain rfl : l.id = t' := hends
        exact h.not_loggingInWith_of_log hl
    refine h.goOn [.updateLogoutTime l.id l.username true] hk rfl (fun j hj => ?_)
      (fun _ _ heq => by cases heq) fun ha u hu _ hb => ha.backed_of_ne
        (fun r hr hal heq => by cases heq) (fun _ _ _ heq => by cases heq)
        (fun heq => by cases heq) (fun heq => by cases heq) hb
    rw [List.mem_singleton.mp hj]
    exact hadmissible

theorem Inv.execFindUser (h : Inv s) (hk : s.running k = .findUser id :: rest) :
    Inv (s.exec k rest (.findUser id)) := by
  dsimp only [exec]
  split
  · exact h.stop hk trivial
  · next user hfind =>
    refine h.goOn [.findTokens user.username] hk rfl (fun j hj => ?_)
      (fun _ _ heq => by cases heq) fun ha u hu _ hb => ha.backed_of_ne
        (fun r hr hal heq => by cases heq) (fun _ _ _ heq => by cases heq)
        (fun heq => by cases heq) (fun heq => by cases heq) hb
    rw [List.mem_singleton.mp hj]
    exact ⟨rfl, fun hstop => hstop, trivial, fun _ hends => hends.elim, fun _ heq => by cases heq⟩

theorem Inv.execFindTokens (h : Inv s) (hk : s.running k = .findTokens name :: rest) :
    Inv (s.exec k rest (.findTokens name)) := by
  dsimp only [exec]
  refine h.goOn _ hk rfl (fun j hj => ?_)
    (fun _ _ heq => by cases heq) fun ha u hu _ hb => ha.backed_of_ne
      (fun r hr hal heq => by cases heq) (fun _ _ _ heq => by cases heq)
      (fun heq => by cases heq) (fun heq => by cases heq) hb
  obtain ⟨l, hl, rfl⟩ := List.mem_map.mp hj
  have hmem : l ∈ s.db.loginLogs := (List.mem_filter.mp hl).1
  refine ⟨rfl, fun hstop => hstop, fun hb => (by cases hb), fun t hends => ?_,
    fun _ heq => by cases heq⟩
  obtain rfl : l.id = t := hends
  exact h.not_loggingInWith_of_log hmem

theorem Inv.execFindAliveLoginLogs (h : Inv s)
    (hk : s.running k = .findAliveLoginLogs name :: rest)
    (hcounts : s.CountsTokens (.findAliveLoginLogs name)) :
    Inv (s.exec k rest (.findAliveLoginLogs name)) := by
  obtain ⟨hnot, htoken⟩ := hcounts
  dsimp only [exec]
  by_cases hnone : (findAliveLoginLogsByUsername s.db name).isEmpty = true
  · rw [if_pos hnone]
    have hempty : ∀ r ∈ s.db.loginLogs, r.username = name → isAlive r = true → False := by
      intro r hr hname hal
      have hmem : r ∈ findAliveLoginLogsByUsername s.db name :=
        List.mem_filter.mpr ⟨hr, by simp [hal, hname]⟩
      rw [List.isEmpty_iff.mp hnone] at hmem
      exact absurd hmem List.not_mem_nil
    refine h.goOn [.updateOnline name] hk rfl (fun j hj => ?_)
      (fun _ _ heq => by cases heq) fun ha u hu _ hb => ?_
    · rw [List.mem_singleton.mp hj]
      refine ⟨rfl, fun hstop => hstop, fun r hr hname hal => (hempty r hr hname hal).elim,
        fun _ hends => hends.elim, fun name' heq => ?_⟩
      obtain rfl := OnlineStatement.updateOnline.inj heq
      exact hnot
    · refine ha.backed (fun r hr hal hname hof => ?_) (fun heq => ?_) (fun heq => by cases heq) hb
      · refine .inl ⟨r, hr, hal, hname, ?_⟩
        exact ha.ofToken (fun id hholds => .inl ⟨id, hholds⟩) (fun heq => by cases heq)
          (fun _ _ heq => by cases heq) hof
      · have hname := OnlineStatement.findAliveLoginLogs.inj heq
        refine .inr (.inr (.inl ?_))
        rw [← hname]
        exact ha.pushed (List.mem_singleton.mpr rfl)
  · rw [if_neg hnone]
    refine h.goOn [] hk rfl (fun _ hj => absurd hj List.not_mem_nil)
      (fun _ _ heq => by cases heq) fun ha u hu _ hb => ?_
    have hof {r : LoginLog} (hof : s.OfToken r) : (s.goOn k ([] ++ rest)).OfToken r :=
      ha.ofToken (fun id hholds => .inl ⟨id, hholds⟩) (fun heq => by cases heq)
        (fun _ _ heq => by cases heq) hof
    refine ha.backed (fun r hr hal hname hr' => .inl ⟨r, hr, hal, hname, hof hr'⟩) (fun heq => ?_)
      (fun heq => by cases heq) hb
    have hne : findAliveLoginLogsByUsername s.db name ≠ [] :=
      fun hnil => hnone (by rw [hnil]; rfl)
    obtain ⟨r₀, hr₀⟩ := List.exists_mem_of_ne_nil _ hne
    obtain ⟨hmem, hfacts⟩ := List.mem_filter.mp hr₀
    simp only [Bool.and_eq_true, beq_iff_eq] at hfacts
    obtain ⟨r, hr, hal, hname, hr'⟩ := htoken ⟨r₀, hmem, hfacts⟩
    exact .inl ⟨r, hr, hal, hname.trans (OnlineStatement.findAliveLoginLogs.inj heq), hof hr'⟩

theorem Inv.execLogout (h : Inv s) (hk : s.running k = .logout t b :: rest) :
    Inv (s.exec k rest (.logout t b)) := by
  have hpending : s.Pending (.logout t b) := ⟨k, by rw [hk]; exact List.mem_cons_self⟩
  have hdel : (if b = true then OnlineStatement.deleteById t :: rest else rest) =
      deletesAfter t b ++ rest := by
    cases b with
    | false => rfl
    | true => rfl
  dsimp only [exec]
  rw [hdel]
  by_cases hcached : (s.tokens.findById t).isSome = true
  · rw [if_pos hcached]
    have hshrinks : Shrinks s ({ s with tokens := s.tokens.deleteWhere fun c => c.key == t }.goOn k
        ((OnlineStatement.onEvicted t :: deletesAfter t b) ++ rest)) :=
      ⟨rfl, fun r hr => ⟨r, hr, rfl, rfl, id⟩, fun c hc => (Table.mem_deleteWhere.mp hc).1⟩
    have huncached : ∀ c ∈ s.tokens.deleteWhere fun c => c.key == t, c.key ≠ t := by
      intro c hc
      have hne := (Table.mem_deleteWhere.mp hc).2
      simpa using hne
    have ha : Advances s ({ s with tokens := s.tokens.deleteWhere fun c => c.key == t }.goOn k
        ((OnlineStatement.onEvicted t :: deletesAfter t b) ++ rest)) k (.logout t b)
        (.onEvicted t :: deletesAfter t b) rest := ⟨hk, rfl, rfl, hshrinks⟩
    have hkept {t' id : String} (hne : t' ≠ t) (hholds : s.Holds t' id) :
        ({ s with tokens := s.tokens.deleteWhere fun c => c.key == t }.goOn k
          ((OnlineStatement.onEvicted t :: deletesAfter t b) ++ rest)).Holds t' id := by
      obtain ⟨c, hc, rfl, hfacts⟩ := hholds
      exact ⟨c, Table.mem_deleteWhere.mpr ⟨hc, by simpa using hne⟩, rfl, hfacts⟩
    refine h.advance ha (fun j hj => ?_) (fun j l user hj hl => ⟨fun hholds => hkept ?_ hholds, id⟩)
      (fun t' id hholds hlog => ?_) (fun u hu honline => ⟨honline, fun hb => ?_⟩)
      (fun _ _ _ _ _ _ _ _ honline => honline)
    · rcases List.mem_cons.mp hj with rfl | hj
      · refine ⟨rfl, fun hstop => hstop, huncached, fun t' hends => ?_, fun _ heq => by cases heq⟩
        obtain rfl : t = t' := hends
        exact h.not_loggingInWith hpending rfl
      · exact admissible_deleteById h hpending ((h.valid _ hpending).shrink hshrinks) huncached hj
    · rintro rfl
      exact h.not_loggingInWith hpending rfl ⟨j, l, user, hj, hl, rfl⟩
    · have hne : t' ≠ t := by
        obtain ⟨c, hc, rfl, -⟩ := hholds
        exact huncached c hc
      obtain ⟨r, hr, hid, hnamed, hal | ⟨b', hp⟩⟩ := hlog
      · exact ⟨r, hr, hid, hnamed, .inl hal⟩
      · refine ⟨r, hr, hid, hnamed, .inr ⟨b', ha.keep hp fun heq => ?_⟩⟩
        exact hne (OnlineStatement.logout.inj heq).1
    · refine ha.backed (fun r hr hal hname hof => .inl ⟨r, hr, hal, hname, ?_⟩)
        (fun heq => by cases heq) (fun heq => by cases heq) hb
      refine ha.ofToken (fun id hholds => ?_) (fun heq => by cases heq) (fun _ _ heq => by cases heq)
        hof
      by_cases hid : r.id = t
      · rw [hid] at hholds
        refine .inr (.inl ?_)
        rw [hid]
        exact ha.pushed List.mem_cons_self
      · exact .inl ⟨id, hkept hid hholds⟩
  · rw [if_neg hcached]
    have huncached : ∀ c ∈ s.tokens, c.key ≠ t := by
      intro c hc hkey
      have hfind : s.tokens.findById t = some c := Table.findById_eq_some.mpr ⟨hc, hkey⟩
      rw [hfind] at hcached
      exact hcached rfl
    refine h.goOn _ hk rfl
      (fun j hj => admissible_deleteById h hpending (h.valid _ hpending) huncached hj)
      (fun t' b' heq id hholds => ?_) fun ha u hu _ hb => ha.backed_of_ne
        (fun r hr hal heq => by cases heq) (fun _ _ _ heq => by cases heq)
        (fun heq => by cases heq) (fun heq => by cases heq) hb
    obtain ⟨c, hc, hkey, -⟩ := hholds
    exact huncached c hc (hkey.trans (OnlineStatement.logout.inj heq).1.symm)

theorem Inv.execDeleteById (h : Inv s) (hk : s.running k = .deleteById t :: rest) :
    Inv (s.exec k rest (.deleteById t)) := by
  have hpending : s.Pending (.deleteById t) := ⟨k, by rw [hk]; exact List.mem_cons_self⟩
  obtain ⟨hclosed, huncached⟩ := h.valid _ hpending
  have hkept {r : LoginLog} (hr : r ∈ s.db.loginLogs) (hne : r.id ≠ t) :
      r ∈ (LoginLogRepository.deleteById s.db t).loginLogs :=
    Table.mem_deleteWhere.mpr ⟨hr, by simpa using hne⟩
  have hshrinks : Shrinks s ({ s with db := LoginLogRepository.deleteById s.db t }.goOn k
      ([] ++ rest)) :=
    ⟨rfl, fun r hr => ⟨r, (Table.mem_deleteWhere.mp hr).1, rfl, rfl, id⟩, fun _ hc => hc⟩
  have ha : Advances s ({ s with db := LoginLogRepository.deleteById s.db t }.goOn k ([] ++ rest)) k
      (.deleteById t) [] rest := ⟨hk, rfl, rfl, hshrinks⟩
  refine h.advance ha (fun _ hj => absurd hj List.not_mem_nil) (fun _ _ _ _ _ => ⟨id, id⟩)
    (fun t' id hholds hlog => ?_) (fun u hu honline => ⟨honline, fun hb => ?_⟩)
    (fun _ _ _ _ _ _ _ _ honline => honline)
  · obtain ⟨c, hc, hkey, -⟩ := hholds
    obtain ⟨r, hr, hid, hnamed, hal⟩ := hlog
    have hne : r.id ≠ t := fun heq => huncached c hc (hkey.trans (hid.symm.trans heq))
    refine ⟨r, hkept hr hne, hid, hnamed, hal.imp_right ?_⟩
    rintro ⟨b', hp⟩
    exact ⟨b', ha.keep hp fun heq => by cases heq⟩
  · refine ha.backed (fun r hr hal hname hof => ?_) (fun heq => by cases heq)
      (fun heq => by cases heq) hb
    have hne : r.id ≠ t := by
      intro heq
      rw [hclosed r hr heq] at hal
      cases hal
    exact .inl ⟨r, hkept hr hne, hal, hname, ha.ofToken (fun id hholds => .inl ⟨id, hholds⟩)
      (fun heq => by cases heq) (fun _ _ heq => by cases heq) hof⟩

theorem Inv.execUpdateOnline (h : Inv s) (hk : s.running k = .updateOnline name :: rest) :
    Inv (s.exec k rest (.updateOnline name)) := by
  have hpending : s.Pending (.updateOnline name) := ⟨k, by rw [hk]; exact List.mem_cons_self⟩
  have hflag {id : String} : (s.clearFlag name).online id = true ↔
      s.online id = true ∧ ¬ ∃ u ∈ s.db.users, u.id = id ∧ u.username = name := by
    simp only [clearFlag, Bool.and_eq_true, Bool.not_eq_true', decide_eq_false_iff_not]
  have ha : Advances s ((s.clearFlag name).goOn k ([] ++ rest)) k (.updateOnline name) [] rest :=
    ⟨hk, rfl, rfl, rfl, fun r hr => ⟨r, hr, rfl, rfl, id⟩, fun _ hc => hc⟩
  refine h.advance ha (fun _ hj => absurd hj List.not_mem_nil)
    (fun j l user hj hl => ⟨id, fun honline => hflag.mpr ⟨honline, ?_⟩⟩)
    (fun t id hholds hlog => ?_) (fun u hu honline => ⟨(hflag.mp honline).1, fun hb => ?_⟩)
    (fun r hr hal id hholds u hu hname honline => hflag.mpr ⟨honline, ?_⟩)
  · rintro ⟨u, hu, hid, hname⟩
    obtain ⟨k', hk'⟩ := hj
    have hat := h.login k' j l user hk' hl
    obtain ⟨v, hv, hvid, hvname⟩ := hat.named
    obtain rfl := Table.eq_of_key hu hv (hid.trans hvid.symm)
    have hclear := hat.clear
    rw [← hvname, hname] at hclear
    exact hclear hpending
  · obtain ⟨r, hr, hid, hnamed, hal | ⟨b', hp⟩⟩ := hlog
    · exact ⟨r, hr, hid, hnamed, .inl hal⟩
    · exact ⟨r, hr, hid, hnamed, .inr ⟨b', ha.keep hp fun heq => by cases heq⟩⟩
  · refine ha.backed (fun r hr hal hname hof => .inl ⟨r, hr, hal, hname, ?_⟩)
      (fun heq => by cases heq) (fun heq => ?_) hb
    · exact ha.ofToken (fun id hholds => .inl ⟨id, hholds⟩) (fun heq => by cases heq)
        (fun _ _ heq => by cases heq) hof
    · exact absurd ⟨u, hu, rfl, (OnlineStatement.updateOnline.inj heq).symm⟩ (hflag.mp honline).2
  · rintro ⟨v, hv, hid, hvname⟩
    obtain rfl := Table.eq_of_key hv hu hid
    exact h.valid _ hpending r hr (hname.symm.trans hvname) hal id hholds

def close (l : LoginLog) : LoginLog := { l with loggedOut := true }

theorem close_id (l : LoginLog) : (close l).id = l.id := rfl

/-- The logs after a logout time is written. -/
def closeLog (db : AccountDatabase) (t : String) : AccountDatabase :=
  { db with loginLogs := db.loginLogs.updateById t close close_id }

theorem updateLogoutTime_of_ne {db : AccountDatabase} (ht : t ≠ "") :
    LoginLogRepository.updateLogoutTime db t = .ok (closeLog db t) := if_neg ht

theorem closed_closeLog {db : AccountDatabase} (hr : r ∈ (closeLog db t).loginLogs) (hid : r.id = t) :
    isAlive r = false := by
  obtain ⟨r₀, -, -, rfl⟩ := Table.exists_of_mem_updateById close_id hr hid
  simp [isAlive, close]

theorem mem_closeLog {db : AccountDatabase} (hr : r ∈ (closeLog db t).loginLogs) :
    ∃ r₀ ∈ db.loginLogs, r₀.id = r.id ∧ r₀.username = r.username ∧
      (isAlive r = true → isAlive r₀ = true) := by
  rcases Table.mem_updateById close_id hr with hr | ⟨r₀, hr₀, -, rfl⟩
  · exact ⟨r, hr, rfl, rfl, id⟩
  · refine ⟨r₀, hr₀, rfl, rfl, fun hal => ?_⟩
    simp [isAlive, close] at hal

theorem exists_mem_closeLog {db : AccountDatabase} (hr : r ∈ db.loginLogs) (t : String) :
    ∃ r' ∈ (closeLog db t).loginLogs, r'.id = r.id ∧ r'.username = r.username := by
  obtain ⟨r', hr', hid⟩ := Table.exists_mem_updateById hr t close close_id
  obtain ⟨r₀, hr₀, hid₀, hname₀, -⟩ := mem_closeLog hr'
  obtain rfl := Table.eq_of_key hr₀ hr (hid₀.trans hid)
  exact ⟨r', hr', hid, hname₀.symm⟩

theorem Inv.execUpdateLogoutTime (h : Inv s)
    (hk : s.running k = .updateLogoutTime t name b :: rest) :
    Inv (s.exec k rest (.updateLogoutTime t name b)) := by
  have hpending : s.Pending (.updateLogoutTime t name b) :=
    ⟨k, by rw [hk]; exact List.mem_cons_self⟩
  obtain ⟨hne, hnames, huncached⟩ := h.valid _ hpending
  have hlist : OnlineStatement.findAliveLoginLogs name ::
      (if b = true then OnlineStatement.logout t true :: rest else rest) =
        (.findAliveLoginLogs name :: if b then [.logout t true] else []) ++ rest := by
    cases b with
    | false => rfl
    | true => rfl
  dsimp only [exec]
  rw [updateLogoutTime_of_ne hne]
  dsimp only
  rw [hlist]
  have hshrinks : Shrinks s ({ s with db := closeLog s.db t }.goOn k
      ((OnlineStatement.findAliveLoginLogs name :: if b then [.logout t true] else []) ++ rest)) :=
    ⟨rfl, fun r hr => mem_closeLog hr, fun _ hc => hc⟩
  have ha : Advances s ({ s with db := closeLog s.db t }.goOn k
      ((OnlineStatement.findAliveLoginLogs name :: if b then [.logout t true] else []) ++ rest)) k
      (.updateLogoutTime t name b)
      (.findAliveLoginLogs name :: if b then [.logout t true] else []) rest :=
    ⟨hk, rfl, rfl, hshrinks⟩
  refine h.advance ha (fun j hj => ?_) (fun _ _ _ _ _ => ⟨id, id⟩) (fun t' id hholds hlog => ?_)
    (fun u hu honline => ⟨honline, fun hb => ?_⟩) (fun _ _ _ _ _ _ _ _ honline => honline)
  · rcases List.mem_cons.mp hj with rfl | hj
    · exact ⟨rfl, fun hstop => hstop, trivial, fun _ hends => hends.elim, fun _ heq => by cases heq⟩
    · cases b with
      | false => exact absurd hj List.not_mem_nil
      | true =>
        rw [List.mem_singleton.mp hj]
        exact ⟨rfl, fun hstop => hstop, fun _ r hr hid => closed_closeLog hr hid,
          fun t' hends => h.not_loggingInWith hpending hends, fun _ heq => by cases heq⟩
  · obtain ⟨r, hr, hid, hnamed, hal⟩ := hlog
    by_cases ht : t' = t
    · obtain ⟨r', hr', hid', hname'⟩ := exists_mem_closeLog hr t
      refine ⟨r', hr', hid'.trans hid, hname' ▸ hnamed, .inr ⟨true, ?_⟩⟩
      cases b with
      | false =>
        obtain ⟨c, hc, hkey, -⟩ := hholds
        exact absurd (hkey.trans ht) (huncached rfl c hc)
      | true =>
        rw [ht]
        exact ha.pushed (List.mem_cons_of_mem _ (List.mem_singleton.mpr rfl))
    · have hmem : r ∈ (closeLog s.db t).loginLogs :=
        Table.mem_updateById_of_ne hr (fun heq => ht (hid.symm.trans heq)) close close_id
      refine ⟨r, hmem, hid, hnamed, hal.imp_right ?_⟩
      rintro ⟨b', hp⟩
      exact ⟨b', ha.keep hp fun heq => by cases heq⟩
  · refine ha.backed (fun r hr hal hname hof => ?_) (fun heq => by cases heq)
      (fun heq => by cases heq) hb
    by_cases hid : r.id = t
    · refine .inr (.inl ?_)
      rw [← hname, hnames r hr hid]
      exact ha.pushed List.mem_cons_self
    · have hmem : r ∈ (closeLog s.db t).loginLogs := Table.mem_updateById_of_ne hr hid close close_id
      refine .inl ⟨r, hmem, hal, hname, ?_⟩
      refine ha.ofToken (fun id hholds => .inl ⟨id, hholds⟩) (fun heq => by cases heq)
        (fun _ _ heq => ?_) hof
      exact absurd (OnlineStatement.updateLogoutTime.inj heq).1.symm hid

/-! ## The statements of a login -/

/-- A login does its statement `i`, and goes on with the next one unless it is done. -/
structure LogsIn (s s' : OnlineServer κ) (k : κ) (i : OnlineStatement)
    (following : Option OnlineStatement) (l : WebLogin) (user : User) : Prop where
  before : i ∈ s.running k
  after : s'.running = Function.update s.running k following.toList
  login : i.login? = some (l, user)
  goesOn : ∀ j ∈ following, j.login? = some (l, user) ∧ s'.Stage j
  users : s'.db.users = s.db.users
  logs : ∀ r ∈ s.db.loginLogs, r ∈ s'.db.loginLogs
  newLogs : ∀ r ∈ s'.db.loginLogs, r ∈ s.db.loginLogs ∨
    following = none ∧ r.id = l.token ∧ r.username = l.username
  tokens : ∀ c ∈ s.tokens, c.key ≠ l.token → c ∈ s'.tokens
  newTokens : ∀ c ∈ s'.tokens, c ∈ s.tokens ∨
    following ≠ none ∧ c.key = l.token ∧ c.value.user.id = user.id
  flags : ∀ id, s.online id = true → s'.online id = true
  newFlags : ∀ id, s'.online id = true → s.online id = true ∨ following ≠ none ∧ id = user.id
  done : following = none → s'.Holds l.token user.id ∧ s'.online user.id = true ∧
    ∃ r ∈ s'.db.loginLogs, isAlive r = true ∧ r.id = l.token ∧ r.username = l.username

section Logins

variable {following : Option OnlineStatement}

theorem LogsIn.mem (hs : LogsIn s s' k i following l user) (hj : j ∈ following.toList) :
    j.login? = some (l, user) ∧ s'.Stage j := hs.goesOn j (Option.mem_toList.mp hj)

theorem LogsIn.keep (hs : LogsIn s s' k i following l user) (hat : s.LoginAt k i l user)
    (hj : s.Pending j) (hne : j.login? = none) : s'.Pending j := by
  refine hj.keep hs.after fun hmem => ?_
  rw [hat.alone] at hmem
  rw [List.mem_singleton.mp hmem, hs.login] at hne
  cases hne

theorem LogsIn.pending_cases (hs : LogsIn s s' k i following l user) (hj : s'.Pending j) :
    s.Pending j ∨ j.login? = some (l, user) := by
  rcases OnlineServer.pending_cases hs.after hj with hmem | hj
  · exact .inr (hs.mem hmem).1
  · exact .inl hj

theorem LogsIn.holds (hs : LogsIn s s' k i following l user) (hne : t ≠ l.token) :
    s'.Holds t id ↔ s.Holds t id := by
  constructor
  · rintro ⟨c, hc, rfl, hfacts⟩
    rcases hs.newTokens c hc with hc | ⟨-, hkey, -⟩
    · exact ⟨c, hc, rfl, hfacts⟩
    · exact absurd hkey hne
  · rintro ⟨c, hc, rfl, hfacts⟩
    exact ⟨c, hs.tokens c hc hne, rfl, hfacts⟩

theorem LogsIn.named (hs : LogsIn s s' k i following l user) : s'.Named id name ↔ s.Named id name := by
  unfold Named
  rw [hs.users]

/-- A statement that ends a token is not about the token of the login. -/
theorem LogsIn.uncached (hs : LogsIn s s' k i following l user) (ht : t ≠ l.token)
    (h : ∀ c ∈ s.tokens, c.key ≠ t) : ∀ c ∈ s'.tokens, c.key ≠ t := by
  intro c hc
  rcases hs.newTokens c hc with hc | ⟨-, hkey, -⟩
  · exact h c hc
  · rw [hkey]
    exact Ne.symm ht

theorem LogsIn.closed (hs : LogsIn s s' k i following l user) (ht : t ≠ l.token)
    (h : ∀ r ∈ s.db.loginLogs, r.id = t → isAlive r = false) :
    ∀ r ∈ s'.db.loginLogs, r.id = t → isAlive r = false := by
  intro r hr hid
  rcases hs.newLogs r hr with hr | ⟨-, hkey, -⟩
  · exact h r hr hid
  · exact absurd (hid.symm.trans hkey) ht

theorem LogsIn.valid (hs : LogsIn s s' k i following l user) (hat : s.LoginAt k i l user)
    (hj : s.Pending j) (h : s.Valid j) : s'.Valid j := by
  have hends {t : String} (hend : j.Ends t) : t ≠ l.token := by
    rintro rfl
    exact hat.ends j hj hend
  cases j with
  | onEvicted t => exact hs.uncached (hends rfl) h
  | updateLogoutTime t name deletesLog =>
    refine ⟨h.1, fun r hr hid => ?_, fun hb => hs.uncached (hends rfl) (h.2.2 hb)⟩
    rcases hs.newLogs r hr with hr | ⟨-, hkey, -⟩
    · exact h.2.1 r hr hid
    · exact absurd (hid.symm.trans hkey) (hends rfl)
  | logout t deletesLog => exact fun hb => hs.closed (hends rfl) (h hb)
  | deleteById t => exact ⟨hs.closed (hends rfl) h.1, hs.uncached (hends rfl) h.2⟩
  | updateOnline name =>
    intro r hr hname hal id hholds
    rcases hs.newLogs r hr with hr | ⟨-, -, hname'⟩
    · exact h r hr hname hal id ((hs.holds (hat.log r hr)).mp hholds)
    · rw [hname'] at hname
      rw [← hname] at hj
      exact hat.clear hj
  | _ => trivial

theorem LogsIn.ofToken (hs : LogsIn s s' k i following l user) (hat : s.LoginAt k i l user)
    (hr : r ∈ s.db.loginLogs) (h : s.OfToken r) : s'.OfToken r := by
  rcases h with ⟨id, hholds⟩ | hp | ⟨name, b, hp⟩
  · exact .inl ⟨id, (hs.holds (hat.log r hr)).mpr hholds⟩
  · exact .inr (.inl (hs.keep hat hp rfl))
  · exact .inr (.inr ⟨name, b, hs.keep hat hp rfl⟩)

/-- The other logins in progress, and the next statement of this one. -/
theorem LogsIn.loginAt (hs : LogsIn s s' k i following l user) (h : Inv s)
    (hj : j ∈ s'.running k') (hl : j.login? = some (l', user')) : s'.LoginAt k' j l' user' := by
  have hat := h.login k i l user hs.before hs.login
  have hclear {name : String} (hp : s'.Pending (.updateOnline name)) :
      s.Pending (.updateOnline name) := by
    rcases hs.pending_cases hp with hp | hlog
    · exact hp
    · cases hlog
  have hends {t : String} {j : OnlineStatement} (hp : s'.Pending j) (hend : j.Ends t) :
      s.Pending j := by
    rcases hs.pending_cases hp with hp | hlog
    · exact hp
    · cases j with
      | logout => cases hlog
      | onEvicted => cases hlog
      | updateLogoutTime => cases hlog
      | deleteById => cases hlog
      | _ => exact hend.elim
  have honly {k'' : κ} {j'' : OnlineStatement} {l'' : WebLogin} {user'' : User}
      (hj'' : j'' ∈ s'.running k'') (hl'' : j''.login? = some (l'', user'')) :
      ∃ j₀ user₀, j₀ ∈ s.running k'' ∧ j₀.login? = some (l'', user₀) := by
    rcases (mem_running_update hs.after).mp hj'' with ⟨rfl, hmem⟩ | ⟨-, hmem⟩
    · rw [(hs.mem hmem).1] at hl''
      obtain ⟨rfl, rfl⟩ := Prod.mk.inj (Option.some.inj hl'')
      exact ⟨i, user, hs.before, hs.login⟩
    · exact ⟨j'', user'', hmem, hl''⟩
  rcases (mem_running_update hs.after).mp hj with ⟨rfl, hmem⟩ | ⟨hne, hmem⟩
  · obtain ⟨hl₀, hstage⟩ := hs.mem hmem
    rw [hl] at hl₀
    obtain ⟨rfl, rfl⟩ := Prod.mk.inj (Option.some.inj hl₀)
    have hsome : following = some j := Option.mem_toList.mp hmem
    refine
      { alone := ?_
        only := fun k'' j'' l'' user'' hj'' hl'' htoken => ?_
        uuid := hat.uuid
        log := fun r hr => ?_
        named := hs.named.mpr hat.named
        clear := fun hp => hat.clear (hclear hp)
        ends := fun j hp hend => hat.ends j (hends hp hend) hend
        stage := hstage }
    · rw [hs.after, Function.update_self, hsome]
      rfl
    · obtain ⟨j₀, user₀, hj₀, hl₀⟩ := honly hj'' hl''
      exact hat.only k'' j₀ l'' user₀ hj₀ hl₀ htoken
    · rcases hs.newLogs r hr with hr | ⟨hnone, -⟩
      · exact hat.log r hr
      · rw [hsome] at hnone
        cases hnone
  · have hat' := h.login k' j l' user' hmem hl
    have htoken : l'.token ≠ l.token :=
      fun htoken => hne (hat.only k' j l' user' hmem hl htoken)
    refine
      { alone := ?_
        only := fun k'' j'' l'' user'' hj'' hl'' htoken => ?_
        uuid := hat'.uuid
        log := fun r hr => ?_
        named := hs.named.mpr hat'.named
        clear := fun hp => hat'.clear (hclear hp)
        ends := fun j hp hend => hat'.ends j (hends hp hend) hend
        stage := ?_ }
    · rw [hs.after, Function.update_of_ne hne]
      exact hat'.alone
    · obtain ⟨j₀, user₀, hj₀, hl₀⟩ := honly hj'' hl''
      exact hat'.only k'' j₀ l'' user₀ hj₀ hl₀ htoken
    · rcases hs.newLogs r hr with hr | ⟨-, hid, -⟩
      · exact hat'.log r hr
      · rw [hid]
        exact Ne.symm htoken
    · have hstage := hat'.stage
      cases j with
      | setToken =>
        obtain ⟨rfl, rfl⟩ := Prod.mk.inj (Option.some.inj hl)
        exact hs.uncached htoken hstage
      | setOnline =>
        obtain ⟨rfl, rfl⟩ := Prod.mk.inj (Option.some.inj hl)
        exact (hs.holds htoken).mpr hstage
      | saveLoginLog =>
        obtain ⟨rfl, rfl⟩ := Prod.mk.inj (Option.some.inj hl)
        exact ⟨(hs.holds htoken).mpr hstage.1, hs.flags _ hstage.2⟩
      | _ => cases hl

/-- **Step lemma** of the statements of a login. -/
theorem Inv.logIn (h : Inv s) (following : Option OnlineStatement)
    (hs : LogsIn s s' k i following l user) : Inv s' := by
  have hat := h.login k i l user hs.before hs.login
  have hevidence {t id : String} (ht : l.token = t) (hid : user.id = id) :
      (∃ i l user, s'.Pending i ∧ i.login? = some (l, user) ∧ l.token = t ∧ user.id = id) ∨
        s'.Logged t id := by
    cases hfollowing : following with
    | none =>
      obtain ⟨-, -, r, hr, hal, hrid, hname⟩ := hs.done hfollowing
      refine .inr ⟨r, hr, hrid.trans ht, ?_, .inl hal⟩
      rw [hname, ← hid]
      exact hs.named.mpr hat.named
    | some j =>
      have hmem : j ∈ following.toList := by simp [hfollowing]
      exact .inl ⟨j, l, user, pending_of_mem hs.after hmem, (hs.mem hmem).1, ht, hid⟩
  refine
    { queue := queue_update hs.after h.queue ?_
      ids := fun u hu => h.ids u (hs.users ▸ hu)
      names := fun u hu v hv => h.names u (hs.users ▸ hu) v (hs.users ▸ hv)
      logIds := fun r hr => ?_
      login := fun k' j l' user' hj hl => hs.loginAt h hj hl
      valid := fun j hj => ?_
      tokens := fun t id hholds => ?_
      backed := fun u hu honline => ?_
      alive := fun r hr hal id hholds u hu hname => ?_ }
  · cases following with
    | none => exact List.Pairwise.nil
    | some j => exact List.pairwise_singleton _ j
  · rcases hs.newLogs r hr with hr | ⟨-, hid, -⟩
    · exact h.logIds r hr
    · rw [hid]
      exact ⟨hat.uuid.1, isForever_of_isUuid hat.uuid⟩
  · rcases hs.pending_cases hj with hj | hl
    · exact hs.valid hat hj (h.valid j hj)
    · cases j with
      | setToken => trivial
      | setOnline => trivial
      | saveLoginLog => trivial
      | _ => cases hl
  · by_cases ht : t = l.token
    · obtain ⟨c, hc, hkey, htype, hid⟩ := hholds
      rcases hs.newTokens c hc with hc | ⟨-, -, huser⟩
      · rcases h.tokens t id ⟨c, hc, hkey, htype, hid⟩ with
          ⟨j, l', user', ⟨k', hk'⟩, hl, htoken, hid'⟩ | ⟨r, hr, hrid, -⟩
        · obtain rfl := hat.only k' j l' user' hk' hl (htoken.trans ht)
          rw [hat.alone] at hk'
          rw [List.mem_singleton.mp hk', hs.login] at hl
          obtain ⟨rfl, rfl⟩ := Prod.mk.inj (Option.some.inj hl)
          exact hevidence htoken hid'
        · exact absurd (hrid.trans ht) (hat.log r hr)
      · exact hevidence ht.symm (huser.symm.trans hid)
    · rcases h.tokens t id ((hs.holds ht).mp hholds) with
        ⟨j, l', user', hj, hl, htoken, hid⟩ | ⟨r, hr, hid, hnamed, hal⟩
      · refine .inl ⟨j, l', user', hj.keep hs.after fun hmem => ?_, hl, htoken, hid⟩
        rw [hat.alone] at hmem
        rw [List.mem_singleton.mp hmem, hs.login] at hl
        obtain ⟨rfl, rfl⟩ := Prod.mk.inj (Option.some.inj hl)
        exact absurd htoken.symm ht
      · refine .inr ⟨r, hs.logs r hr, hid, hs.named.mpr hnamed, hal.imp_right ?_⟩
        rintro ⟨b, hp⟩
        exact ⟨b, hs.keep hat hp rfl⟩
  · rw [hs.users] at hu
    have hreason (hid : u.id = user.id) : s'.Backed u := by
      cases hfollowing : following with
      | none =>
        obtain ⟨hholds, -, r, hr, hal, hrid, hname⟩ := hs.done hfollowing
        refine .inl ⟨r, hr, hal, hname.trans (hat.username_eq hu hid).symm, .inl ⟨user.id, ?_⟩⟩
        rw [hrid]
        exact hholds
      | some j =>
        have hmem : j ∈ following.toList := by simp [hfollowing]
        exact .inr (.inr (.inr ⟨j, l, user, pending_of_mem hs.after hmem, (hs.mem hmem).1, hid.symm⟩))
    rcases hs.newFlags u.id honline with honline | ⟨-, hid⟩
    · rcases h.backed u hu honline with ⟨r, hr, hal, hname, hof⟩ | hp | hp | ⟨j, l', user', hj, hl, hid⟩
      · exact .inl ⟨r, hs.logs r hr, hal, hname, hs.ofToken hat hr hof⟩
      · exact .inr (.inl (hs.keep hat hp rfl))
      · exact .inr (.inr (.inl (hs.keep hat hp rfl)))
      · by_cases hmem : j ∈ s.running k
        · rw [hat.alone] at hmem
          rw [List.mem_singleton.mp hmem, hs.login] at hl
          obtain ⟨rfl, rfl⟩ := Prod.mk.inj (Option.some.inj hl)
          exact hreason hid.symm
        · exact .inr (.inr (.inr
            ⟨j, l', user', hj.keep hs.after fun h => absurd h hmem, hl, hid⟩))
    · exact hreason hid
  · rw [hs.users] at hu
    rcases hs.newLogs r hr with hr | ⟨hnone, -, hname'⟩
    · exact hs.flags _ (h.alive r hr hal id ((hs.holds (hat.log r hr)).mp hholds) u hu hname)
    · rw [hat.id_eq h hu (hname.trans hname')]
      exact (hs.done hnone).2.1

end Logins

theorem Inv.execSetToken (h : Inv s) (hk : s.running k = .setToken l user :: rest) :
    Inv (s.exec k rest (.setToken l user)) := by
  obtain ⟨hat, rfl⟩ := h.login_rest hk rfl
  let c : ExpiringCache.Item String Authorization :=
    { key := l.token
      value := { token := l.token, type := nd.loginToken, remember := l.remember, user }
      expires := true }
  refine h.logIn (some (.setOnline l user))
    { before := by rw [hk]; exact List.mem_cons_self
      after := rfl
      login := rfl
      goesOn := fun j hj => ?_
      users := rfl
      logs := fun r hr => hr
      newLogs := fun r hr => .inl hr
      tokens := fun c hc hne => ExpiringCache.mem_set.mpr (.inr ⟨hc, hne⟩)
      newTokens := fun c hc => ?_
      flags := fun id honline => honline
      newFlags := fun id honline => .inl honline
      done := fun hnone => by cases hnone }
  · obtain rfl := Option.mem_some_iff.mp hj
    exact ⟨rfl, c, ExpiringCache.mem_set.mpr (.inl rfl), rfl, rfl, rfl⟩
  · rcases ExpiringCache.mem_set.mp hc with rfl | ⟨hc, -⟩
    · exact .inr ⟨fun hnone => (by cases hnone), rfl, rfl⟩
    · exact .inl hc

theorem Inv.execSetOnline (h : Inv s) (hk : s.running k = .setOnline l user :: rest) :
    Inv (s.exec k rest (.setOnline l user)) := by
  obtain ⟨hat, rfl⟩ := h.login_rest hk rfl
  have hid : user.id ≠ "" := by
    obtain ⟨u, hu, hid, -⟩ := hat.named
    rw [← hid]
    exact h.ids u hu
  dsimp only [exec]
  rw [if_neg hid]
  refine h.logIn (some (.saveLoginLog l user))
    { before := by rw [hk]; exact List.mem_cons_self
      after := rfl
      login := rfl
      goesOn := fun j hj => ?_
      users := rfl
      logs := fun r hr => hr
      newLogs := fun r hr => .inl hr
      tokens := fun c hc _ => hc
      newTokens := fun c hc => .inl hc
      flags := fun id honline => ?_
      newFlags := fun id honline => ?_
      done := fun hnone => by cases hnone }
  · obtain rfl := Option.mem_some_iff.mp hj
    refine ⟨rfl, hat.stage, ?_⟩
    show Function.update s.online user.id true user.id = true
    rw [Function.update_self]
  · show Function.update s.online user.id true id = true
    by_cases heq : id = user.id
    · rw [heq, Function.update_self]
    · rw [Function.update_of_ne heq]
      exact honline
  · by_cases heq : id = user.id
    · exact .inr ⟨fun hnone => (by cases hnone), heq⟩
    · have hkept : Function.update s.online user.id true id = true := honline
      rw [Function.update_of_ne heq] at hkept
      exact .inl hkept

/-- The row that `SaveLoginLog` inserts. -/
def loginLogRow (clientIP clientUserAgent username : String) (success remember : Bool)
    (id reason uuid : String) : LoginLog :=
  { id := if success then id else uuid
    state := if success then "1" else "0"
    username, clientIP, clientUserAgent, reason, remember }

theorem saveLoginLog_of_new {db : AccountDatabase} {clientIP clientUserAgent username id reason
    uuid : String} {success remember : Bool}
    (hr' : r' = loginLogRow clientIP clientUserAgent username success remember id reason uuid)
    (hnew : ∀ r ∈ db.loginLogs, r.id ≠ r'.id) :
    ∃ loginLogs, (∀ r, r ∈ loginLogs ↔ r = r' ∨ r ∈ db.loginLogs) ∧
      UserService.saveLoginLog db clientIP clientUserAgent username success remember id reason uuid =
        .ok { db with loginLogs } := by
  cases hinsert : db.loginLogs.insert r' with
  | none =>
    obtain ⟨r, hr, hid⟩ := Table.insert_eq_none.mp hinsert
    exact absurd hid (hnew r hr)
  | some loginLogs =>
    refine ⟨loginLogs, fun r => Table.mem_of_insert hinsert, ?_⟩
    rw [hr', loginLogRow] at hinsert
    simp only [UserService.saveLoginLog, hinsert]

theorem Inv.execSaveLoginLog (h : Inv s) (hk : s.running k = .saveLoginLog l user :: rest) :
    Inv (s.exec k rest (.saveLoginLog l user)) := by
  obtain ⟨hat, rfl⟩ := h.login_rest hk rfl
  obtain ⟨loginLogs, hlogs, hsave⟩ := saveLoginLog_of_new (rfl : _ = loginLogRow l.realIP
    l.userAgent l.username true l.remember l.token "" l.uuid) hat.log
  have hexec : s.exec k [] (.saveLoginLog l user) =
      { s with db := { s.db with loginLogs } }.goOn k [] := by
    dsimp only [exec]
    rw [OnlineServer.saveLoginLog, hsave]
    rfl
  rw [hexec]
  refine h.logIn none
    { before := by rw [hk]; exact List.mem_cons_self
      after := rfl
      login := rfl
      goesOn := fun j hj => by cases hj
      users := rfl
      logs := fun r hr => (hlogs r).mpr (.inr hr)
      newLogs := fun r hr => ?_
      tokens := fun c hc _ => hc
      newTokens := fun c hc => .inl hc
      flags := fun id honline => honline
      newFlags := fun id honline => .inl honline
      done := fun _ => ⟨hat.stage.1, hat.stage.2, _, (hlogs _).mpr (.inl rfl), rfl, rfl, rfl⟩ }
  rcases (hlogs r).mp hr with rfl | hr
  · exact .inr ⟨rfl, rfl, rfl⟩
  · exact .inl hr

end Steps

end OnlineServer

end NextDBM
