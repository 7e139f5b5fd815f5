import NextDBM.Accounts.Proofs.OnlineProofs

/-!
# Proofs: runs and the online flag

The actions that start an operation, the login logs that are written at once, and the updates of users
keep the invariant. With the statements of the operations in progress this is the step lemma; the runs
follow.
-/

namespace NextDBM

open Relational Transition OnlineStatement
open LoginLogRepository (isAlive)
open UserService (isForever)

namespace OnlineServer

variable {κ : Type} {s s' : OnlineServer κ} {k k' : κ} {i j : OnlineStatement}
  {is rest : List OnlineStatement} {l l' : WebLogin} {user user' u v : User} {r r' : LoginLog}
  {t id name : String} {a : OnlineAction κ}

section Starts

variable [DecidableEq κ]

/-! ## Operations that start -/

theorem start_eq_some (h : s.start k is = some s') : s.running k = [] ∧ s' = s.goOn k is := by
  unfold start at h
  cases hk : s.running k with
  | nil =>
    rw [hk] at h
    exact ⟨rfl, (Option.some.inj h).symm⟩
  | cons i rest =>
    rw [hk] at h
    cases h

/-- An operation that starts leaves the others alone. -/
theorem Pending.start (h : s.Pending j) (hk : s.running k = [])
    (hrun : s'.running = Function.update s.running k is) : s'.Pending j := by
  refine h.keep hrun fun hmem => ?_
  rw [hk] at hmem
  exact absurd hmem List.not_mem_nil

theorem OfToken.start (h : s.OfToken r) (hk : s.running k = [])
    (hrun : s'.running = Function.update s.running k is)
    (hholds : ∀ id, s.Holds r.id id → s'.OfToken r) : s'.OfToken r := by
  rcases h with ⟨id, h⟩ | hp | ⟨name, b, hp⟩
  · exact hholds id h
  · exact .inr (.inl (hp.start hk hrun))
  · exact .inr (.inr ⟨name, b, hp.start hk hrun⟩)

theorem Backed.start (h : s.Backed u) (hk : s.running k = [])
    (hrun : s'.running = Function.update s.running k is)
    (hlogs : ∀ r ∈ s.db.loginLogs, r ∈ s'.db.loginLogs)
    (hholds : ∀ r ∈ s.db.loginLogs, ∀ id, s.Holds r.id id → s'.OfToken r) : s'.Backed u := by
  rcases h with ⟨r, hr, hal, hname, hof⟩ | hp | hp | ⟨j, l, user, hj, hl, hid⟩
  · exact .inl ⟨r, hlogs r hr, hal, hname, hof.start hk hrun (hholds r hr)⟩
  · exact .inr (.inl (hp.start hk hrun))
  · exact .inr (.inr (.inl (hp.start hk hrun)))
  · exact .inr (.inr (.inr ⟨j, l, user, hj.start hk hrun, hl, hid⟩))

theorem Logged.start (h : s.Logged t id) (hk : s.running k = [])
    (hrun : s'.running = Function.update s.running k is)
    (hlogs : ∀ r ∈ s.db.loginLogs, r ∈ s'.db.loginLogs) (husers : s'.db.users = s.db.users) :
    s'.Logged t id := by
  obtain ⟨r, hr, hid, ⟨u, hu, huid, hname⟩, hal⟩ := h
  refine ⟨r, hlogs r hr, hid, ⟨u, husers ▸ hu, huid, hname⟩, hal.imp_right ?_⟩
  rintro ⟨b, hp⟩
  exact ⟨b, hp.start hk hrun⟩

/-- An operation that is no login starts, and with it some items of the cache may be evicted. -/
theorem Inv.start (h : Inv s) (hk : s.running k = []) (hs : Shrinks s s')
    (hdb : s'.db = s.db) (honline : s'.online = s.online)
    (hrun : s'.running = Function.update s.running k is) (hnew : ∀ j ∈ is, j.login? = none)
    (hqueue : is.Pairwise fun i j => i.Stops → j.Stops) (hvalid : ∀ j ∈ is, s'.Valid j)
    (hends : ∀ j ∈ is, ∀ t, j.Ends t → ¬ s.LoggingInWith t)
    (hclear : ∀ name, OnlineStatement.updateOnline name ∉ is)
    (hlogin : ∀ t id, s.LoggingInWith t → s.Holds t id → s'.Holds t id)
    (hholds : ∀ r ∈ s.db.loginLogs, ∀ id, s.Holds r.id id → s'.OfToken r) : Inv s' := by
  have hlogs : ∀ r ∈ s.db.loginLogs, r ∈ s'.db.loginLogs := fun r hr => hdb ▸ hr
  refine h.shrink hs hrun (fun j hj => ?_) hnew hqueue hvalid hends
    (fun name hmem => absurd hmem (hclear name)) (fun j l user hj hl => ⟨fun hholds => ?_, ?_⟩)
    (fun t id _ hlog => hlog.start hk hrun hlogs hs.users)
    (fun u hu hon => ⟨honline ▸ hon, fun hb => hb.start hk hrun hlogs hholds⟩)
    (fun _ _ _ _ _ _ _ _ hon => honline ▸ hon)
  · rw [hk] at hj
    exact absurd hj List.not_mem_nil
  · exact hlogin l.token user.id ⟨j, l, user, hj, hl, rfl⟩ hholds
  · intro hon
    exact honline ▸ hon

theorem Inv.startOnly (h : Inv s) (hk : s.running k = []) (hnew : ∀ j ∈ is, j.login? = none)
    (hqueue : is.Pairwise fun i j => i.Stops → j.Stops)
    (hvalid : ∀ j ∈ is, (s.goOn k is).Valid j)
    (hends : ∀ j ∈ is, ∀ t, j.Ends t → ¬ s.LoggingInWith t)
    (hclear : ∀ name, OnlineStatement.updateOnline name ∉ is) : Inv (s.goOn k is) :=
  h.start hk (Shrinks.goOn s k is) rfl rfl rfl hnew hqueue hvalid hends hclear
    (fun _ _ _ hholds => hholds) fun _ _ id hholds => .inl ⟨id, hholds⟩

theorem Inv.startLogout (h : Inv s) (hk : s.running k = []) (ht : ¬ s.LoggingInWith t) :
    Inv (s.goOn k [.logout t false]) := by
  refine h.startOnly hk (fun j hj => ?_) (List.pairwise_singleton _ _) (fun j hj => ?_)
    (fun j hj t' hends => ?_) (fun name hmem => ?_)
  · rw [List.mem_singleton.mp hj]
    rfl
  · rw [List.mem_singleton.mp hj]
    exact fun hb => by cases hb
  · rw [List.mem_singleton.mp hj] at hends
    obtain rfl : t = t' := hends
    exact ht
  · cases List.mem_singleton.mp hmem

theorem Inv.startDeleteLoginLogs (h : Inv s) (hk : s.running k = []) (tokens : List String) :
    Inv (s.goOn k (tokens.map .deleteLoginLog)) := by
  refine h.startOnly hk (fun j hj => ?_) ?_ (fun j hj => ?_) (fun j hj t' hends => ?_)
    (fun name hmem => ?_)
  · obtain ⟨t, -, rfl⟩ := List.mem_map.mp hj
    rfl
  · rw [List.pairwise_map]
    exact List.pairwise_of_forall fun _ _ _ => trivial
  · obtain ⟨t, -, rfl⟩ := List.mem_map.mp hj
    trivial
  · obtain ⟨t, -, rfl⟩ := List.mem_map.mp hj
    exact hends.elim
  · obtain ⟨t, -, heq⟩ := List.mem_map.mp hmem
    cases heq

theorem Inv.startLogoutById (h : Inv s) (hk : s.running k = []) (id : String) :
    Inv (s.goOn k [.findUser id]) := by
  refine h.startOnly hk (fun j hj => ?_) (List.pairwise_singleton _ _) (fun j hj => ?_)
    (fun j hj t' hends => ?_) (fun name hmem => ?_)
  · rw [List.mem_singleton.mp hj]
    rfl
  · rw [List.mem_singleton.mp hj]
    trivial
  · rw [List.mem_singleton.mp hj] at hends
    exact hends.elim
  · cases List.mem_singleton.mp hmem

theorem Inv.startEvict (h : Inv s) (hk : s.running k = []) {tokens : List String}
    (htokens : ∀ token ∈ tokens, ¬ s.LoggingInWith token) :
    Inv ({ s with tokens := s.tokens.deleteWhere (isEvicted tokens) }.goOn k
      ((s.tokens.rows.filter (isEvicted tokens)).map evictedCallback)) := by
  have hevicted {j : OnlineStatement}
      (hj : j ∈ (s.tokens.rows.filter (isEvicted tokens)).map evictedCallback) :
      ∃ c ∈ s.tokens, isEvicted tokens c = true ∧ j = .onEvicted c.key := by
    obtain ⟨c, hc, rfl⟩ := List.mem_map.mp hj
    obtain ⟨hmem, hev⟩ := List.mem_filter.mp hc
    exact ⟨c, hmem, hev, rfl⟩
  have hkey {c : ExpiringCache.Item String Authorization} (hev : isEvicted tokens c = true) :
      c.key ∈ tokens := by
    simp only [isEvicted, Bool.and_eq_true, List.contains_iff_mem] at hev
    exact hev.2
  refine h.start hk ⟨rfl, fun r hr => ⟨r, hr, rfl, rfl, fun hal => hal⟩, fun c hc =>
    (Table.mem_deleteWhere.mp hc).1⟩ rfl rfl rfl (fun j hj => ?_) ?_ (fun j hj => ?_)
    (fun j hj t' hends => ?_) (fun name hmem => ?_) (fun t id hin hholds => ?_)
    (fun r hr id hholds => ?_)
  · obtain ⟨c, -, -, rfl⟩ := hevicted hj
    rfl
  · rw [List.pairwise_map]
    exact List.pairwise_of_forall fun _ _ hstop => hstop.elim
  · obtain ⟨c, hc, hev, rfl⟩ := hevicted hj
    intro c' hc' heq
    obtain ⟨hmem, hkept⟩ := Table.mem_deleteWhere.mp hc'
    rw [Table.eq_of_key hmem hc heq, hev] at hkept
    cases hkept
  · obtain ⟨c, -, hev, rfl⟩ := hevicted hj
    obtain rfl : c.key = t' := hends
    exact htokens c.key (hkey hev)
  · obtain ⟨c, -, -, heq⟩ := hevicted hmem
    cases heq
  · obtain ⟨c, hc, rfl, hfacts⟩ := hholds
    refine ⟨c, Table.mem_deleteWhere.mpr ⟨hc, ?_⟩, rfl, hfacts⟩
    by_contra hev
    have hev : isEvicted tokens c = true := by simpa using hev
    exact htokens c.key (hkey hev) hin
  · obtain ⟨c, hc, hkeyeq, hfacts⟩ := hholds
    by_cases hev : isEvicted tokens c = true
    · refine .inr (.inl ⟨k, (mem_running_update rfl).mpr (.inl ⟨rfl, ?_⟩)⟩)
      rw [← hkeyeq]
      exact List.mem_map.mpr ⟨c, List.mem_filter.mpr ⟨hc, hev⟩, rfl⟩
    · exact .inl ⟨id, c, Table.mem_deleteWhere.mpr ⟨hc, by simpa using hev⟩, hkeyeq, hfacts⟩

/-- A login starts with a token that is new, for the user of its name. -/
theorem Inv.startLogin (h : Inv s) (hk : s.running k = []) (hnew : s.New l.token)
    (hnamed : s.Named user.id l.username) (hclear : ¬ s.Pending (.updateOnline l.username)) :
    Inv (s.goOn k [.setToken l user]) := by
  obtain ⟨huuid, hlog, hkey, hpending⟩ := hnew
  have hrun : (s.goOn k [.setToken l user]).running =
      Function.update s.running k [.setToken l user] := rfl
  have hcases {j : OnlineStatement} (hj : (s.goOn k [.setToken l user]).Pending j) :
      j = .setToken l user ∨ s.Pending j :=
    (pending_cases hrun hj).imp_left List.mem_singleton.mp
  -- the new login is the only one with its token
  have honly {k' k'' : κ} {j j' : OnlineStatement} {l₁ l₂ : WebLogin} {u₁ u₂ : User}
      (hj : j ∈ (s.goOn k [.setToken l user]).running k') (hj' : j' ∈ s.running k'')
      (hl : j.login? = some (l₁, u₁)) (hl' : j'.login? = some (l₂, u₂)) (heq : l₁.token = l₂.token) :
      j ∈ s.running k' := by
    rcases (mem_running_update hrun).mp hj with ⟨-, hmem⟩ | ⟨-, hmem⟩
    · rw [List.mem_singleton.mp hmem] at hl
      obtain ⟨rfl, rfl⟩ := Prod.mk.inj (Option.some.inj hl)
      exact absurd (heq ▸ token?_of_login? hl') (hpending j' ⟨k'', hj'⟩)
    · exact hmem
  refine
    { queue := queue_update hrun h.queue (List.pairwise_singleton _ _)
      ids := h.ids
      names := h.names
      logIds := h.logIds
      login := fun k' j l' user' hj hl => ?_
      valid := fun j hj => ?_
      tokens := fun t id hholds => ?_
      backed := fun u hu honline => ?_
      alive := h.alive }
  · rcases (mem_running_update hrun).mp hj with ⟨rfl, hmem⟩ | ⟨hne, hmem⟩
    · obtain rfl := List.mem_singleton.mp hmem
      obtain ⟨rfl, rfl⟩ := Prod.mk.inj (Option.some.inj hl)
      refine
        { alone := ?_
          only := fun k'' j'' l'' user'' hj'' hl'' htoken => ?_
          uuid := huuid
          log := hlog
          named := hnamed
          clear := fun hp => ?_
          ends := fun j' hj' hend => ?_
          stage := hkey }
      · rw [hrun, Function.update_self]
      · rcases (mem_running_update hrun).mp hj'' with ⟨heq, -⟩ | ⟨-, hmem''⟩
        · exact heq
        · exact absurd (htoken ▸ token?_of_login? hl'') (hpending j'' ⟨k'', hmem''⟩)
      · rcases hcases hp with heq | hp
        · cases heq
        · exact hclear hp
      · rcases hcases hj' with rfl | hj'
        · exact hend
        · exact hpending j' hj' (token?_of_ends hend)
    · have hat := h.login k' j l' user' hmem hl
      refine
        { alone := ?_
          only := fun k'' j'' l'' user'' hj'' hl'' htoken => ?_
          uuid := hat.uuid
          log := hat.log
          named := hat.named
          clear := fun hp => ?_
          ends := fun j' hj' hend => ?_
          stage := ?_ }
      · rw [hrun, Function.update_of_ne hne]
        exact hat.alone
      · exact hat.only k'' j'' l'' user'' (honly hj'' hmem hl'' hl htoken) hl'' htoken
      · rcases hcases hp with heq | hp
        · cases heq
        · exact hat.clear hp
      · rcases hcases hj' with rfl | hj'
        · exact hend
        · exact hat.ends j' hj' hend
      · exact hat.stage
  · rcases hcases hj with rfl | hj
    · trivial
    · exact (h.valid j hj).shrink (Shrinks.goOn s k _)
  · rcases h.tokens t id hholds with ⟨j, l', user', hj, hfacts⟩ | hlogged
    · exact .inl ⟨j, l', user', hj.start hk hrun, hfacts⟩
    · exact .inr (hlogged.start hk hrun (fun _ hr => hr) rfl)
  · exact (h.backed u hu honline).start hk hrun (fun _ hr => hr)
      fun _ _ id hholds => .inl ⟨id, hholds⟩

end Starts

/-! ## Login logs that are written at once -/

/-- A log with a new id is neither that of a token nor that of an operation in progress. -/
theorem Inv.insertLog (h : Inv s) {loginLogs : Table LoginLog LoginLog.id} (hnew : s.New r'.id)
    (hlogs : ∀ r, r ∈ loginLogs ↔ r = r' ∨ r ∈ s.db.loginLogs) :
    Inv { s with db := { s.db with loginLogs } } := by
  obtain ⟨huuid, -, hkey, hpending⟩ := hnew
  have hnone (id : String) : ¬ s.Holds r'.id id := by
    rintro ⟨c, hc, heq, -⟩
    exact hkey c hc heq
  have hclosed {j : OnlineStatement} {t : String} (hj : s.Pending j) (htoken : j.token? = some t)
      (hclosed : ∀ r ∈ s.db.loginLogs, r.id = t → isAlive r = false) :
      ∀ r ∈ loginLogs, r.id = t → isAlive r = false := by
    intro r hr hid
    rcases (hlogs r).mp hr with rfl | hr
    · rw [← hid] at htoken
      exact absurd htoken (hpending j hj)
    · exact hclosed r hr hid
  refine
    { queue := h.queue
      ids := h.ids
      names := h.names
      logIds := fun r hr => ?_
      login := fun k j l user hj hl => ?_
      valid := fun j hj => ?_
      tokens := fun t id hholds => ?_
      backed := fun u hu honline => ?_
      alive := fun r hr hal id hholds u hu hname => ?_ }
  · rcases (hlogs r).mp hr with rfl | hr
    · exact ⟨huuid.1, isForever_of_isUuid huuid⟩
    · exact h.logIds r hr
  · have hat := h.login k j l user hj hl
    refine { hat with log := fun r hr hid => ?_, stage := hat.stage }
    rcases (hlogs r).mp hr with rfl | hr
    · exact hpending j ⟨k, hj⟩ (hid ▸ token?_of_login? hl)
    · exact hat.log r hr hid
  · have hj : s.Pending j := hj
    have hv := h.valid j hj
    cases j with
    | updateLogoutTime t name b =>
      refine ⟨hv.1, fun r hr hid => ?_, hv.2.2⟩
      rcases (hlogs r).mp hr with rfl | hr
      · exact absurd (congrArg some hid.symm) (hpending _ hj)
      · exact hv.2.1 r hr hid
    | logout t b => exact fun hb => hclosed hj rfl (hv hb)
    | deleteById t => exact ⟨hclosed hj rfl hv.1, hv.2⟩
    | updateOnline name =>
      intro r hr hname hal id hholds
      rcases (hlogs r).mp hr with rfl | hr
      · exact hnone id hholds
      · exact hv r hr hname hal id hholds
    | onEvicted t => exact hv
    | _ => trivial
  · rcases h.tokens t id hholds with hlogin | ⟨r, hr, hfacts⟩
    · exact .inl hlogin
    · exact .inr ⟨r, (hlogs r).mpr (.inr hr), hfacts⟩
  · rcases h.backed u hu honline with ⟨r, hr, hfacts⟩ | hrest
    · exact .inl ⟨r, (hlogs r).mpr (.inr hr), hfacts⟩
    · exact .inr hrest
  · rcases (hlogs r).mp hr with rfl | hr
    · exact absurd hholds (hnone id)
    · exact h.alive r hr hal id hholds u hu hname

theorem Inv.saveLoginLog (h : Inv s) {clientIP clientUserAgent username id reason uuid : String}
    {success remember : Bool} (hnew : s.New (if success then id else uuid)) :
    Inv (s.saveLoginLog clientIP clientUserAgent username success remember id reason uuid) := by
  obtain ⟨loginLogs, hlogs, hsave⟩ := saveLoginLog_of_new
    (rfl : _ = loginLogRow clientIP clientUserAgent username success remember id reason uuid)
    hnew.2.1
  rw [OnlineServer.saveLoginLog, hsave]
  exact h.insertLog hnew hlogs

/-! ## Updates of users -/

theorem Inv.named_of_holds (h : Inv s) (hr : r ∈ s.db.loginLogs) (hholds : s.Holds r.id id) :
    s.Named id r.username := by
  rcases h.tokens r.id id hholds with ⟨i, l, user, hi, hl, htoken, -⟩ | ⟨r', hr', hid, hnamed, -⟩
  · exact absurd ⟨i, l, user, hi, hl, htoken⟩ (h.not_loggingInWith_of_log hr)
  · rwa [Table.eq_of_key hr' hr hid] at hnamed

/-- The flag of a user without a token whom no operation concerns is clear. -/
theorem Inv.not_backed (h : Inv s) (hu : u ∈ s.db.users) (htokens : ∀ t, ¬ s.Holds t u.id)
    (hbusy : ¬ s.Busy u.username) : ¬ s.Backed u := by
  rintro (⟨r, hr, -, hname, hof⟩ | hp | hp | ⟨i, l, user, hi, hl, hid⟩)
  · rcases hof with ⟨id, hholds⟩ | hp | ⟨name, b, hp⟩
    · obtain ⟨v, hv, hvid, hvname⟩ := h.named_of_holds hr hholds
      obtain rfl := h.names v hv u hu (hvname.trans hname)
      rw [← hvid] at hholds
      exact htokens r.id hholds
    · exact hbusy (.inr (.inr (.inr ⟨r, hr, hname, .inl hp⟩)))
    · exact hbusy (.inr (.inr (.inr ⟨r, hr, hname, .inr ⟨name, b, hp⟩⟩)))
  · exact hbusy (.inr (.inl hp))
  · exact hbusy (.inr (.inr (.inl hp)))
  · obtain ⟨k, hk⟩ := hi
    have hname := (h.login k i l user hk hl).username_eq hu hid.symm
    exact hbusy (.inl ⟨i, l, user, ⟨k, hk⟩, hl, hname.symm⟩)

/-- A user may get the name. -/
def Renames (s : OnlineServer κ) (u : User) (name : String) : Prop :=
  (∀ v ∈ s.db.users, v.username ≠ name) ∧ (∀ t, ¬ s.Holds t u.id) ∧ ¬ s.Busy u.username

/-- The row of a user has kept its id, and its name unless it is the one that gets a new name. -/
def Kept (s : OnlineServer κ) (id name : String) (u u' : User) : Prop :=
  u'.id = u.id ∧
    (u'.username = u.username ∨ u.id = id ∧ u'.username = name ∧ s.Renames u name)

theorem Inv.setUsers (h : Inv s) (id name : String) (hlogs : s'.db.loginLogs = s.db.loginLogs)
    (htokens : s'.tokens = s.tokens) (honline : s'.online = s.online)
    (hrunning : s'.running = s.running)
    (hback : ∀ u' ∈ s'.db.users, ∃ u ∈ s.db.users, s.Kept id name u u')
    (hthere : ∀ u ∈ s.db.users, ∃ u' ∈ s'.db.users, s.Kept id name u u') : Inv s' := by
  have hpending {j : OnlineStatement} : s'.Pending j ↔ s.Pending j := by
    unfold Pending
    rw [hrunning]
  have hholds {t id : String} : s'.Holds t id ↔ s.Holds t id := by
    unfold Holds
    rw [htokens]
  have hof {r : LoginLog} : s'.OfToken r ↔ s.OfToken r := by
    simp only [OfToken, hpending, hholds]
  -- a user whose name matters has kept it
  have hnamed {id' name' : String} (hin : (∃ t, s.Holds t id') ∨ s.Busy name')
      (hnamed : s.Named id' name') : s'.Named id' name' := by
    obtain ⟨u, hu, rfl, rfl⟩ := hnamed
    obtain ⟨u', hu', hid, hname | ⟨-, -, -, hno, hbusy⟩⟩ := hthere u hu
    · exact ⟨u', hu', hid, hname⟩
    · rcases hin with ⟨t, ht⟩ | hin
      · exact absurd ht (hno t)
      · exact absurd hin hbusy
  refine
    { queue := fun k => hrunning ▸ h.queue k
      ids := fun u' hu' => ?_
      names := fun u' hu' v' hv' heq => ?_
      logIds := fun r hr => h.logIds r (hlogs ▸ hr)
      login := fun k j l user hj hl => ?_
      valid := fun j hj => ?_
      tokens := fun t id hholds' => ?_
      backed := fun u' hu' honline' => ?_
      alive := fun r hr hal id hholds' u' hu' hname => ?_ }
  · obtain ⟨u, hu, hid, -⟩ := hback u' hu'
    rw [hid]
    exact h.ids u hu
  · obtain ⟨u, hu, huid, huname⟩ := hback u' hu'
    obtain ⟨v, hv, hvid, hvname⟩ := hback v' hv'
    have huv : u.id = v.id := by
      rcases huname with huname | ⟨hid, huname, hnew, -⟩
      · rcases hvname with hvname | ⟨-, hvname, hnew, -⟩
        · rw [h.names u hu v hv (huname.symm.trans (heq.trans hvname))]
        · exact absurd (huname.symm.trans (heq.trans hvname)) (hnew u hu)
      · rcases hvname with hvname | ⟨hid', -⟩
        · exact absurd (hvname.symm.trans (heq.symm.trans huname)) (hnew v hv)
        · exact hid.trans hid'.symm
    exact Table.eq_of_key hu' hv' (huid.trans (huv.trans hvid.symm))
  · rw [hrunning] at hj
    have hat := h.login k j l user hj hl
    have hin : s.Busy l.username := .inl ⟨j, l, user, ⟨k, hj⟩, hl, rfl⟩
    refine
      { alone := hrunning ▸ hat.alone
        only := fun k' j' l' user' hj' => hat.only k' j' l' user' (hrunning ▸ hj')
        uuid := hat.uuid
        log := fun r hr => hat.log r (hlogs ▸ hr)
        named := hnamed (.inr hin) hat.named
        clear := fun hp => hat.clear (hpending.mp hp)
        ends := fun j' hj' => hat.ends j' (hpending.mp hj')
        stage := ?_ }
    have hstage := hat.stage
    cases j with
    | setToken => exact fun c hc => hstage c (htokens ▸ hc)
    | setOnline => exact hholds.mpr hstage
    | saveLoginLog => exact ⟨hholds.mpr hstage.1, honline ▸ hstage.2⟩
    | _ => cases hl
  · have hv := h.valid j (hpending.mp hj)
    cases j with
    | onEvicted t => exact fun c hc => hv c (htokens ▸ hc)
    | updateLogoutTime t name b => exact ⟨hv.1, hlogs ▸ hv.2.1, htokens ▸ hv.2.2⟩
    | logout t b => exact fun hb => hlogs ▸ hv hb
    | deleteById t => exact ⟨hlogs ▸ hv.1, htokens ▸ hv.2⟩
    | updateOnline name =>
      intro r hr hname hal id hholds'
      exact hv r (hlogs ▸ hr) hname hal id (hholds.mp hholds')
    | _ => trivial
  · have hholds₀ := hholds.mp hholds'
    rcases h.tokens t id hholds₀ with ⟨j, l, user, hj, hfacts⟩ | ⟨r, hr, hid, hname, hal⟩
    · exact .inl ⟨j, l, user, hpending.mpr hj, hfacts⟩
    · refine .inr ⟨r, hlogs ▸ hr, hid, hnamed (.inl ⟨t, hholds₀⟩) hname, hal.imp_right ?_⟩
      rintro ⟨b, hp⟩
      exact ⟨b, hpending.mpr hp⟩
  · obtain ⟨u, hu, hid, hname⟩ := hback u' hu'
    rw [honline, hid] at honline'
    have hb := h.backed u hu honline'
    rcases hname with hname | ⟨-, -, -, hno, hbusy⟩
    · unfold Backed at hb ⊢
      simp only [hpending, hof, hlogs, hname, hid]
      exact hb
    · exact absurd hb (h.not_backed hu hno hbusy)
  · obtain ⟨u, hu, hid, hname'⟩ := hback u' hu'
    rw [hlogs] at hr
    have hholds₀ := hholds.mp hholds'
    rcases hname' with hname' | ⟨-, hname', hnew, -⟩
    · rw [honline, hid]
      exact h.alive r hr hal id hholds₀ u hu (hname'.symm.trans hname)
    · obtain ⟨v, hv, -, hvname⟩ := h.named_of_holds hr hholds₀
      exact absurd (hvname.trans (hname.symm.trans hname')) (hnew v hv)

theorem kept_assign {uuid : Nat → String} {online : Option Bool} {db' : Database}
    (hfree : s.RenamesFree uuid id user online)
    (hok : UserService.updateUser s.db.toDatabase uuid id user = .ok db') (hu : u ∈ s.db.users)
    (hid : u.id = user.id) :
    s.Kept user.id user.username u (UserRepository.assign user u) := by
  refine ⟨rfl, ?_⟩
  have hname : (UserRepository.assign user u).username = nonZero user.username u.username := rfl
  by_cases hzero : user.username = ""
  · rw [hzero] at hname
    exact .inl hname
  · rw [nonZero_of_ne hzero] at hname
    by_cases hsame : user.username = u.username
    · exact .inl (hname.trans hsame)
    · exact .inr ⟨hid, hname, hfree.2 db' hok u hu hid hzero hsame⟩

theorem Inv.updateUser (h : Inv s) {uuid : Nat → String} {online : Option Bool}
    (hfree : s.RenamesFree uuid id user online) : Inv (s.updateUser uuid id user online) := by
  unfold OnlineServer.updateUser
  split
  · exact h
  · next db' hok =>
    have husers := updateUser_users hok
    have hkept : Inv { s with db := { s.db with toDatabase := db' } } := by
      refine h.setUsers user.id user.username rfl rfl rfl rfl (fun u' hu' => ?_)
        fun u hu => ?_
      · have hu' : u' ∈ db'.users := hu'
        rw [husers] at hu'
        rcases Table.mem_updateById (UserRepository.assign_id user) hu' with hu' | ⟨u, hu, hid, rfl⟩
        · exact ⟨u', hu', rfl, .inl rfl⟩
        · exact ⟨u, hu, kept_assign hfree hok hu hid⟩
      · by_cases hid : u.id = user.id
        · refine ⟨UserRepository.assign user u, ?_, kept_assign hfree hok hu hid⟩
          show _ ∈ db'.users
          rw [husers]
          exact List.mem_map.mpr ⟨u, hu, if_pos hid⟩
        · refine ⟨u, ?_, rfl, .inl rfl⟩
          show u ∈ db'.users
          rw [husers]
          exact Table.mem_updateById_of_ne hu hid _ _
    cases online with
    | none => exact hkept
    | some b =>
      have hsame : s.online user.id = b := hfree.1 b rfl
      simp only [setFlag, ← hsame, Function.update_eq_self]
      exact hkept

/-! ## Runs -/

/-- In a settled state the invariant holds. -/
theorem Settled.inv (h : s.Settled) : Inv s := by
  have hnone {j : OnlineStatement} {k : κ} : j ∉ s.running k := by
    rw [h.idle k]
    exact List.not_mem_nil
  refine
    { queue := fun k => ?_
      ids := h.ids
      names := h.names
      logIds := fun r hr => ⟨(h.logs r hr).1, (h.logs r hr).2.1⟩
      login := fun k j l user hj => absurd hj hnone
      valid := fun j ⟨k, hj⟩ => absurd hj hnone
      tokens := fun t id hholds => ?_
      backed := fun u hu honline => ?_
      alive := fun r hr hal id hholds u hu hname => ?_ }
  · rw [h.idle k]
    exact List.Pairwise.nil
  · obtain ⟨r, hr, hid, hal, hnamed⟩ := h.tokens t id hholds
    exact .inr ⟨r, hr, hid, hnamed, .inl hal⟩
  · obtain ⟨t, hholds⟩ := (h.flags u hu).mp honline
    obtain ⟨r, hr, rfl, hal, v, hv, hid, hname⟩ := h.tokens t u.id hholds
    rw [Table.eq_of_key hv hu hid] at hname
    exact .inl ⟨r, hr, hal, hname.symm, .inl ⟨u.id, hholds⟩⟩
  · obtain ⟨r', hr', hid, -, v, hv, hvid, hvname⟩ := h.tokens r.id id hholds
    rw [Table.eq_of_key hr' hr hid] at hvname
    obtain rfl := h.names v hv u hu (hvname.trans hname.symm)
    rw [← hvid] at hholds
    exact (h.flags v hv).mpr ⟨r.id, hholds⟩

variable [DecidableEq κ]

/-- An operation in progress does its next statement. -/
theorem Inv.exec (h : Inv s) (hk : s.running k = i :: rest) (hcounts : s.CountsTokens i) :
    Inv (s.exec k rest i) := by
  cases i with
  | setToken l user => exact h.execSetToken hk
  | setOnline l user => exact h.execSetOnline hk
  | saveLoginLog l user => exact h.execSaveLoginLog hk
  | logout t b => exact h.execLogout hk
  | onEvicted t => exact h.execOnEvicted hk
  | deleteLoginLog t => exact h.execDeleteLoginLog hk
  | updateLogoutTime t name b => exact h.execUpdateLogoutTime hk
  | findAliveLoginLogs name => exact h.execFindAliveLoginLogs hk hcounts
  | updateOnline name => exact h.execUpdateOnline hk
  | deleteById t => exact h.execDeleteById hk
  | findUser id => exact h.execFindUser hk
  | findTokens name => exact h.execFindTokens hk

/-- **Step lemma**: a step that keeps the flags keeps the invariant. -/
theorem Inv.step (h : Inv s) (hnew : s.DrawsNew a) (hkeeps : s.KeepsFlags a)
    (hstep : s.step a = some s') : Inv s' := by
  cases a with
  | login k l =>
    simp only [OnlineServer.step] at hstep
    split at hstep
    · cases hstep
    · next user hfind =>
      obtain ⟨hk, rfl⟩ := start_eq_some hstep
      obtain ⟨hu, hname, -⟩ := Table.first_eq_some.mp (firstOrNotFound_eq_ok.mp hfind)
      exact h.startLogin hk hnew ⟨user, hu, rfl, by simpa using hname⟩ hkeeps
  | loginFailed l reason =>
    obtain rfl := Option.some.inj hstep
    exact h.saveLoginLog hnew
  | sshLogin remoteAddr username uuid =>
    obtain rfl := Option.some.inj hstep
    exact h.saveLoginLog hnew
  | logout k token =>
    simp only [OnlineServer.step] at hstep
    split at hstep
    · obtain ⟨hk, rfl⟩ := start_eq_some hstep
      exact h.startLogout hk hkeeps
    · cases hstep
  | evict k tokens =>
    obtain ⟨hk, rfl⟩ := start_eq_some hstep
    exact h.startEvict hk hkeeps
  | deleteLoginLogs k tokens =>
    obtain ⟨hk, rfl⟩ := start_eq_some hstep
    exact h.startDeleteLoginLogs hk tokens
  | logoutById k id =>
    obtain ⟨hk, rfl⟩ := start_eq_some hstep
    exact h.startLogoutById hk id
  | updateUser uuid id user online =>
    obtain rfl := Option.some.inj hstep
    exact h.updateUser hkeeps
  | run k =>
    simp only [OnlineServer.step] at hstep
    split at hstep
    · cases hstep
    · next i rest hk =>
      obtain rfl := Option.some.inj hstep
      exact h.exec hk (hkeeps i rest hk)

/-- In a run from a settled state whose steps keep the flags, the flags are those of the users with a
live web token whenever no operation is in progress. -/
theorem flagsAgree_of_reaches {s₀ : OnlineServer κ} (hsettled : s₀.Settled)
    (hs : Reaches step (fun s a => s.DrawsNew a ∧ s.KeepsFlags a) s₀ s) (hidle : s.Idle) :
    s.FlagsAgree := by
  have hinv : Inv s :=
    Reaches.invariant (fun s a s' h hok hstep => Inv.step h hok.1 hok.2 hstep) hs hsettled.inv
  exact hinv.flagsAgree hidle

/-! ## A login and its logout -/

theorem step_run (hk : s.running k = i :: rest) : s.step (.run k) = some (s.exec k rest i) := by
  simp only [step, hk]

omit [DecidableEq κ] in
theorem keepsFlags_run (hk : s.running k = [i]) (hcounts : s.CountsTokens i) :
    s.KeepsFlags (.run k) := by
  intro j rest hj
  rw [hk] at hj
  obtain ⟨rfl, -⟩ := List.cons.inj hj
  exact hcounts

/-- The only operation does its only statement. -/
theorem reaches_run {ok : OnlineServer κ → OnlineAction κ → Prop} (hk : s.running k = [i])
    (hok : ok s (.run k)) (hs : Reaches step ok (s.exec k [] i) s') : Reaches step ok s s' :=
  .head hok (step_run hk) hs

omit [DecidableEq κ] in
theorem new_of_idle (hidle : s.Idle) (huuid : IsUuid id)
    (hlogs : ∀ r ∈ s.db.loginLogs.rows, r.id ≠ id) (htokens : ∀ i ∈ s.tokens.rows, i.key ≠ id) :
    s.New id := by
  refine ⟨huuid, hlogs, htokens, ?_⟩
  rintro j ⟨k, hk⟩
  rw [hidle k] at hk
  exact absurd hk List.not_mem_nil

/-- A store with one user, before the first login. -/
def fresh : OnlineServer Unit := { db := AccountServer.oneUser }

theorem settled_fresh : fresh.Settled := by
  refine ⟨fun _ => rfl, ?_, ?_, nofun, nofun, fun u _ => ⟨nofun, ?_⟩⟩
  · show ∀ u ∈ fresh.db.users.rows, u.id ≠ ""
    decide
  · show ∀ u ∈ fresh.db.users.rows, ∀ v ∈ fresh.db.users.rows, u.username = v.username → u = v
    decide
  · rintro ⟨t, i, hi, -⟩
    cases hi

def li : User := { id := "u1", username := "li", password := "p1", status := nd.statusEnabled }

def liLogin : WebLogin := AccountServer.oneWebLogin ⟨1, 12, 0⟩

/-- The user has logged in. -/
def loggedIn : OnlineServer Unit :=
  (((fresh.goOn () [.setToken liLogin li]).exec () [] (.setToken liLogin li)).exec () []
    (.setOnline liLogin li)).exec () [] (.saveLoginLog liLogin li)

theorem reaches_loggedIn {ok : OnlineServer Unit → OnlineAction Unit → Prop} {t : OnlineServer Unit}
    (hlogin : ok fresh (.login () liLogin))
    (hrun : ∀ s i, s.running () = [i] → s.CountsTokens i → ok s (.run ()))
    (ht : Reaches step ok loggedIn t) : Reaches step ok fresh t :=
  .head hlogin rfl <|
    reaches_run (i := .setToken liLogin li) rfl (hrun _ (.setToken liLogin li) rfl trivial) <|
      reaches_run (i := .setOnline liLogin li) rfl (hrun _ (.setOnline liLogin li) rfl trivial) <|
        reaches_run (i := .saveLoginLog liLogin li) rfl
          (hrun _ (.saveLoginLog liLogin li) rfl trivial) ht

/-- A logout of the user, up to the count of the alive login logs. -/
def loggingOut (s : OnlineServer Unit) : OnlineServer Unit :=
  (((s.goOn () [.logout "a1" false]).exec () [] (.logout "a1" false)).exec () []
    (.onEvicted "a1")).exec () [] (.updateLogoutTime "a1" "li" false)

/-- The login and the logout of the only user. -/
theorem flagsAgree_of_reaches_logout :
    (((loggingOut loggedIn).exec () [] (.findAliveLoginLogs "li")).exec () []
      (.updateOnline "li")).FlagsAgree := by
  have hnew : fresh.New liLogin.token :=
    new_of_idle (fun _ => rfl) (by decide) (fun _ h => (by cases h)) fun _ h => (by cases h)
  have hrun : ∀ (s : OnlineServer Unit) (i : OnlineStatement), s.running () = [i] →
      s.CountsTokens i → s.DrawsNew (.run ()) ∧ s.KeepsFlags (.run ()) :=
    fun s i hk hcounts => ⟨trivial, keepsFlags_run hk hcounts⟩
  refine flagsAgree_of_reaches settled_fresh (reaches_loggedIn ⟨hnew, ?_⟩ hrun ?_) fun _ => rfl
  · rintro ⟨k, hk⟩
    cases hk
  · refine .head (a := .logout () "a1") ⟨trivial, ?_⟩ rfl <|
      reaches_run (i := .logout "a1" false) rfl (hrun _ (.logout "a1" false) rfl trivial) <|
        reaches_run (i := .onEvicted "a1") rfl (hrun _ (.onEvicted "a1") rfl trivial) <|
          reaches_run (i := .updateLogoutTime "a1" "li" false) rfl
            (hrun _ (.updateLogoutTime "a1" "li" false) rfl trivial) <|
          reaches_run (i := .findAliveLoginLogs "li") rfl (hrun _ (.findAliveLoginLogs "li") rfl ?_) <|
            reaches_run (i := .updateOnline "li") rfl (hrun _ (.updateOnline "li") rfl trivial) <|
              .refl _
    · rintro ⟨i, l, user, ⟨k, hk⟩, -⟩
      exact absurd hk List.not_mem_nil
    · have hclosed : ∀ r ∈ (loggingOut loggedIn).db.loginLogs.rows, isAlive r = false := by
        decide
      refine ⟨?_, ?_⟩
      · rintro ⟨i, l, user, ⟨k, hk⟩, hl, -⟩
        rw [List.mem_singleton.mp hk] at hl
        cases hl
      · rintro ⟨r, hr, hal, -⟩
        rw [hclosed r hr] at hal
        cases hal

/-- The user has logged in on the web, and then by SSH. -/
def twoLogins : OnlineServer Unit :=
  loggedIn.saveLoginLog "192.0.2.7:52814" "terminal" "li" true false "d1" "" ""

/-- The login log of the SSH login is never closed, so that the logout of the web token leaves the flag
set. -/
theorem not_flagsAgree_sshLogin :
    ¬ ∀ s₀ s : OnlineServer Unit, s₀.Settled → Reaches step DrawsNew s₀ s → s.Idle →
      s.FlagsAgree := by
  intro h
  have hnew : fresh.New liLogin.token :=
    new_of_idle (fun _ => rfl) (by decide) (fun _ h => (by cases h)) fun _ h => (by cases h)
  have hnew' : loggedIn.New "d1" :=
    new_of_idle (fun _ => rfl) (by decide) (by decide) (by decide)
  have hreaches : Reaches step DrawsNew fresh
      ((loggingOut twoLogins).exec () [] (.findAliveLoginLogs "li")) := by
    refine reaches_loggedIn hnew (fun _ _ _ _ => trivial) ?_
    exact .head (a := .sshLogin "192.0.2.7:52814" "li" "d1") hnew' rfl <|
      .head (a := .logout () "a1") trivial rfl <|
        reaches_run (i := .logout "a1" false) rfl trivial <|
          reaches_run (i := .onEvicted "a1") rfl trivial <|
            reaches_run (i := .updateLogoutTime "a1" "li" false) rfl trivial <|
              reaches_run (i := .findAliveLoginLogs "li") rfl trivial <| .refl _
  have hagree := h _ _ settled_fresh hreaches fun _ => rfl
  obtain ⟨t, i, hi, -⟩ := (hagree li List.mem_cons_self).mp rfl
  have hnone : ((loggingOut twoLogins).exec () []
    (.findAliveLoginLogs "li")).tokens.rows.isEmpty = true := by decide
  rw [Table.mem_def, List.isEmpty_iff.mp hnone] at hi
  cases hi

end OnlineServer

end NextDBM
