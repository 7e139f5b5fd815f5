import NextDBM.Accounts.Proofs.TokenProofs

/-!
# Proofs: what a restart brings back

A start stores a token for each alive log and for each row of an access token. So it rebuilds the
cache when each of them stands for a token of the cache, next to the rows that stand behind the
tokens: then the cache and its image in the store determine each other.
-/

namespace NextDBM

open Relational

variable {V : Verifiers} {s s' : AccountServer} {t : String}
  {i : ExpiringCache.Item String Authorization}

/-- Every alive log and every access token stands for a token of the cache, and every token of the
cache was given out to its user. -/
structure Restorable (s : AccountServer) : Prop where
  login : ∀ l, Alive s.db l → ∃ i ∈ s.tokens, i.key = l.id
  access : ∀ r ∈ s.db.accessTokens, ∃ i ∈ s.tokens, i.key = r.token
  issued : ∀ i ∈ s.tokens, (i.key, i.value.user.id) ∈ s.issued

theorem Linked.not_forever (h : Linked s) {l : LoginLog} (hl : Alive s.db l) :
    UserService.isForever l.id = false :=
  isForever_of_isUuid (h.ids l hl.1)

/-! ## Starts -/

/-- The user named by a log is the one that its token authenticates. -/
theorem Linked.login_user (h : Linked s) {l : LoginLog} (hl : Alive s.db l) (hi : i ∈ s.tokens)
    (hkey : i.key = l.id) {u : User} (hu : u ∈ s.db.users) (hname : u.username = l.username) :
    i.value.user.id = u.id := by
  obtain ⟨l', hl', hid, v, hv, huser, hvname⟩ := h.login i hi (hkey ▸ h.not_forever hl)
  have heq : l' = l := hl'.eq_of_id hl (hid.trans hkey)
  have hvu : v = u := h.names v hv u hu (by rw [hvname, heq, hname])
  rw [← huser, hvu]

/-- The user of an access token is the one that its row names. -/
theorem Linked.access_user (h : Linked s) {r : AccessToken} (hr : r ∈ s.db.accessTokens)
    (hi : i ∈ s.tokens) (hkey : i.key = r.token) : i.value.user.id = r.userId := by
  obtain ⟨-, -, r', hr', htoken, huser⟩ := h.access i hi (hkey ▸ (h.rows r hr).1)
  have heq : r' = r := h.row_unique r' hr' r hr (.inr (htoken.trans hkey))
  rw [← huser, heq]

/-- A log whose token is in the cache is found again by its name. -/
theorem Linked.named (h : Linked s) {l : LoginLog} (hl : Alive s.db l) (hi : i ∈ s.tokens)
    (hkey : i.key = l.id) : ∃ u, Sshd.FirstNamed s.db.toDatabase l.username u := by
  obtain ⟨l', hl', hid, u, hu, -, hname⟩ := h.login i hi (hkey ▸ h.not_forever hl)
  have heq : l' = l := hl'.eq_of_id hl (hid.trans hkey)
  refine ⟨u, hu, heq ▸ hname, fun v hv hvname => ?_⟩
  have hvu : v = u := h.names v hv u hu (by rw [hvname, hname, heq])
  exact le_of_eq (congrArg User.id hvu.symm)

namespace Restarted

/-- Every token that a start stores was in the cache for the same user. -/
theorem exists_before (h : Restarted s s') (hlinked : Linked s) (hrest : Restorable s)
    (hi : i ∈ s'.tokens) : i.expired = false ∧
      ∃ j ∈ s.tokens, j.key = i.key ∧ j.value.user.id = i.value.user.id := by
  rcases h.item i hi with ⟨l, hl, u, hu, rfl⟩ | ⟨r, hr, u, hu, hid, rfl⟩
  · obtain ⟨j, hj, hkey⟩ := hrest.login l hl
    exact ⟨rfl, j, hj, hkey, hlinked.login_user hl hj hkey hu.1 hu.2.1⟩
  · obtain ⟨j, hj, hkey⟩ := hrest.access r hr
    exact ⟨rfl, j, hj, hkey, (hlinked.access_user hr hj hkey).trans hid.symm⟩

/-- Every token of the cache is stored again. -/
theorem exists_after (h : Restarted s s') (hlinked : Linked s) (hi : i ∈ s.tokens) :
    ∃ j ∈ s'.tokens, j.key = i.key := by
  cases hkind : UserService.isForever i.key with
  | true =>
    obtain ⟨-, -, r, hr, htoken, -⟩ := hlinked.access i hi hkind
    obtain ⟨j, hj, hkey⟩ := h.access r hr
    exact ⟨j, hj, hkey.trans htoken⟩
  | false =>
    obtain ⟨l, hl, hid, -⟩ := hlinked.login i hi hkind
    obtain ⟨j, hj, hkey⟩ := h.login l hl (hlinked.named hl hi hid.symm)
    exact ⟨j, hj, hkey.trans hid⟩

/-- When nothing has expired, the cache after a start accepts the same tokens for the same users. -/
theorem account_iff (h : Restarted s s') (hlinked : Linked s) (hrest : Restorable s)
    (hlive : ∀ i ∈ s.tokens, i.expired = false) (token id : String) :
    s'.account token = some id ↔ (token, id) ∈ s.issued ∧ s.account token = some id := by
  simp only [AccountServer.account, Option.map_eq_some_iff, ExpiringCache.get_eq_some]
  constructor
  · rintro ⟨-, ⟨i, hi, rfl, -, rfl⟩, rfl⟩
    obtain ⟨-, j, hj, hkey, huser⟩ := h.exists_before hlinked hrest hi
    have hissued := hrest.issued j hj
    rw [hkey, huser] at hissued
    exact ⟨hissued, j.value, ⟨j, hj, hkey, hlive j hj, rfl⟩, huser⟩
  · rintro ⟨-, -, ⟨j, hj, rfl, -, rfl⟩, rfl⟩
    obtain ⟨i, hi, hik⟩ := h.exists_after hlinked hj
    obtain ⟨hexpired, j', hj', hjk, huser⟩ := h.exists_before hlinked hrest hi
    have heq : j' = j := Table.eq_of_key hj' hj (hjk.trans hik)
    exact ⟨i.value, ⟨i, hi, hik, hexpired, rfl⟩, heq ▸ huser.symm⟩

theorem restorable (h : Restarted s s') (hlinked : Linked s) (hrest : Restorable s) :
    Restorable s' := by
  refine ⟨fun l hl => ?_, fun r hr => ?_, fun i hi => ?_⟩
  · have hl := h.alive l hl
    obtain ⟨i, hi, hkey⟩ := hrest.login l hl
    exact h.login l hl (hlinked.named hl hi hkey)
  · rw [h.accessTokens] at hr
    exact h.access r hr
  · obtain ⟨-, j, hj, hkey, huser⟩ := h.exists_before hlinked hrest hi
    rw [h.issued, ← hkey, ← huser]
    exact hrest.issued j hj

end Restarted

/-! ## The actions -/

namespace Restorable

/-- The users play no part. -/
theorem setUsers (h : Restorable s) (db : Database) :
    Restorable { s with db := { s.db with toDatabase := db } } :=
  ⟨h.login, h.access, h.issued⟩

theorem write (h : Restorable s) (f : Database → Except Error Database) : Restorable (s.write f) :=
  h.setUsers _

/-- Logs of failures may be written. -/
theorem logged (h : Restorable s) {db : AccountDatabase} (hlog : Logged (fun _ => False) s.db db) :
    Restorable { s with db } := by
  refine ⟨fun l hl => ?_, fun r hr => ?_, h.issued⟩
  · rcases hlog.alive l hl with hl | hfalse
    · exact h.login l hl
    · exact hfalse.elim
  · exact h.access r (hlog.accessTokens ▸ hr)

/-- Tokens may go as long as their logs go, and none of them is an access token. -/
theorem shrink (h : Restorable s) (hs : Shrinks s s')
    (hlogin : ∀ l, Alive s'.db l → ∀ i ∈ s.tokens, i.key = l.id → i ∈ s'.tokens)
    (haccess : ∀ i ∈ s.tokens, UserService.isForever i.key = true → i ∈ s'.tokens)
    (hlinked : Linked s) : Restorable s' := by
  refine ⟨fun l hl => ?_, fun r hr => ?_, fun i hi => ?_⟩
  · obtain ⟨i, hi, hkey⟩ := h.login l (hs.alive l hl)
    exact ⟨i, hlogin l hl i hi hkey, hkey⟩
  · rw [hs.accessTokens] at hr
    obtain ⟨i, hi, hkey⟩ := h.access r hr
    exact ⟨i, haccess i hi (hkey ▸ (hlinked.rows r hr).1), hkey⟩
  · rw [hs.issued]
    exact h.issued i (hs.tokens i hi)

/-- A login token may be logged out: its log gets a logout time. -/
theorem logout (h : Restorable s) (hlinked : Linked s) (ht : UserService.isForever t = false) :
    Restorable (UserService.logout s t) := by
  refine h.shrink (Shrinks.logout s t) ?_ ?_ hlinked
  · intro l hl i hi hkey
    refine mem_logout_tokens.mpr ⟨hi, fun heq => ?_⟩
    -- the callback has run for the token, so its log is not alive
    have hdb : (UserService.logout s t).db = UserService.onEvicted s.db t :=
      ExpiringCache.delete_fst_of_mem hi heq
    rw [hdb] at hl
    have hne : t ≠ "" := by
      rw [← heq, hkey]
      exact (hlinked.ids l (UserService.alive_of_onEvicted hl).1).1
    exact UserService.not_alive_onEvicted ht hne hl (hkey.symm.trans heq)
  · intro i hi hkind
    refine mem_logout_tokens.mpr ⟨hi, fun heq => ?_⟩
    rw [heq, ht] at hkind
    exact Bool.false_ne_true hkind

theorem foldl_logout (h : Restorable s) (hlinked : Linked s) {ls : List LoginLog}
    (hls : ∀ l ∈ ls, UserService.isForever l.id = false) :
    Restorable (ls.foldl (fun s l => UserService.logout s l.id) s) := by
  induction ls generalizing s with
  | nil => exact h
  | cons l ls ih =>
    obtain ⟨hl, hls⟩ := List.forall_mem_cons.mp hls
    exact ih (h.logout hlinked hl) (hlinked.shrink (Shrinks.logout s l.id)) hls

theorem logoutById (h : Restorable s) (hlinked : Linked s) {id : String}
    (hok : UserService.logoutById s id = .ok s') : Restorable s' := by
  obtain ⟨u, -, hok⟩ := bind_eq_ok.mp hok
  obtain rfl := Except.ok.inj hok
  refine h.foldl_logout hlinked fun l hl => ?_
  exact isForever_of_isUuid (hlinked.ids l (List.mem_filter.mp hl).1)

theorem updateStatusById (h : Restorable s) (hlinked : Linked s) (id status : String) :
    Restorable (s.updateStatusById id status).2 := by
  rcases updateStatusById_cases s id status with hout | ⟨s₁, hfirst, hwrite⟩
  · rw [hout]
    exact h
  have h₁ : Restorable s₁ := by
    rcases hfirst with ⟨-, rfl⟩ | hlogout
    · exact h
    · exact h.logoutById hlinked hlogout
  rcases hwrite with hout | ⟨db', -, hout⟩
  · rw [hout]
    exact h₁
  · rw [hout]
    exact h₁.setUsers db'

theorem webLogin (h : Restorable s) {w : WebLogin} (hdrawn : s.Drawn (.webLogin w)) :
    Restorable (AccountApi.loginEndpoint V s w).2 := by
  rcases @loginEndpoint_cases V s w hdrawn with ⟨⟨db', hlog, hout⟩, -⟩ |
    ⟨u, db', l, -, -, -, hlog, -, hid, -, hout⟩
  · rw [hout]
    exact h.logged hlog
  · rw [hout]
    refine ⟨fun l' hl' => ?_, fun r hr => ?_, fun i hi => ?_⟩
    · rcases hlog.alive l' hl' with hl' | rfl
      · obtain ⟨i, hi, hkey⟩ := h.login l' hl'
        obtain ⟨j, hj, hjk⟩ := exists_mem_set hi w.token _ true
        exact ⟨j, hj, hjk.trans hkey⟩
      · exact ⟨_, ExpiringCache.mem_set.mpr (.inl rfl), hid.symm⟩
    · obtain ⟨i, hi, hkey⟩ := h.access r (hlog.accessTokens ▸ hr)
      obtain ⟨j, hj, hjk⟩ := exists_mem_set hi w.token _ true
      exact ⟨j, hj, hjk.trans hkey⟩
    · rcases ExpiringCache.mem_set.mp hi with rfl | ⟨hi, -⟩
      · exact List.mem_cons_self
      · exact List.mem_cons_of_mem _ (h.issued i hi)

/-- An SSH login without a session writes at most logs of failures. -/
theorem sshLogin (h : Restorable s) {w : SshLogin} (hdrawn : s.Drawn (.sshLogin w))
    (hnone : ∀ v, ¬ w.Starts V s.db v) : Restorable (sshLogin V s w).2 := by
  have hlog : Logged (fun _ => False) s.db (NextDBM.sshLogin V s w).2.db := by
    refine (@logged_sshLogin V s w hdrawn).imp fun l hl => ?_
    obtain ⟨v, hv⟩ := Option.isSome_iff_exists.mp hl.2
    exact hnone v (sshLogin_fst.mp hv)
  obtain ⟨hlogin, haccess, hissued⟩ := h.logged hlog
  refine ⟨?_, ?_, ?_⟩
  · rw [sshLogin_tokens]
    exact hlogin
  · rw [sshLogin_tokens]
    exact haccess
  · rw [sshLogin_tokens, sshLogin_issued]
    exact hissued

/-- The tokens of other users keep their rows. -/
theorem mem_delAccessToken (hlinked : Linked s) {userId : String} (hi : i ∈ s.tokens)
    (hkeep : UserService.isForever i.key = true →
      ∃ r ∈ s.db.accessTokens, r.token = i.key ∧ r.userId ≠ userId) :
    i ∈ (AccessTokenService.delAccessToken s userId).tokens := by
  obtain ⟨-, -, htokens⟩ := delAccessToken_spec hlinked userId
  refine (htokens i).mpr ⟨hi, ?_⟩
  rintro ⟨hkind, huser⟩
  obtain ⟨r, hr, hkey, hne⟩ := hkeep hkind
  exact hne ((hlinked.access_user hr hi hkey.symm).symm.trans huser)

theorem delAccessToken (h : Restorable s) (hlinked : Linked s) (userId : String) :
    Restorable (AccessTokenService.delAccessToken s userId) := by
  obtain ⟨hdb, hissued, htokens⟩ := delAccessToken_spec hlinked userId
  refine ⟨fun l hl => ?_, fun r hr => ?_, fun i hi => ?_⟩
  · rw [hdb] at hl
    obtain ⟨i, hi, hkey⟩ := h.login l hl
    refine ⟨i, mem_delAccessToken hlinked hi fun hkind => ?_, hkey⟩
    rw [hkey, hlinked.not_forever hl] at hkind
    exact absurd hkind Bool.false_ne_true
  · rw [hdb] at hr
    obtain ⟨hr, hne⟩ := Table.mem_deleteWhere.mp hr
    obtain ⟨i, hi, hkey⟩ := h.access r hr
    exact ⟨i, mem_delAccessToken hlinked hi fun _ => ⟨r, hr, hkey.symm, beq_eq_false_iff_ne.mp hne⟩,
      hkey⟩
  · rw [hissued]
    exact h.issued i ((htokens i).mp hi).1

theorem genAccessToken (h : Restorable s) (hlinked : Linked s) {token userId id uuid : String}
    (hdrawn : s.Drawn (.genAccessToken token id uuid)) (huser : ∃ u ∈ s.db.users, u.id = userId) :
    Restorable (AccessTokenService.genAccessToken s userId id uuid).2 := by
  obtain ⟨u, -, hid, accessTokens, hrows, hgen⟩ := genAccessToken_spec hlinked hdrawn huser
  obtain ⟨-, -, htokens⟩ := delAccessToken_spec hlinked userId
  have hset : ∀ i ∈ (AccessTokenService.delAccessToken s userId).tokens,
      ∃ j ∈ (AccessTokenService.genAccessToken s userId id uuid).2.tokens, j.key = i.key := by
    intro i hi
    rw [hgen]
    exact exists_mem_set hi _ _ _
  refine ⟨fun l hl => ?_, fun r hr => ?_, fun i hi => ?_⟩
  · rw [hgen] at hl
    obtain ⟨i, hi, hkey⟩ := h.login l hl
    obtain ⟨j, hj, hjk⟩ := hset i (mem_delAccessToken hlinked hi fun hkind => by
      rw [hkey, hlinked.not_forever hl] at hkind
      exact absurd hkind Bool.false_ne_true)
    exact ⟨j, hj, hjk.trans hkey⟩
  · rw [hgen] at hr
    rcases (hrows r).mp hr with rfl | ⟨hr, hne⟩
    · rw [hgen]
      exact ⟨_, ExpiringCache.mem_set.mpr (.inl rfl), rfl⟩
    · obtain ⟨i, hi, hkey⟩ := h.access r hr
      obtain ⟨j, hj, hjk⟩ :=
        hset i (mem_delAccessToken hlinked hi fun _ => ⟨r, hr, hkey.symm, hne⟩)
      exact ⟨j, hj, hjk.trans hkey⟩
  · rw [hgen] at hi ⊢
    rcases ExpiringCache.mem_set.mp hi with rfl | ⟨hi, -⟩
    · rw [← hid]
      exact List.mem_cons_self
    · exact List.mem_cons_of_mem _ (h.issued i ((htokens i).mp hi).1)

theorem deleteLoginLogs (h : Restorable s) (hlinked : Linked s) (tokens : List String) :
    Restorable (UserService.deleteLoginLogs s tokens) := by
  induction tokens generalizing s with
  | nil => exact h
  | cons t tokens ih =>
    rw [UserService.deleteLoginLogs]
    cases hlogout : UserService.logoutByToken s.db t with
    | error e => exact h
    | ok db =>
      obtain ⟨hshrinks, htokens, hgone⟩ := deleteLoginLog_spec hlogout
      -- only the id of a log is logged out by hand
      have ht : UserService.isForever t = false := by
        obtain ⟨l, hfind, -⟩ := bind_eq_ok.mp hlogout
        obtain ⟨hl, hid⟩ := Table.findById_eq_some.mp (firstOrNotFound_eq_ok.mp hfind)
        exact hid ▸ isForever_of_isUuid (hlinked.ids l hl)
      refine ih (h.shrink hshrinks ?_ ?_ hlinked) (hlinked.shrink hshrinks)
      · intro l hl i hi hkey
        exact (htokens i).mpr ⟨hi, hkey ▸ hgone l hl⟩
      · intro i hi hkind
        refine (htokens i).mpr ⟨hi, fun heq => ?_⟩
        rw [heq, ht] at hkind
        exact Bool.false_ne_true hkind

/-- The passing of an expiry removes no key. -/
theorem expire (h : Restorable s) (t : String) :
    Restorable { s with tokens := s.tokens.expire t } := by
  refine ⟨fun l hl => ?_, fun r hr => ?_, fun i hi => ?_⟩
  · obtain ⟨i, hi, hkey⟩ := h.login l hl
    obtain ⟨j, hj, hjk, -⟩ := ExpiringCache.exists_mem_expire hi t
    exact ⟨j, hj, hjk.trans hkey⟩
  · obtain ⟨i, hi, hkey⟩ := h.access r hr
    obtain ⟨j, hj, hjk, -⟩ := ExpiringCache.exists_mem_expire hi t
    exact ⟨j, hj, hjk.trans hkey⟩
  · rcases ExpiringCache.mem_expire hi with hi | ⟨j, hj, rfl⟩
    · exact h.issued i hi
    · exact h.issued j hj

/-- A purge gives the log of each expired token a logout time. -/
theorem purge (h : Restorable s) (hlinked : Linked s) : Restorable s.purge := by
  refine h.shrink (shrinks_purge s) ?_ ?_ hlinked
  · intro l hl i hi hkey
    refine mem_purge_tokens.mpr ⟨hi, ?_⟩
    rw [Bool.eq_false_iff]
    intro hexpired
    obtain ⟨-, -, -, halive, -⟩ := foldl_onEvicted (s.tokens.rows.filter fun i => i.expired) s.db
    obtain ⟨hl', hnot⟩ := halive l hl
    have hkind : UserService.isForever i.key = false := hkey ▸ hlinked.not_forever hl'
    have hne : i.key ≠ "" := hkey ▸ (hlinked.ids l hl'.1).1
    exact hnot i (List.mem_filter.mpr ⟨hi, hexpired⟩) hkind hne hkey.symm
  · intro i hi hkind
    exact mem_purge_tokens.mpr ⟨hi, (hlinked.access i hi hkind).2.1⟩

/-- What an action of the guard preserves. -/
theorem step (h : Restorable s) (hlinked : Linked s) {a : AccountAction} (hok : s.Rebuilds V a)
    (hstep : s.step V a = some s') : Restorable s' := by
  obtain ⟨hdrawn, hact⟩ := step_eq_some.mp hstep
  cases a with
  | createUser uuid user encoded storageCreated => exact Option.some.inj hact ▸ h.write _
  | updateUser uuid id user => exact Option.some.inj hact ▸ h.write _
  | updateStatus id status => exact Option.some.inj hact ▸ h.updateStatusById hlinked id status
  | webLogin w => exact Option.some.inj hact ▸ h.webLogin hdrawn
  | sshLogin w => exact Option.some.inj hact ▸ h.sshLogin hdrawn hok
  | request token => exact Option.some.inj hact ▸ h
  | logout token =>
    obtain rfl := Option.some.inj hact
    split
    · next haccount =>
      refine h.logout hlinked ?_
      rw [Bool.eq_false_iff]
      intro hkind
      rw [hok hkind] at haccount
      exact Bool.false_ne_true haccount
    · exact h
  | genAccessToken token id uuid =>
    rcases act_genAccessToken hact with rfl | ⟨userId, ha, rfl⟩
    · exact h
    · exact h.genAccessToken hlinked hdrawn (hlinked.account ha)
  | delAccessToken token =>
    rcases act_delAccessToken hact with rfl | ⟨userId, ha, rfl⟩
    · exact h
    · exact h.delAccessToken hlinked userId
  | deleteLoginLogs tokens => exact Option.some.inj hact ▸ h.deleteLoginLogs hlinked tokens
  | expire token => exact Option.some.inj hact ▸ h.expire token
  | purge => exact Option.some.inj hact ▸ h.purge hlinked
  | restart =>
    obtain ⟨s'', hstart, -, hrestarted⟩ := reloadData_spec hlinked
    rw [AccountServer.act, hstart] at hact
    exact Option.some.inj hact ▸ hrestarted.restorable hlinked h

end Restorable

/-! ## Restarts -/

namespace AccountServer

/-- In a run that keeps the tokens and their rows together, a restart rebuilds exactly the issued
tokens that are live. -/
theorem rebuildsIssued_of_reaches {db : AccountDatabase}
    (hnames : ∀ u ∈ db.users, ∀ v ∈ db.users, u.username = v.username → u = v)
    (hs : Reaches V (Rebuilds V) (init db) s) (hstop : s.Rebuilds V .restart) :
    s.RebuildsIssued := by
  have hinv : Linked s ∧ Restorable s := by
    refine Transition.Reaches.invariant (I := fun s => Linked s ∧ Restorable s)
      (fun s a s' h hok hstep => ?_) hs ⟨Linked.init hnames, nofun, nofun, nofun⟩
    refine ⟨h.1.step hstep ?_, h.2.step h.1 hok hstep⟩
    rintro uuid id user rfl
    exact hok
  obtain ⟨s', hstart, -, hrestarted⟩ := reloadData_spec hinv.1
  exact ⟨s', hstart, hrestarted.account_iff hinv.1 hinv.2 hstop⟩

theorem rebuildsIssued_of_reaches_webLogin :
    (AccountApi.loginEndpoint plainVerifiers (init oneUser) (oneWebLogin ⟨1, 12, 0⟩)).2.RebuildsIssued := by
  refine rebuildsIssued_of_reaches (V := plainVerifiers) (by decide)
    (.head (a := .webLogin (oneWebLogin ⟨1, 12, 0⟩)) trivial (if_pos (by decide)) (.refl _)) ?_
  show ∀ i ∈ (AccountApi.loginEndpoint plainVerifiers (init oneUser) (oneWebLogin ⟨1, 12, 0⟩)).2.tokens.rows,
    i.expired = false
  decide

/-- The id of the log of an SSH login is a token after a restart. -/
theorem not_rebuildsIssued_sshLogin :
    Reaches plainVerifiers Transition.Any (init oneUser)
        (sshLogin plainVerifiers (init oneUser) oneSshLogin).2 ∧
      ¬ (sshLogin plainVerifiers (init oneUser) oneSshLogin).2.RebuildsIssued := by
  refine ⟨.head (a := .sshLogin oneSshLogin) trivial (if_pos (by decide)) (.refl _), ?_⟩
  rintro ⟨s', hstart, hrebuilds⟩
  have heq : (reloadData (sshLogin plainVerifiers (init oneUser) oneSshLogin).2).toOption.bind
      (fun s => s.account "d1") = some "u1" := by decide
  rw [hstart] at heq
  exact absurd ((hrebuilds "d1" "u1").mp heq).1 (by decide)

end AccountServer

end NextDBM
