import NextDBM.Accounts.Proofs.SshdProofs
import NextDBM.Accounts.Tokens

/-!
# Proofs: tokens and the rows behind them

`Linked` is what every run keeps: behind each login token of the cache stands a login log without a
logout time, whose name is the present name of the user that the token authenticates, and behind each
access token a row for its user. An operation that only removes tokens, and logs out no other ones,
keeps it (`Linked.shrink`); the logins, the generation of an access token, the writers of the users
and a start have a lemma each.
-/

namespace NextDBM

open Relational

/-- A login log of the store that has no logout time. -/
def Alive (db : AccountDatabase) (l : LoginLog) : Prop :=
  l ∈ db.loginLogs ∧ LoginLogRepository.isAlive l = true

theorem Alive.eq_of_id {db : AccountDatabase} {l l' : LoginLog} (h : Alive db l) (h' : Alive db l')
    (hid : l.id = l'.id) : l = l' :=
  Table.eq_of_key h.1 h'.1 hid

/-! ## Kinds of tokens -/

theorem isForever_of_isUuid {t : String} (h : IsUuid t) : UserService.isForever t = false := by
  rw [Bool.eq_false_iff]
  intro hforever
  have hprefix : "forever".toList <+: t.toList := Text.hasPrefix_iff.mp hforever
  have hmem : 'o' ∈ t.toList := hprefix.subset (by decide)
  exact absurd (h.2 'o' hmem) (by decide)

theorem isForever_access (uuid : String) : UserService.isForever ("forever-" ++ uuid) = true := by
  refine Text.hasPrefix_iff.mpr ?_
  rw [String.toList_append]
  exact (by decide : "forever".toList <+: "forever-".toList).trans (List.prefix_append _ _)

/-! ## Evictions -/

namespace UserService

variable {db db' : AccountDatabase} {s : AccountServer} {t : String} {l : LoginLog}

theorem logoutByToken_ok (h : logoutByToken db t = .ok db') :
    t ≠ "" ∧ db' = { db with
      loginLogs := db.loginLogs.updateById t (fun l => { l with loggedOut := true }) fun _ => rfl } := by
  obtain ⟨l, -, hupdate⟩ := bind_eq_ok.mp h
  rw [LoginLogRepository.updateLogoutTime] at hupdate
  split at hupdate
  · cases hupdate
  · next hne => exact ⟨hne, (Except.ok.inj hupdate).symm⟩

/-- Writing a logout time leaves the other logs alive. -/
theorem alive_logoutByToken (h : logoutByToken db t = .ok db') :
    Alive db' l ↔ Alive db l ∧ l.id ≠ t := by
  obtain ⟨-, rfl⟩ := logoutByToken_ok h
  constructor
  · rintro ⟨hl, halive⟩
    obtain ⟨l₀, hl₀, heq⟩ := List.mem_map.mp hl
    split at heq
    · rw [← heq] at halive
      simp [LoginLogRepository.isAlive] at halive
    · next hid => exact ⟨⟨heq ▸ hl₀, halive⟩, heq ▸ hid⟩
  · rintro ⟨⟨hl, halive⟩, hid⟩
    exact ⟨Table.mem_updateById_of_ne hl hid (fun l => { l with loggedOut := true }) fun _ => rfl,
      halive⟩

/-- Writing a logout time keeps the ids of the logs. -/
theorem id_logoutByToken (h : logoutByToken db t = .ok db') (hl : l ∈ db'.loginLogs) :
    ∃ l' ∈ db.loginLogs, l'.id = l.id := by
  obtain ⟨-, rfl⟩ := logoutByToken_ok h
  obtain ⟨l', hl', rfl⟩ := List.mem_map.mp hl
  refine ⟨l', hl', ?_⟩
  split <;> rfl

theorem logoutByToken_error {e : Error} (h : logoutByToken db t = .error e) :
    t = "" ∨ ∀ l ∈ db.loginLogs, l.id ≠ t := by
  by_cases hne : t = ""
  · exact .inl hne
  · refine .inr fun l hl hid => ?_
    have hfind : LoginLogRepository.findById db t = .ok l :=
      firstOrNotFound_eq_ok.mpr (Table.findById_eq_some.mpr ⟨hl, hid⟩)
    have hok : logoutByToken db t = LoginLogRepository.updateLogoutTime db t := by
      unfold logoutByToken
      rw [hfind]
      rfl
    rw [hok, LoginLogRepository.updateLogoutTime, if_neg hne] at h
    cases h

/-- The callback leaves the logs as they are, or writes a logout time. -/
theorem onEvicted_cases (db : AccountDatabase) (t : String) :
    onEvicted db t = db ∨ logoutByToken db t = .ok (onEvicted db t) := by
  rw [onEvicted]
  split
  · exact .inl rfl
  · cases h : logoutByToken db t with
    | error e => exact .inl rfl
    | ok db' => exact .inr rfl

theorem onEvicted_loginLogs (db : AccountDatabase) (t : String) :
    ∃ loginLogs, onEvicted db t = { db with loginLogs } := by
  rcases onEvicted_cases db t with hsame | hlogout
  · exact ⟨db.loginLogs, hsame⟩
  · exact ⟨_, (logoutByToken_ok hlogout).2⟩

theorem onEvicted_toDatabase : (onEvicted db t).toDatabase = db.toDatabase := by
  obtain ⟨loginLogs, h⟩ := onEvicted_loginLogs db t
  rw [h]

theorem onEvicted_accessTokens : (onEvicted db t).accessTokens = db.accessTokens := by
  obtain ⟨loginLogs, h⟩ := onEvicted_loginLogs db t
  rw [h]

theorem id_onEvicted (hl : l ∈ (onEvicted db t).loginLogs) : ∃ l' ∈ db.loginLogs, l'.id = l.id := by
  rcases onEvicted_cases db t with hsame | hlogout
  · exact ⟨l, hsame ▸ hl, rfl⟩
  · exact id_logoutByToken hlogout hl

theorem alive_of_onEvicted (h : Alive (onEvicted db t) l) : Alive db l := by
  rcases onEvicted_cases db t with hsame | hlogout
  · exact hsame ▸ h
  · exact ((alive_logoutByToken hlogout).mp h).1

theorem alive_onEvicted_of_ne (h : Alive db l) (hid : l.id ≠ t) : Alive (onEvicted db t) l := by
  rcases onEvicted_cases db t with hsame | hlogout
  · rw [hsame]
    exact h
  · exact (alive_logoutByToken hlogout).mpr ⟨h, hid⟩

/-- An evicted login token leaves no log alive behind it. -/
theorem not_alive_onEvicted (hforever : isForever t = false) (hne : t ≠ "")
    (h : Alive (onEvicted db t) l) : l.id ≠ t := by
  rw [onEvicted, hforever] at h
  simp only [Bool.false_eq_true, if_false] at h
  cases hlogout : logoutByToken db t with
  | error e =>
    rw [hlogout] at h
    rcases logoutByToken_error hlogout with hempty | hnone
    · exact absurd hempty hne
    · exact hnone l h.1
  | ok db' =>
    rw [hlogout] at h
    exact ((alive_logoutByToken hlogout).mp h).2

/-- A logout calls back for a token that is stored. -/
theorem logout_db_cases (s : AccountServer) (t : String) :
    (logout s t).db = onEvicted s.db t ∨ (logout s t).db = s.db := by
  by_cases hmem : ∃ i ∈ s.tokens, i.key = t
  · obtain ⟨i, hi, hkey⟩ := hmem
    exact .inl (ExpiringCache.delete_fst_of_mem hi hkey)
  · exact .inr (ExpiringCache.delete_fst_of_not_mem fun i hi hkey => hmem ⟨i, hi, hkey⟩)

end UserService

/-! ## Operations that only remove tokens -/

/-- `s'` is `s` with some tokens removed: no log is alive anew, and the logs of the login tokens that
are left are alive as before. -/
structure Shrinks (s s' : AccountServer) : Prop where
  database : s'.db.toDatabase = s.db.toDatabase
  accessTokens : s'.db.accessTokens = s.db.accessTokens
  issued : s'.issued = s.issued
  tokens : ∀ i ∈ s'.tokens, i ∈ s.tokens
  ids : ∀ l ∈ s'.db.loginLogs, ∃ l' ∈ s.db.loginLogs, l'.id = l.id
  alive : ∀ l, Alive s'.db l → Alive s.db l
  kept : ∀ i ∈ s'.tokens, ∀ l, Alive s.db l → l.id = i.key → Alive s'.db l

namespace Shrinks

variable {s s' s'' : AccountServer}

theorem refl (s : AccountServer) : Shrinks s s :=
  ⟨rfl, rfl, rfl, fun _ hi => hi, fun l hl => ⟨l, hl, rfl⟩, fun _ hl => hl, fun _ _ _ hl _ => hl⟩

theorem trans (h : Shrinks s s') (h' : Shrinks s' s'') : Shrinks s s'' := by
  refine ⟨h'.database.trans h.database, h'.accessTokens.trans h.accessTokens,
    h'.issued.trans h.issued, fun i hi => h.tokens i (h'.tokens i hi), fun l hl => ?_,
    fun l hl => h.alive l (h'.alive l hl),
    fun i hi l hl hid => h'.kept i hi l (h.kept i (h'.tokens i hi) l hl hid) hid⟩
  obtain ⟨l', hl', hid'⟩ := h'.ids l hl
  obtain ⟨l'', hl'', hid''⟩ := h.ids l' hl'
  exact ⟨l'', hl'', hid''.trans hid'⟩

theorem logout (s : AccountServer) (t : String) : Shrinks s (UserService.logout s t) := by
  rcases UserService.logout_db_cases s t with hdb | hdb
  · refine ⟨?_, ?_, rfl, fun j hj => (ExpiringCache.mem_delete_snd.mp hj).1, ?_, ?_, ?_⟩
    · rw [hdb, UserService.onEvicted_toDatabase]
    · rw [hdb, UserService.onEvicted_accessTokens]
    · intro l hl
      rw [hdb] at hl
      exact UserService.id_onEvicted hl
    · intro l hl
      rw [hdb] at hl
      exact UserService.alive_of_onEvicted hl
    · intro j hj l hl hid
      rw [hdb]
      exact UserService.alive_onEvicted_of_ne hl (hid ▸ (ExpiringCache.mem_delete_snd.mp hj).2)
  · refine ⟨by rw [hdb], by rw [hdb], rfl, fun j hj => (ExpiringCache.mem_delete_snd.mp hj).1, ?_, ?_,
      ?_⟩
    · intro l hl
      exact ⟨l, hdb ▸ hl, rfl⟩
    · intro l hl
      exact hdb ▸ hl
    · intro j _ l hl _
      exact hdb ▸ hl

end Shrinks

theorem mem_logout_tokens {s : AccountServer} {t : String} {i : ExpiringCache.Item String Authorization} :
    i ∈ (UserService.logout s t).tokens ↔ i ∈ s.tokens ∧ i.key ≠ t :=
  ExpiringCache.mem_delete_snd

/-- Logging out a list of tokens removes exactly these. -/
theorem mem_foldl_logout {s : AccountServer} {ls : List LoginLog}
    {i : ExpiringCache.Item String Authorization} :
    i ∈ (ls.foldl (fun s l => UserService.logout s l.id) s).tokens ↔
      i ∈ s.tokens ∧ ∀ l ∈ ls, i.key ≠ l.id := by
  induction ls generalizing s with
  | nil => simp
  | cons l ls ih =>
    rw [List.foldl_cons, ih, mem_logout_tokens, List.forall_mem_cons, and_assoc]

theorem Shrinks.foldl_logout (s : AccountServer) (ls : List LoginLog) :
    Shrinks s (ls.foldl (fun s l => UserService.logout s l.id) s) := by
  induction ls generalizing s with
  | nil => exact Shrinks.refl s
  | cons l ls ih => exact (Shrinks.logout s l.id).trans (ih _)

/-! ## What stands behind the tokens -/

/-- The rows behind the tokens of the cache. -/
structure Linked (s : AccountServer) : Prop where
  names : ∀ u ∈ s.db.users, ∀ v ∈ s.db.users, u.username = v.username → u = v
  ids : ∀ l ∈ s.db.loginLogs, IsUuid l.id
  login : ∀ i ∈ s.tokens, UserService.isForever i.key = false → ∃ l, Alive s.db l ∧ l.id = i.key ∧
    ∃ u ∈ s.db.users, u.id = i.value.user.id ∧ u.username = l.username
  access : ∀ i ∈ s.tokens, UserService.isForever i.key = true → i.expires = false ∧
    i.expired = false ∧ ∃ r ∈ s.db.accessTokens, r.token = i.key ∧ r.userId = i.value.user.id
  rows : ∀ r ∈ s.db.accessTokens, UserService.isForever r.token = true ∧
    ∃ u ∈ s.db.users, u.id = r.userId
  row_unique : ∀ r ∈ s.db.accessTokens, ∀ r' ∈ s.db.accessTokens,
    r.userId = r'.userId ∨ r.token = r'.token → r = r'

namespace Linked

variable {s s' : AccountServer} {l : LoginLog} {u : User} {r : AccessToken} {t : String}
  {a : Authorization} {issued : List (String × String)}

theorem shrink (h : Linked s) (hs : Shrinks s s') : Linked s' := by
  refine ⟨?_, ?_, ?_, ?_, ?_, ?_⟩
  · rw [hs.database]
    exact h.names
  · intro l hl
    obtain ⟨l', hl', hid⟩ := hs.ids l hl
    exact hid ▸ h.ids l' hl'
  · intro i hi hkind
    obtain ⟨l, hl, hid, u, hu, huser, hname⟩ := h.login i (hs.tokens i hi) hkind
    exact ⟨l, hs.kept i hi l hl hid, hid, u, hs.database ▸ hu, huser, hname⟩
  · intro i hi hkind
    rw [hs.accessTokens]
    exact h.access i (hs.tokens i hi) hkind
  · rw [hs.accessTokens, hs.database]
    exact h.rows
  · rw [hs.accessTokens]
    exact h.row_unique

/-- Every token authenticates a stored user. -/
theorem user_exists (h : Linked s) {i : ExpiringCache.Item String Authorization}
    (hi : i ∈ s.tokens) : ∃ u ∈ s.db.users, u.id = i.value.user.id := by
  cases hkind : UserService.isForever i.key with
  | true =>
    obtain ⟨-, -, r, hr, -, huser⟩ := h.access i hi hkind
    obtain ⟨-, u, hu, hid⟩ := h.rows r hr
    exact ⟨u, hu, hid.trans huser⟩
  | false =>
    obtain ⟨l, -, -, u, hu, huser, -⟩ := h.login i hi hkind
    exact ⟨u, hu, huser⟩

/-- The users may change as long as no id goes away and no log of a changed name is alive. -/
theorem setUsers (h : Linked s) {db : Database}
    (hnames : ∀ u ∈ db.users, ∀ v ∈ db.users, u.username = v.username → u = v)
    (hold : ∀ u ∈ s.db.users, ∃ u' ∈ db.users, u'.id = u.id ∧
      (u'.username = u.username ∨ ∀ l, Alive s.db l → l.username ≠ u.username)) :
    Linked { s with db := { s.db with toDatabase := db } } := by
  refine ⟨hnames, h.ids, ?_, h.access, ?_, h.row_unique⟩
  · intro i hi hkind
    obtain ⟨l, hl, hid, u, hu, huser, hname⟩ := h.login i hi hkind
    obtain ⟨u', hu', hid', hname' | hnone⟩ := hold u hu
    · exact ⟨l, hl, hid, u', hu', hid'.trans huser, hname'.trans hname⟩
    · exact absurd hname.symm (hnone l hl)
  · intro r hr
    obtain ⟨hforever, u, hu, huser⟩ := h.rows r hr
    obtain ⟨u', hu', hid', -⟩ := hold u hu
    exact ⟨hforever, u', hu', hid'.trans huser⟩

/-- A token may be stored for the user named by a log that is alive. -/
theorem setLogin (h : Linked s) (hl : Alive s.db l) (hu : u ∈ s.db.users)
    (hname : u.username = l.username) (ha : a.user = u) :
    Linked { s with tokens := s.tokens.set l.id a true, issued } := by
  have hkind : UserService.isForever l.id = false := isForever_of_isUuid (h.ids l hl.1)
  refine ⟨h.names, h.ids, ?_, ?_, h.rows, h.row_unique⟩
  · intro i hi hi'
    rcases ExpiringCache.mem_set.mp hi with rfl | ⟨hi, -⟩
    · exact ⟨l, hl, rfl, u, hu, by rw [ha], hname⟩
    · exact h.login i hi hi'
  · intro i hi hi'
    rcases ExpiringCache.mem_set.mp hi with rfl | ⟨hi, -⟩
    · exact absurd (hkind.symm.trans hi') Bool.false_ne_true
    · exact h.access i hi hi'

/-- A token may be stored for the user of an access token. -/
theorem setAccess (h : Linked s) (hr : r ∈ s.db.accessTokens) (ha : a.user.id = r.userId) :
    Linked { s with tokens := s.tokens.set r.token a false, issued } := by
  have hkind : UserService.isForever r.token = true := (h.rows r hr).1
  refine ⟨h.names, h.ids, ?_, ?_, h.rows, h.row_unique⟩
  · intro i hi hi'
    rcases ExpiringCache.mem_set.mp hi with rfl | ⟨hi, -⟩
    · exact absurd (hkind.symm.trans hi') (Ne.symm Bool.false_ne_true)
    · exact h.login i hi hi'
  · intro i hi hi'
    rcases ExpiringCache.mem_set.mp hi with rfl | ⟨hi, -⟩
    · exact ⟨rfl, rfl, r, hr, rfl, ha.symm⟩
    · exact h.access i hi hi'

end Linked

/-! ## Logs -/

section SaveLoginLog

variable {db db' : AccountDatabase} {clientIP clientUserAgent username id reason uuid : String}
  {success remember : Bool} {l : LoginLog} {s : AccountServer}

/-- The log that `SaveLoginLog` writes. -/
def loginLogOf (clientIP clientUserAgent username : String) (success remember : Bool)
    (id reason uuid : String) : LoginLog :=
  { id := if success then id else uuid
    state := if success then "1" else "0"
    username, clientIP, clientUserAgent, reason, remember }

theorem saveLoginLog_eq : UserService.saveLoginLog db clientIP clientUserAgent username success remember
      id reason uuid =
    match db.loginLogs.insert
        (loginLogOf clientIP clientUserAgent username success remember id reason uuid) with
    | some loginLogs => .ok { db with loginLogs }
    | none => .error .duplicatedKey := rfl

theorem saveLoginLog_ok (h : UserService.saveLoginLog db clientIP clientUserAgent username success
    remember id reason uuid = .ok db') :
    ∃ loginLogs, db.loginLogs.insert
        (loginLogOf clientIP clientUserAgent username success remember id reason uuid) =
      some loginLogs ∧ db' = { db with loginLogs } := by
  rw [saveLoginLog_eq] at h
  split at h
  · next loginLogs hinsert => exact ⟨loginLogs, hinsert, (Except.ok.inj h).symm⟩
  · cases h

/-- `db'` is `db` with logs of failures, and maybe a log of a success with the property `p`. -/
structure Logged (p : LoginLog → Prop) (db db' : AccountDatabase) : Prop where
  database : db'.toDatabase = db.toDatabase
  accessTokens : db'.accessTokens = db.accessTokens
  ids : ∀ l ∈ db'.loginLogs, l ∈ db.loginLogs ∨ IsUuid l.id
  alive : ∀ l, Alive db' l → Alive db l ∨ p l
  kept : ∀ l, Alive db l → Alive db' l

namespace Logged

variable {db'' : AccountDatabase} {p q : LoginLog → Prop}

theorem refl (p : LoginLog → Prop) (db : AccountDatabase) : Logged p db db :=
  ⟨rfl, rfl, fun _ hl => .inl hl, fun _ hl => .inl hl, fun _ hl => hl⟩

theorem trans (h : Logged p db db') (h' : Logged p db' db'') : Logged p db db'' := by
  refine ⟨h'.database.trans h.database, h'.accessTokens.trans h.accessTokens, ?_, ?_,
    fun l hl => h'.kept l (h.kept l hl)⟩
  · intro l hl
    rcases h'.ids l hl with hl | hl
    · exact h.ids l hl
    · exact .inr hl
  · intro l hl
    rcases h'.alive l hl with hl | hl
    · exact h.alive l hl
    · exact .inr hl

/-- Logs that have one property have another. -/
theorem imp (h : Logged p db db') (hpq : ∀ l, p l → q l) : Logged q db db' :=
  ⟨h.database, h.accessTokens, h.ids, fun l hl => (h.alive l hl).imp_right (hpq l), h.kept⟩

/-- The log of a failure is not alive. -/
theorem of_failure (h : UserService.saveLoginLog db clientIP clientUserAgent username false remember
    id reason uuid = .ok db') (huuid : IsUuid uuid) (p : LoginLog → Prop) : Logged p db db' := by
  obtain ⟨loginLogs, hinsert, rfl⟩ := saveLoginLog_ok h
  refine ⟨rfl, rfl, ?_, ?_, ?_⟩
  · intro l hl
    rcases (Table.mem_of_insert hinsert).mp hl with rfl | hl
    · exact .inr huuid
    · exact .inl hl
  · rintro l ⟨hl, halive⟩
    rcases (Table.mem_of_insert hinsert).mp hl with rfl | hl
    · exact absurd halive (by simp [loginLogOf, LoginLogRepository.isAlive])
    · exact .inl ⟨hl, halive⟩
  · rintro l ⟨hl, halive⟩
    exact ⟨(Table.mem_of_insert hinsert).mpr (.inr hl), halive⟩

theorem of_success (h : UserService.saveLoginLog db clientIP clientUserAgent username true remember id
    reason uuid = .ok db') (hid : IsUuid id) :
    Logged (fun l => l.id = id ∧ l.username = username) db db' := by
  obtain ⟨loginLogs, hinsert, rfl⟩ := saveLoginLog_ok h
  refine ⟨rfl, rfl, ?_, ?_, ?_⟩
  · intro l hl
    rcases (Table.mem_of_insert hinsert).mp hl with rfl | hl
    · exact .inr hid
    · exact .inl hl
  · rintro l ⟨hl, halive⟩
    rcases (Table.mem_of_insert hinsert).mp hl with rfl | hl
    · exact .inr ⟨rfl, rfl⟩
    · exact .inl ⟨hl, halive⟩
  · rintro l ⟨hl, halive⟩
    exact ⟨(Table.mem_of_insert hinsert).mpr (.inr hl), halive⟩

/-- A call whose error is ignored. -/
theorem of_orKept {x : Except Error AccountDatabase} (h : ∀ db', x = .ok db' → Logged p db db') :
    Logged p db (orKept db x) := by
  cases x with
  | ok db' => exact h db' rfl
  | error e => exact refl p db

end Logged

theorem Linked.logged {p : LoginLog → Prop} (h : Linked s) (hlog : Logged p s.db db') :
    Linked { s with db := db' } := by
  refine ⟨?_, ?_, ?_, ?_, ?_, ?_⟩
  · show ∀ u ∈ db'.users, ∀ v ∈ db'.users, u.username = v.username → u = v
    rw [hlog.database]
    exact h.names
  · intro l hl
    rcases hlog.ids l hl with hl | hl
    · exact h.ids l hl
    · exact hl
  · intro i hi hkind
    obtain ⟨l, hl, hkey, u, hu, huser, hname⟩ := h.login i hi hkind
    exact ⟨l, hlog.kept l hl, hkey, u, hlog.database ▸ hu, huser, hname⟩
  · intro i hi hkind
    show _ ∧ _ ∧ ∃ r ∈ db'.accessTokens, _
    rw [hlog.accessTokens]
    exact h.access i hi hkind
  · show ∀ r ∈ db'.accessTokens, _ ∧ ∃ u ∈ db'.users, _
    rw [hlog.accessTokens, hlog.database]
    exact h.rows
  · show ∀ r ∈ db'.accessTokens, ∀ r' ∈ db'.accessTokens, _
    rw [hlog.accessTokens]
    exact h.row_unique

end SaveLoginLog

/-! ## The logins -/

section Logins

variable {V : Verifiers} {s : AccountServer} {w : WebLogin} {u : User}

/-- A web login that stores no token: it writes at most the log of a failure. -/
def Declined (s : AccountServer) (out : LoginAnswer × AccountServer) : Prop :=
  (∃ db', Logged (fun _ => False) s.db db' ∧ out.2 = { s with db := db' }) ∧
    ∀ u t, out.1 ≠ .success u t

/-- A web login that stores the token of a user who is not disabled, with a log of the same id. -/
def Accepted (s : AccountServer) (w : WebLogin) (out : LoginAnswer × AccountServer) : Prop :=
  ∃ u db' l, u ∈ s.db.users ∧ u.username = w.username ∧ u.status ≠ nd.statusDisabled ∧
    Logged (fun l' => l' = l) s.db db' ∧ Alive db' l ∧ l.id = w.token ∧ l.username = w.username ∧
    out = (.success u w.token,
      { db := db'
        tokens := s.tokens.set w.token
          { token := w.token, type := nd.loginToken, remember := w.remember, user := u } true
        issued := (w.token, u.id) :: s.issued })

theorem declined_of_same {answer : LoginAnswer} (h : ∀ u t, answer ≠ .success u t) :
    Declined s (answer, s) :=
  ⟨⟨s.db, Logged.refl _ _, rfl⟩, h⟩

theorem declined_failed (hdrawn : s.Drawn (.webLogin w)) (message reason : String) :
    Declined s (AccountApi.failed s w message reason) := by
  rw [AccountApi.failed]
  cases hsave : UserService.saveLoginLog s.db w.realIP w.userAgent w.username false w.remember ""
      reason w.uuid with
  | error e => exact declined_of_same nofun
  | ok db' => exact ⟨⟨db', Logged.of_failure hsave hdrawn.2.1 _, rfl⟩, nofun⟩

/-- The log of a success is written, since its id is new. -/
theorem accepted_loginSuccess (hdrawn : s.Drawn (.webLogin w)) (hu : u ∈ s.db.users)
    (hname : u.username = w.username) (hstatus : u.status ≠ nd.statusDisabled) :
    Declined s (AccountApi.loginSuccess V s w u) ∨ Accepted s w (AccountApi.loginSuccess V s w u) := by
  rw [AccountApi.loginSuccess]
  cases LoginPolicyService.check V.contains s.db u.id w.realIP w.now with
  | error refusal => exact .inl (declined_of_same nofun)
  | ok o =>
    cases o
    cases hsave : UserService.saveLoginLog s.db w.realIP w.userAgent w.username true w.remember
        w.token "" w.uuid with
    | error e =>
      -- the insert is refused only when a log has the id
      have hnone : s.db.loginLogs.insert
          (loginLogOf w.realIP w.userAgent w.username true w.remember w.token "" w.uuid) = none := by
        rw [saveLoginLog_eq] at hsave
        split at hsave
        · cases hsave
        · next hinsert => exact hinsert
      obtain ⟨r, hr, hid⟩ := Table.insert_eq_none.mp hnone
      exact absurd hid (hdrawn.2.2.1 r hr)
    | ok db' =>
      obtain ⟨loginLogs, hinsert, rfl⟩ := saveLoginLog_ok hsave
      refine .inr ⟨u, { s.db with loginLogs }, loginLogOf w.realIP w.userAgent w.username true w.remember w.token "" w.uuid,
        hu, hname, hstatus, ⟨rfl, rfl, ?_, ?_, ?_⟩, ⟨?_, rfl⟩, rfl, rfl, rfl⟩
      · intro l hl
        rcases (Table.mem_of_insert hinsert).mp hl with rfl | hl
        · exact .inr hdrawn.1
        · exact .inl hl
      · rintro l ⟨hl, halive⟩
        rcases (Table.mem_of_insert hinsert).mp hl with rfl | hl
        · exact .inr rfl
        · exact .inl ⟨hl, halive⟩
      · rintro l ⟨hl, halive⟩
        exact ⟨(Table.mem_of_insert hinsert).mpr (.inr hl), halive⟩
      · exact (Table.mem_of_insert hinsert).mpr (.inl rfl)

/-- Everything that a web login can do. -/
theorem loginEndpoint_cases (hdrawn : s.Drawn (.webLogin w)) :
    Declined s (AccountApi.loginEndpoint V s w) ∨ Accepted s w (AccountApi.loginEndpoint V s w) := by
  rw [AccountApi.loginEndpoint]
  by_cases hcount : 5 ≤ w.failCount.getD 1
  · rw [if_pos hcount]
    exact .inl (declined_of_same nofun)
  rw [if_neg hcount]
  by_cases hlong : 100 < w.password.utf8ByteSize
  · rw [if_pos hlong]
    exact .inl (declined_of_same nofun)
  rw [if_neg hlong]
  cases hfind : UserRepository.findByUsername s.db.toDatabase w.username with
  | error e => exact .inl (declined_failed hdrawn _ _)
  | ok user =>
    obtain ⟨hu, hname, -⟩ := Sshd.findByUsername_eq_ok.mp hfind
    show Declined s (ite _ _ _) ∨ Accepted s w (ite _ _ _)
    by_cases hstatus : user.status = nd.statusDisabled
    · rw [if_pos hstatus]
      exact .inl (declined_of_same nofun)
    rw [if_neg hstatus]
    by_cases hmatch : (!V.encoderMatch user.password w.password) = true
    · rw [if_pos hmatch]
      exact .inl (declined_failed hdrawn _ _)
    rw [if_neg hmatch]
    by_cases hsecret : user.totpSecret ≠ "" ∧ user.totpSecret ≠ "-"
    · rw [if_pos hsecret]
      by_cases htotp : w.totp = ""
      · rw [if_pos htotp]
        exact .inl (declined_of_same nofun)
      rw [if_neg htotp]
      by_cases hvalid : (!V.validate w.time w.totp user.totpSecret) = true
      · rw [if_pos hvalid]
        exact .inl (declined_failed hdrawn _ _)
      rw [if_neg hvalid]
      exact accepted_loginSuccess hdrawn hu hname hstatus
    · rw [if_neg hsecret]
      exact accepted_loginSuccess hdrawn hu hname hstatus

theorem Linked.webLogin (h : Linked s) (hdrawn : s.Drawn (.webLogin w)) :
    Linked (AccountApi.loginEndpoint V s w).2 := by
  rcases @loginEndpoint_cases V s w hdrawn with ⟨⟨db', hlog, hout⟩, -⟩ |
    ⟨u, db', l, hu, hname, -, hlog, hl, hid, hlname, hout⟩
  · rw [hout]
    exact h.logged hlog
  · have hlinked : Linked { s with db := db' } := h.logged hlog
    rw [hout, ← hid]
    exact hlinked.setLogin hl (hlog.database ▸ hu) (hname.trans hlname.symm) rfl

end Logins

/-! ## SSH logins -/

section SshLogins

variable {V : Verifiers} {s : AccountServer} {w : SshLogin} {db : AccountDatabase}

theorem logged_passwordAuth (p : LoginLog → Prop) {encoderMatch : String → String → Bool}
    {sess : Sshd.Session} {pass uuid : String} (huuid : IsUuid uuid) :
    Logged p db (Sshd.passwordAuth encoderMatch db sess pass uuid).2 := by
  have hfailed : Logged p db (orKept db (UserService.saveLoginLog db sess.remoteIP "terminal" sess.user
      false false "" "账号或密码不正确" uuid)) :=
    Logged.of_orKept fun db' h => Logged.of_failure h huuid p
  rw [Sshd.passwordAuth]
  cases UserRepository.findByUsername db.toDatabase sess.user with
  | error e => exact hfailed
  | ok user =>
    show Logged p db (ite _ _ _ : Bool × AccountDatabase).2
    split
    · exact Logged.refl p db
    · exact hfailed

theorem logged_totpLoop (p : LoginLog → Prop) {validate : Nat → String → String → Bool} {user : User}
    {remoteAddr username : String} {n : Nat} {attempts : List Sshd.Attempt}
    (hattempts : ∀ attempt ∈ attempts, IsUuid attempt.uuid) :
    Logged p db (Sshd.totpLoop validate user remoteAddr username db n attempts).2 := by
  induction n generalizing db attempts with
  | zero => exact Logged.refl p db
  | succ n ih =>
    cases attempts with
    | nil => exact Logged.refl p db
    | cons attempt attempts =>
      obtain ⟨huuid, hrest⟩ := List.forall_mem_cons.mp hattempts
      rw [Sshd.totpLoop]
      cases attempt.input with
      | none => exact Logged.refl p db
      | some code =>
        dsimp only
        split
        · exact ih hrest
        · split
          · exact Logged.refl p db
          · exact Logged.trans (Logged.of_orKept fun db' h => Logged.of_failure h huuid p) (ih hrest)

/-- A session handler writes the log of a success only when it starts a session. -/
theorem logged_sessionHandler {validate : Nat → String → String → Bool} {sess : Sshd.Session}
    {attempts : List Sshd.Attempt} {uuid : String}
    (hattempts : ∀ attempt ∈ attempts, IsUuid attempt.uuid) (huuid : IsUuid uuid) :
    Logged (fun l => l.id = uuid ∧
        ((Sshd.sessionHandler validate db sess attempts uuid).1.user?).isSome) db
      (Sshd.sessionHandler validate db sess attempts uuid).2 := by
  have hsuccess : ∀ {username : String} {db₁ : AccountDatabase} {p : LoginLog → Prop},
      (∀ l : LoginLog, l.id = uuid → p l) →
      Logged p db₁ (orKept db₁ (UserService.saveLoginLog db₁ sess.remoteIP "terminal" username true
        false uuid "" "")) := by
    intro username db₁ p hp
    refine Logged.of_orKept fun db' h => ?_
    exact (Logged.of_success h huuid).imp fun l hl => hp l hl.1
  unfold Sshd.sessionHandler
  dsimp only
  cases UserRepository.findByUsername db.toDatabase ((Text.split sess.user '@').headD "") with
  | error e => exact Logged.refl _ db
  | ok user =>
    dsimp only
    split
    · exact Logged.refl _ db
    · split
      · exact Logged.refl _ db
      · split
        · rw [Sshd.totpUI]
          have hloop := fun p => @logged_totpLoop db p validate user sess.remoteIP
            ((Text.split sess.user '@').headD "") 5 attempts hattempts
          rcases hout : Sshd.totpLoop validate user sess.remoteIP
            ((Text.split sess.user '@').headD "") db 5 attempts with ⟨_ | _, db'⟩
          · rw [hout] at hloop
            exact hloop _
          · rw [hout] at hloop
            exact (hloop _).trans (hsuccess fun l hid => ⟨hid, rfl⟩)
        · exact hsuccess fun l hid => ⟨hid, rfl⟩

theorem logged_authenticate (p : LoginLog → Prop) (hfailed : IsUuid w.failedUuid) :
    Logged p db (w.authenticate V db).2 := by
  rw [SshLogin.authenticate]
  cases w.pass with
  | some pass => exact logged_passwordAuth p hfailed
  | none => exact Logged.refl p db

/-- What an SSH login writes: the log of a success only for the session that it starts. -/
theorem logged_sshLogin (hdrawn : s.Drawn (.sshLogin w)) :
    Logged (fun l => l.id = w.uuid ∧ (sshLogin V s w).1.isSome) s.db (sshLogin V s w).2.db := by
  obtain ⟨hfailed, hattempts, huuid, -⟩ := hdrawn
  have hauth := fun p => @logged_authenticate V w s.db p hfailed
  unfold sshLogin
  rcases hout : w.authenticate V s.db with ⟨_ | _, db⟩
  · rw [hout] at hauth
    exact hauth _
  · rw [hout] at hauth
    exact (hauth _).trans (logged_sessionHandler hattempts huuid)

theorem sshLogin_tokens : (sshLogin V s w).2.tokens = s.tokens := by
  unfold sshLogin
  rcases w.authenticate V s.db with ⟨_ | _, db⟩ <;> rfl

theorem sshLogin_issued : (sshLogin V s w).2.issued = s.issued := by
  unfold sshLogin
  rcases w.authenticate V s.db with ⟨_ | _, db⟩ <;> rfl

/-- A client that authenticates leaves no log, and one that does not starts no session. -/
theorem authenticate_cases :
    w.Authenticated V db ∧ w.authenticate V db = (true, db) ∨
      ¬ w.Authenticated V db ∧ (w.authenticate V db).1 = false := by
  rw [SshLogin.authenticate, SshLogin.Authenticated]
  cases w.pass with
  | none =>
    cases hkey : w.sess.publicKey with
    | true => exact .inl ⟨rfl, rfl⟩
    | false => exact .inr ⟨Bool.false_ne_true, rfl⟩
  | some pass =>
    show (∃ u, _) ∧ Sshd.passwordAuth _ _ _ _ _ = _ ∨
      ¬ (∃ u, _) ∧ (Sshd.passwordAuth _ _ _ _ _).1 = false
    rw [Sshd.passwordAuth]
    cases hfind : UserRepository.findByUsername db.toDatabase w.sess.user with
    | error e =>
      refine .inr ⟨?_, rfl⟩
      rintro ⟨u, hu, -⟩
      exact nomatch hfind.symm.trans (Sshd.findByUsername_eq_ok.mpr hu)
    | ok user =>
      have huser := Sshd.findByUsername_eq_ok.mp hfind
      dsimp only
      by_cases hmatch : V.encoderMatch user.password pass = true
      · rw [if_pos hmatch]
        exact .inl ⟨⟨user, huser, hmatch⟩, rfl⟩
      · rw [if_neg hmatch]
        refine .inr ⟨?_, rfl⟩
        rintro ⟨u, hu, hpass⟩
        exact hmatch (hu.unique huser ▸ hpass)

/-- The user of an SSH session. -/
theorem sshLogin_fst {v : User} : (sshLogin V s w).1 = some v ↔ w.Starts V s.db v := by
  have hstarted := @Sshd.startedUser_eq_some V.validate s.db w.sess w.uuid w.attempts v
  unfold SshLogin.Starts sshLogin
  rw [← hstarted]
  rcases @authenticate_cases V w s.db with ⟨hauth, hout⟩ | ⟨hauth, hout⟩
  · rw [hout, and_iff_right hauth]
    exact Iff.rfl
  · rcases hpair : w.authenticate V s.db with ⟨b, db⟩
    rw [hpair] at hout
    obtain rfl : b = false := hout
    constructor
    · intro h
      cases h
    · intro h
      exact absurd h.1 hauth

theorem Linked.sshLogin (h : Linked s) (hdrawn : s.Drawn (.sshLogin w)) :
    Linked (sshLogin V s w).2 := by
  have hlinked : Linked { s with db := (NextDBM.sshLogin V s w).2.db } :=
    h.logged (@logged_sshLogin V s w hdrawn)
  have heq : (NextDBM.sshLogin V s w).2 = { s with db := (NextDBM.sshLogin V s w).2.db } := by
    have htokens := @sshLogin_tokens V s w
    have hissued := @sshLogin_issued V s w
    rcases hout : (NextDBM.sshLogin V s w).2 with ⟨db, tokens, issued⟩
    rw [hout] at htokens hissued
    simp only at htokens hissued
    rw [htokens, hissued]
  rw [heq]
  exact hlinked

end SshLogins

/-! ## Access tokens -/

section AccessTokens

variable {s : AccountServer} {userId id uuid : String}
  {i : ExpiringCache.Item String Authorization}

theorem findByUserId_eq_some {db : AccountDatabase} {r : AccessToken}
    (h : AccessTokenRepository.findByUserId db userId = some r) :
    r ∈ db.accessTokens ∧ r.userId = userId := by
  obtain ⟨hr, huser, -⟩ := Table.first_eq_some.mp h
  exact ⟨hr, beq_iff_eq.mp huser⟩

theorem findByUserId_eq_none {db : AccountDatabase}
    (h : AccessTokenRepository.findByUserId db userId = none) :
    ∀ r ∈ db.accessTokens, r.userId ≠ userId := by
  intro r hr huser
  exact absurd (beq_iff_eq.mpr huser) (Table.first_eq_none.mp h r hr)

theorem logout_db_of_forever {t : String} (ht : UserService.isForever t = true) :
    (UserService.logout s t).db = s.db := by
  rcases UserService.logout_db_cases s t with hdb | hdb
  · rw [hdb, UserService.onEvicted, if_pos ht]
  · exact hdb

theorem isForever_ne_empty {t : String} (h : UserService.isForever t = true) : t ≠ "" := by
  rintro rfl
  exact absurd h (by decide)

/-- Deleting the access token of a user removes it from the cache, and the rows of the user. -/
theorem delAccessToken_spec (h : Linked s) (userId : String) :
    (AccessTokenService.delAccessToken s userId).db =
        AccessTokenRepository.deleteByUserId s.db userId ∧
      (AccessTokenService.delAccessToken s userId).issued = s.issued ∧
      ∀ i, i ∈ (AccessTokenService.delAccessToken s userId).tokens ↔
        i ∈ s.tokens ∧ ¬ (UserService.isForever i.key = true ∧ i.value.user.id = userId) := by
  rw [AccessTokenService.delAccessToken]
  cases hfind : AccessTokenRepository.findByUserId s.db userId with
  | none =>
    refine ⟨rfl, rfl, fun i => ⟨fun hi => ⟨hi, ?_⟩, fun hi => hi.1⟩⟩
    rintro ⟨hforever, huser⟩
    obtain ⟨-, -, r, hr, -, hrow⟩ := h.access i hi hforever
    exact findByUserId_eq_none hfind r hr (hrow.trans huser)
  | some r =>
    obtain ⟨hr, huser⟩ := findByUserId_eq_some hfind
    have hforever : UserService.isForever r.token = true := (h.rows r hr).1
    dsimp only
    rw [if_pos (isForever_ne_empty hforever), logout_db_of_forever hforever]
    refine ⟨rfl, rfl, fun i => mem_logout_tokens.trans (and_congr_right fun hi => ?_)⟩
    rw [not_iff_not]
    constructor
    · intro hkey
      obtain ⟨-, -, r', hr', htoken, hrow⟩ := h.access i hi (hkey ▸ hforever)
      have heq : r' = r := h.row_unique r' hr' r hr (.inr (htoken.trans hkey))
      exact ⟨hkey ▸ hforever, by rw [← hrow, heq, huser]⟩
    · rintro ⟨hforever', huser'⟩
      obtain ⟨-, -, r', hr', htoken, hrow⟩ := h.access i hi hforever'
      have heq : r' = r := h.row_unique r' hr' r hr (.inl (by rw [hrow, huser', huser]))
      rw [← htoken, heq]

theorem Linked.delAccessToken (h : Linked s) (userId : String) :
    Linked (AccessTokenService.delAccessToken s userId) := by
  obtain ⟨hdb, -, htokens⟩ := delAccessToken_spec h userId
  refine ⟨?_, ?_, ?_, ?_, ?_, ?_⟩
  · rw [hdb]
    exact h.names
  · rw [hdb]
    exact h.ids
  · intro i hi hkind
    rw [hdb]
    exact h.login i ((htokens i).mp hi).1 hkind
  · intro i hi hkind
    obtain ⟨hmem, hnot⟩ := (htokens i).mp hi
    obtain ⟨hexpires, hexpired, r, hr, htoken, huser⟩ := h.access i hmem hkind
    refine ⟨hexpires, hexpired, r, ?_, htoken, huser⟩
    rw [hdb]
    refine Table.mem_deleteWhere.mpr ⟨hr, beq_false_of_ne fun heq => hnot ⟨hkind, ?_⟩⟩
    exact huser.symm.trans heq
  · rw [hdb]
    exact fun r hr => h.rows r (Table.mem_deleteWhere.mp hr).1
  · rw [hdb]
    exact fun r hr r' hr' =>
      h.row_unique r (Table.mem_deleteWhere.mp hr).1 r' (Table.mem_deleteWhere.mp hr').1

theorem userById_eq_ok {db : Database} {id : String} {u : User} :
    UserRepository.findById db id = .ok u ↔ u ∈ db.users ∧ u.id = id :=
  firstOrNotFound_eq_ok.trans Table.findById_eq_some

/-- For a stored user `GenAccessToken` replaces the access token by a new one. -/
theorem genAccessToken_spec (h : Linked s) {token : String}
    (hdrawn : s.Drawn (.genAccessToken token id uuid)) (huser : ∃ u ∈ s.db.users, u.id = userId) :
    ∃ u ∈ s.db.users, u.id = userId ∧ ∃ accessTokens,
      (∀ r, r ∈ accessTokens ↔ r = { id, userId, token := "forever-" ++ uuid } ∨
        r ∈ s.db.accessTokens ∧ r.userId ≠ userId) ∧
      AccessTokenService.genAccessToken s userId id uuid =
        (.ok (), { db := { s.db with accessTokens }
                   tokens := (AccessTokenService.delAccessToken s userId).tokens.set
                     ("forever-" ++ uuid)
                     { token := "forever-" ++ uuid, type := nd.accessToken, remember := false,
                       user := u } false
                   issued := ("forever-" ++ uuid, userId) :: s.issued }) := by
  have hdb := (delAccessToken_spec h userId).1
  obtain ⟨u, hu, hid⟩ := huser
  have hfind : UserRepository.findById s.db.toDatabase userId = .ok u :=
    userById_eq_ok.mpr ⟨hu, hid⟩
  have hfind' : UserRepository.findById
      (AccessTokenService.delAccessToken s userId).db.toDatabase userId = .ok u := by
    rw [hdb]
    exact hfind
  cases hinsert : (AccessTokenService.delAccessToken s userId).db.accessTokens.insert
      { id, userId, token := "forever-" ++ uuid } with
  | none =>
    obtain ⟨r, hr, hkey⟩ := Table.insert_eq_none.mp hinsert
    rw [hdb] at hr
    exact absurd hkey (hdrawn.1 r (Table.mem_deleteWhere.mp hr).1).1
  | some accessTokens =>
    refine ⟨u, hu, hid, accessTokens, fun r => ?_, ?_⟩
    · rw [Table.mem_of_insert hinsert, hdb]
      refine or_congr_right (Table.mem_deleteWhere.trans (and_congr_right fun _ => ?_))
      exact beq_eq_false_iff_ne
    · rw [AccessTokenService.genAccessToken]
      dsimp only
      rw [hfind']
      dsimp only
      rw [hinsert]
      dsimp only
      rw [hdb]
      rfl

theorem Linked.genAccessToken (h : Linked s) {token : String}
    (hdrawn : s.Drawn (.genAccessToken token id uuid)) (huser : ∃ u ∈ s.db.users, u.id = userId) :
    Linked (AccessTokenService.genAccessToken s userId id uuid).2 := by
  obtain ⟨u, hu, hid, accessTokens, hrows, hgen⟩ := genAccessToken_spec h hdrawn huser
  obtain ⟨hdb, -, htokens⟩ := delAccessToken_spec h userId
  have hforever := isForever_access uuid
  -- the rows of the other users, with the new row
  have hlinked : Linked { AccessTokenService.delAccessToken s userId with
      db := { s.db with accessTokens } } := by
    refine ⟨h.names, h.ids, fun i hi => h.login i ((htokens i).mp hi).1, ?_, ?_, ?_⟩
    · intro i hi hkind
      obtain ⟨hmem, hnot⟩ := (htokens i).mp hi
      obtain ⟨hexpires, hexpired, r, hr, htoken, hrow⟩ := h.access i hmem hkind
      refine ⟨hexpires, hexpired, r, (hrows r).mpr (.inr ⟨hr, fun heq => ?_⟩), htoken, hrow⟩
      exact hnot ⟨hkind, hrow.symm.trans heq⟩
    · intro r hr
      rcases (hrows r).mp hr with rfl | ⟨hr, -⟩
      · exact ⟨hforever, u, hu, hid⟩
      · exact h.rows r hr
    · intro r hr r' hr' heq
      rcases (hrows r).mp hr with rfl | ⟨hr, hne⟩
      · rcases (hrows r').mp hr' with rfl | ⟨hr', hne'⟩
        · rfl
        · rcases heq with heq | heq
          · exact absurd heq.symm hne'
          · exact absurd heq.symm (hdrawn.1 r' hr').2
      · rcases (hrows r').mp hr' with rfl | ⟨hr', hne'⟩
        · rcases heq with heq | heq
          · exact absurd heq hne
          · exact absurd heq (hdrawn.1 r hr).2
        · exact h.row_unique r hr r' hr' heq
  rw [hgen]
  exact hlinked.setAccess ((hrows _).mpr (.inl rfl)) hid

end AccessTokens

/-! ## Deleted logs and purges -/

section Removals

variable {s : AccountServer} {t : String}

/-- One round of `DeleteLoginLogs`. -/
theorem deleteLoginLog_spec {db : AccountDatabase} (h : UserService.logoutByToken s.db t = .ok db) :
    let s₁ := UserService.logout { s with db } t
    let s' : AccountServer := { s₁ with db := LoginLogRepository.deleteById s₁.db t }
    Shrinks s s' ∧ (∀ i, i ∈ s'.tokens ↔ i ∈ s.tokens ∧ i.key ≠ t) ∧
      ∀ l, Alive s'.db l → l.id ≠ t := by
  intro s₁ s'
  have hlogout : Shrinks { s with db } s₁ := Shrinks.logout _ t
  have hdelete : ∀ l, Alive s'.db l ↔ Alive s₁.db l ∧ l.id ≠ t := by
    intro l
    show (l ∈ s₁.db.loginLogs.deleteWhere _ ∧ _) ↔ _
    rw [Table.mem_deleteWhere, beq_eq_false_iff_ne]
    exact and_right_comm
  have htokens : ∀ i, i ∈ s'.tokens ↔ i ∈ s.tokens ∧ i.key ≠ t := fun i => mem_logout_tokens
  have hids : ∀ l ∈ s'.db.loginLogs, ∃ l' ∈ s.db.loginLogs, l'.id = l.id := by
    intro l hl
    obtain ⟨l', hl', hid'⟩ := hlogout.ids l (Table.mem_deleteWhere.mp hl).1
    obtain ⟨l'', hl'', hid''⟩ := UserService.id_logoutByToken h hl'
    exact ⟨l'', hl'', hid''.trans hid'⟩
  obtain ⟨-, rfl⟩ := UserService.logoutByToken_ok h
  refine ⟨⟨hlogout.database, hlogout.accessTokens, hlogout.issued, fun i hi => ((htokens i).mp hi).1,
    hids, ?_, ?_⟩, htokens, fun l hl => ((hdelete l).mp hl).2⟩
  · intro l hl
    exact ((UserService.alive_logoutByToken h).mp (hlogout.alive l ((hdelete l).mp hl).1)).1
  · intro i hi l hl hid
    have hne : l.id ≠ t := hid ▸ ((htokens i).mp hi).2
    have hl₁ := (UserService.alive_logoutByToken h).mpr ⟨hl, hne⟩
    exact (hdelete l).mpr ⟨hlogout.kept i hi l hl₁ hid, hne⟩

theorem shrinks_deleteLoginLogs (s : AccountServer) (tokens : List String) :
    Shrinks s (UserService.deleteLoginLogs s tokens) := by
  induction tokens generalizing s with
  | nil => exact Shrinks.refl s
  | cons t tokens ih =>
    rw [UserService.deleteLoginLogs]
    cases h : UserService.logoutByToken s.db t with
    | error e => exact Shrinks.refl s
    | ok db => exact (deleteLoginLog_spec h).1.trans (ih _)

/-- The callbacks of a purge, one after the other. -/
theorem foldl_onEvicted (items : List (ExpiringCache.Item String Authorization))
    (db : AccountDatabase) :
    let db' := items.foldl (fun db i => UserService.onEvicted db i.key) db
    db'.toDatabase = db.toDatabase ∧ db'.accessTokens = db.accessTokens ∧
      (∀ l ∈ db'.loginLogs, ∃ l' ∈ db.loginLogs, l'.id = l.id) ∧
      (∀ l, Alive db' l → Alive db l ∧ ∀ i ∈ items, UserService.isForever i.key = false →
        i.key ≠ "" → l.id ≠ i.key) ∧
      ∀ l, Alive db l → (∀ i ∈ items, l.id ≠ i.key) → Alive db' l := by
  induction items generalizing db with
  | nil => exact ⟨rfl, rfl, fun l hl => ⟨l, hl, rfl⟩, fun l hl => ⟨hl, nofun⟩, fun l hl _ => hl⟩
  | cons i items ih =>
    obtain ⟨hdatabase, haccess, hids, halive, hkept⟩ := ih (UserService.onEvicted db i.key)
    refine ⟨hdatabase.trans UserService.onEvicted_toDatabase,
      haccess.trans UserService.onEvicted_accessTokens, ?_, ?_, ?_⟩
    · intro l hl
      obtain ⟨l', hl', hid'⟩ := hids l hl
      obtain ⟨l'', hl'', hid''⟩ := UserService.id_onEvicted hl'
      exact ⟨l'', hl'', hid''.trans hid'⟩
    · intro l hl
      obtain ⟨hl', hnot⟩ := halive l hl
      refine ⟨UserService.alive_of_onEvicted hl', ?_⟩
      intro j hj hforever hne
      rcases List.mem_cons.mp hj with rfl | hj
      · exact UserService.not_alive_onEvicted hforever hne hl'
      · exact hnot j hj hforever hne
    · intro l hl hnot
      have hfirst : l.id ≠ i.key := hnot i List.mem_cons_self
      exact hkept l (UserService.alive_onEvicted_of_ne hl hfirst)
        fun j hj => hnot j (List.mem_cons_of_mem i hj)

theorem mem_purge_tokens {i : ExpiringCache.Item String Authorization} :
    i ∈ s.purge.tokens ↔ i ∈ s.tokens ∧ i.expired = false :=
  @ExpiringCache.mem_deleteExpired_snd _ _ _ s.tokens i s.db UserService.onEvicted

theorem shrinks_purge (s : AccountServer) : Shrinks s s.purge := by
  obtain ⟨hdatabase, haccess, hids, halive, hkept⟩ :=
    foldl_onEvicted (s.tokens.rows.filter fun i => i.expired) s.db
  refine ⟨hdatabase, haccess, rfl, fun i hi => (mem_purge_tokens.mp hi).1, hids,
    fun l hl => (halive l hl).1, ?_⟩
  intro i hi l hl hid
  obtain ⟨hmem, hlive⟩ := mem_purge_tokens.mp hi
  refine hkept l hl fun j hj hkey => ?_
  obtain ⟨hj, hexpired⟩ := List.mem_filter.mp hj
  -- an expired item with the key of a live one would be that item
  have heq : j = i := Table.eq_of_key hj hmem (hkey.symm.trans hid)
  rw [heq, hlive] at hexpired
  exact Bool.false_ne_true hexpired

theorem Linked.expire (h : Linked s) (t : String) :
    Linked { s with tokens := s.tokens.expire t } := by
  refine ⟨h.names, h.ids, ?_, ?_, h.rows, h.row_unique⟩
  · intro i hi hkind
    rcases ExpiringCache.mem_expire hi with hi | ⟨j, hj, rfl⟩
    · exact h.login i hi hkind
    · exact h.login j hj hkind
  · intro i hi hkind
    rcases ExpiringCache.mem_expire hi with hi | ⟨j, hj, rfl⟩
    · exact h.access i hi hkind
    · obtain ⟨hexpires, -, hrow⟩ := h.access j hj hkind
      exact ⟨hexpires, hexpires, hrow⟩

end Removals

/-! ## The writers of the users -/

section Users

variable {db db' : Database} {uuid : Nat → String} {user : User} {s : AccountServer}

theorem saveUserRoles_users (h : UserService.saveUserRoles db uuid user = .ok db') :
    db'.users = db.users := by
  rw [UserService.saveUserRoles] at h
  split at h
  · obtain rfl := Except.ok.inj h
    rfl
  · cases h

/-- What `CreateUser` writes: a row under a new name, and then its roles. -/
theorem createUser_ok {encoded : Except Error String} {storageCreated : Except Error Unit}
    (h : UserService.createUser db uuid user encoded storageCreated = .ok db') :
    ¬ UserRepository.existByUsername db user.username = true ∧ ∃ password users,
      encoded = .ok password ∧
      db.users.insert { user with
        password, id := uuid user.roles.length, status := nd.statusEnabled } = some users ∧
      UserService.saveUserRoles { db with users } uuid { user with
        password, id := uuid user.roles.length, status := nd.statusEnabled } = .ok db' := by
  rw [UserService.createUser] at h
  by_cases hexist : UserRepository.existByUsername db user.username = true
  · rw [if_pos hexist] at h
    cases h
  rw [if_neg hexist] at h
  obtain ⟨password, hencoded, h⟩ := bind_eq_ok.mp h
  obtain ⟨db₁, hcreate, h⟩ := bind_eq_ok.mp h
  obtain ⟨db₂, hroles, h⟩ := bind_eq_ok.mp h
  obtain ⟨-, -, h⟩ := bind_eq_ok.mp h
  obtain rfl := Except.ok.inj h
  rw [UserRepository.create] at hcreate
  split at hcreate
  · next users hinsert =>
    obtain rfl := Except.ok.inj hcreate
    exact ⟨hexist, password, users, hencoded, hinsert, hroles⟩
  · cases hcreate

/-- `CreateUser` adds an enabled user with a new id and a new name. -/
theorem createUser_users {encoded : Except Error String} {storageCreated : Except Error Unit}
    (h : UserService.createUser db uuid user encoded storageCreated = .ok db') :
    ∃ u : User, u.status = nd.statusEnabled ∧ (∀ v ∈ db.users, v.username ≠ u.username) ∧
      ∀ v, v ∈ db'.users ↔ v = u ∨ v ∈ db.users := by
  obtain ⟨hexist, password, users, -, hinsert, hroles⟩ := createUser_ok h
  refine ⟨{ user with password, id := uuid user.roles.length, status := nd.statusEnabled }, rfl,
    fun v hv hname => hexist (List.any_eq_true.mpr ⟨v, hv, beq_iff_eq.mpr hname⟩), ?_⟩
  intro v
  rw [saveUserRoles_users hroles]
  exact Table.mem_of_insert hinsert

/-- A write of the tables that fails changes nothing. -/
theorem Linked.write (h : Linked s) {f : Database → Except Error Database}
    (hok : ∀ db', f s.db.toDatabase = .ok db' →
      Linked { s with db := { s.db with toDatabase := db' } }) : Linked (s.write f) := by
  rw [AccountServer.write]
  cases hf : f s.db.toDatabase with
  | ok db' => exact hok db' hf
  | error e => exact h

theorem Linked.createUser (h : Linked s) {encoded : Except Error String}
    {storageCreated : Except Error Unit} :
    Linked (s.write fun db => UserService.createUser db uuid user encoded storageCreated) := by
  refine h.write fun db' hok => ?_
  obtain ⟨u, -, hnew, hmem⟩ := createUser_users hok
  refine h.setUsers ?_ fun v hv => ⟨v, (hmem v).mpr (.inr hv), rfl, .inl rfl⟩
  intro v hv v' hv' hname
  rcases (hmem v).mp hv with rfl | hv
  · rcases (hmem v').mp hv' with rfl | hv'
    · rfl
    · exact absurd hname.symm (hnew v' hv')
  · rcases (hmem v').mp hv' with rfl | hv'
    · exact absurd hname (hnew v hv)
    · exact h.names v hv v' hv' hname

/-- A write of one row of the users that keeps the names. -/
theorem Linked.updateUserRow (h : Linked s) {o : User} (hname : o.username = "")
    (hok : UserRepository.update s.db.toDatabase o = .ok db') :
    Linked { s with db := { s.db with toDatabase := db' } } := by
  rw [UserRepository.update] at hok
  split at hok
  · cases hok
  obtain rfl := Except.ok.inj hok
  have hkeep : ∀ u : User, (UserRepository.assign o u).username = u.username := by
    intro u
    show nonZero o.username u.username = _
    rw [hname]
    rfl
  have hold : ∀ u ∈ s.db.users, ∃ u' ∈ s.db.users.updateById o.id (UserRepository.assign o)
      (UserRepository.assign_id o), u'.id = u.id ∧ u'.username = u.username := by
    intro u hu
    by_cases hid : u.id = o.id
    · exact ⟨UserRepository.assign o u, List.mem_map.mpr ⟨u, hu, if_pos hid⟩, rfl, hkeep u⟩
    · exact ⟨u, Table.mem_updateById_of_ne hu hid _ _, rfl, rfl⟩
  have hback : ∀ u' ∈ s.db.users.updateById o.id (UserRepository.assign o)
      (UserRepository.assign_id o), ∃ u ∈ s.db.users, u'.id = u.id ∧ u'.username = u.username := by
    intro u' hu'
    rcases Table.mem_updateById _ hu' with hu' | ⟨u, hu, -, rfl⟩
    · exact ⟨u', hu', rfl, rfl⟩
    · exact ⟨u, hu, rfl, hkeep u⟩
  refine h.setUsers ?_ fun u hu => ?_
  · intro u' hu' v' hv' heq
    obtain ⟨u, hu, huid, huname⟩ := hback u' hu'
    obtain ⟨v, hv, hvid, hvname⟩ := hback v' hv'
    have huv : u = v := h.names u hu v hv (by rw [← huname, heq, hvname])
    exact Table.eq_of_key hu' hv' (by rw [huid, hvid, huv])
  · obtain ⟨u', hu', hid, hname'⟩ := hold u hu
    exact ⟨u', hu', hid, .inl hname'⟩

theorem updateUser_users {id : String} (h : UserService.updateUser db uuid id user = .ok db') :
    db'.users = db.users.updateById user.id (UserRepository.assign user)
      (UserRepository.assign_id user) := by
  obtain ⟨db₁, h, hupdate⟩ := bind_eq_ok.mp h
  obtain ⟨dbUser, -, hroles⟩ := bind_eq_ok.mp h
  split at hroles
  · cases hroles
  have husers := saveUserRoles_users hroles
  rw [UserRepository.update] at hupdate
  split at hupdate
  · cases hupdate
  · obtain rfl := Except.ok.inj hupdate
    show db₁.users.updateById user.id (UserRepository.assign user) (UserRepository.assign_id user) = _
    rw [husers]
    rfl

/-- A rename that is safe keeps the names distinct, and changes none of a user who is logged in. -/
theorem Linked.updateUser (h : Linked s) {id : String} (hsafe : s.RenameSafe uuid id user) :
    Linked (s.write fun db => UserService.updateUser db uuid id user) := by
  refine h.write fun db' hok => ?_
  have hsafe := hsafe db' hok
  have husers := updateUser_users hok
  -- a row has kept its name, or it is the row that was written and its name is new
  have hback : ∀ v' ∈ db'.users, (∃ v ∈ s.db.users, v'.id = v.id ∧ v'.username = v.username) ∨
      v'.id = user.id ∧ v'.username = user.username ∧
        ∀ w ∈ s.db.users, w.username ≠ user.username := by
    intro v' hv'
    rw [husers] at hv'
    rcases Table.mem_updateById (UserRepository.assign_id user) hv' with hv' | ⟨v, hv, hvid, rfl⟩
    · exact .inl ⟨v', hv', rfl, rfl⟩
    · have hname : (UserRepository.assign user v).username = nonZero user.username v.username := rfl
      by_cases hzero : user.username = ""
      · rw [hzero] at hname
        exact .inl ⟨v, hv, rfl, hname⟩
      · rw [nonZero_of_ne hzero] at hname
        by_cases hsame : user.username = v.username
        · exact .inl ⟨v, hv, rfl, hname.trans hsame⟩
        · exact .inr ⟨hvid, hname, (hsafe v hv hvid hzero hsame).1⟩
  refine h.setUsers ?_ fun u hu => ?_
  · intro v' hv' w' hw' heq
    rcases hback v' hv' with ⟨v, hv, hvid, hvname⟩ | ⟨hvid, hvname, hnew⟩
    · rcases hback w' hw' with ⟨w, hw, hwid, hwname⟩ | ⟨hwid, hwname, hnew⟩
      · have hvw : v = w := h.names v hv w hw (by rw [← hvname, heq, hwname])
        exact Table.eq_of_key hv' hw' (by rw [hvid, hwid, hvw])
      · exact absurd (hvname.symm.trans (heq.trans hwname)) (hnew v hv)
    · rcases hback w' hw' with ⟨w, hw, hwid, hwname⟩ | ⟨hwid, hwname, -⟩
      · exact absurd (hwname.symm.trans (heq.symm.trans hvname)) (hnew w hw)
      · exact Table.eq_of_key hv' hw' (hvid.trans hwid.symm)
  · by_cases hid : u.id = user.id
    · refine ⟨UserRepository.assign user u, ?_, rfl, ?_⟩
      · rw [husers]
        exact List.mem_map.mpr ⟨u, hu, if_pos hid⟩
      · show nonZero user.username u.username = _ ∨ _
        by_cases hzero : user.username = ""
        · rw [hzero]
          exact .inl rfl
        · rw [nonZero_of_ne hzero]
          by_cases hsame : user.username = u.username
          · exact .inl hsame
          · exact .inr fun l hl => (hsafe u hu hid hzero hsame).2 l hl.1 hl.2
    · refine ⟨u, ?_, rfl, .inl rfl⟩
      rw [husers]
      exact Table.mem_updateById_of_ne hu hid _ _

end Users

/-! ## The start -/

section Start

variable {s s' : AccountServer}

/-- The item that `ReloadToken` stores for a login log. -/
def loginItem (l : LoginLog) (u : User) : ExpiringCache.Item String Authorization :=
  { key := l.id
    value := { token := l.id, type := nd.loginToken, remember := l.remember, user := u }
    expires := true }

/-- The item that `Reload` stores for an access token. -/
def accessItem (r : AccessToken) (u : User) : ExpiringCache.Item String Authorization :=
  { key := r.token
    value := { token := r.token, type := nd.accessToken, remember := false, user := u }
    expires := false }

/-- What the loop of `ReloadToken` makes of a server. -/
structure Reloaded (ls : List LoginLog) (s s' : AccountServer) : Prop where
  database : s'.db.toDatabase = s.db.toDatabase
  accessTokens : s'.db.accessTokens = s.db.accessTokens
  issued : s'.issued = s.issued
  logs : ∀ l ∈ s'.db.loginLogs, l ∈ s.db.loginLogs
  /-- A log stays when the name of every log of its id is found. -/
  kept : ∀ l, Alive s.db l →
    (∀ l' ∈ ls, l'.id = l.id → ∃ u, Sshd.FirstNamed s.db.toDatabase l'.username u) → Alive s'.db l
  item : ∀ i ∈ s'.tokens, i ∈ s.tokens ∨
    ∃ l ∈ ls, ∃ u, Sshd.FirstNamed s.db.toDatabase l.username u ∧ i = loginItem l u
  stored : ∀ l ∈ ls, (∃ u, Sshd.FirstNamed s.db.toDatabase l.username u) →
    ∃ i ∈ s'.tokens, i.key = l.id
  keys : ∀ i ∈ s.tokens, ∃ j ∈ s'.tokens, j.key = i.key

/-- Storing an item keeps every key. -/
theorem exists_mem_set {c : TokenManager} {i : ExpiringCache.Item String Authorization} (hi : i ∈ c)
    (k : String) (v : Authorization) (expires : Bool) : ∃ j ∈ c.set k v expires, j.key = i.key := by
  by_cases hk : i.key = k
  · exact ⟨_, ExpiringCache.mem_set.mpr (.inl rfl), hk.symm⟩
  · exact ⟨i, ExpiringCache.mem_set.mpr (.inr ⟨hi, hk⟩), rfl⟩

theorem reloaded_foldl (ls : List LoginLog) (s : AccountServer) :
    Reloaded ls s (ls.foldl UserService.reloadOne s) := by
  induction ls generalizing s with
  | nil =>
    exact ⟨rfl, rfl, rfl, fun l hl => hl, fun l hl _ => hl, fun i hi => .inl hi, nofun,
      fun i hi => ⟨i, hi, rfl⟩⟩
  | cons l ls ih =>
    rw [List.foldl_cons]
    cases hfind : UserRepository.findByUsername s.db.toDatabase l.username with
    | error e =>
      -- the log of an unknown name is deleted
      have hnone : ¬ ∃ u, Sshd.FirstNamed s.db.toDatabase l.username u := by
        rintro ⟨u, hu⟩
        exact nomatch hfind.symm.trans (Sshd.findByUsername_eq_ok.mpr hu)
      have hone : UserService.reloadOne s l =
          { s with db := LoginLogRepository.deleteById s.db l.id } := by
        rw [UserService.reloadOne, hfind]
      rw [hone]
      obtain ⟨hdatabase, haccess, hissued, hlogs, hkept, hitem, hstored, hkeys⟩ :=
        ih { s with db := LoginLogRepository.deleteById s.db l.id }
      refine ⟨hdatabase, haccess, hissued, ?_, ?_, ?_, ?_, hkeys⟩
      · intro l' hl'
        exact (Table.mem_deleteWhere.mp (hlogs l' hl')).1
      · intro l' hl' hfound
        refine hkept l' ⟨Table.mem_deleteWhere.mpr ⟨hl'.1, beq_false_of_ne fun hid => ?_⟩, hl'.2⟩
          fun l'' hl'' hid => hfound l'' (List.mem_cons_of_mem l hl'') hid
        exact hnone (hfound l List.mem_cons_self hid.symm)
      · intro i hi
        refine (hitem i hi).imp_right ?_
        rintro ⟨l', hl', hu⟩
        exact ⟨l', List.mem_cons_of_mem l hl', hu⟩
      · intro l' hl' hfound
        rcases List.mem_cons.mp hl' with rfl | hl'
        · exact absurd hfound hnone
        · exact hstored l' hl' hfound
    | ok u =>
      have hu := Sshd.findByUsername_eq_ok.mp hfind
      have hone : UserService.reloadOne s l = { s with
          tokens := s.tokens.set l.id (loginItem l u).value true } := by
        rw [UserService.reloadOne, hfind]
        rfl
      rw [hone]
      obtain ⟨hdatabase, haccess, hissued, hlogs, hkept, hitem, hstored, hkeys⟩ :=
        ih { s with tokens := s.tokens.set l.id (loginItem l u).value true }
      refine ⟨hdatabase, haccess, hissued, hlogs, ?_, ?_, ?_, ?_⟩
      · intro l' hl' hfound
        exact hkept l' hl' fun l'' hl'' hid => hfound l'' (List.mem_cons_of_mem l hl'') hid
      · intro i hi
        rcases hitem i hi with hi | ⟨l', hl', hu'⟩
        · rcases ExpiringCache.mem_set.mp hi with rfl | ⟨hi, -⟩
          · exact .inr ⟨l, List.mem_cons_self, u, hu, rfl⟩
          · exact .inl hi
        · exact .inr ⟨l', List.mem_cons_of_mem l hl', hu'⟩
      · intro l' hl' hfound
        rcases List.mem_cons.mp hl' with rfl | hl'
        · exact hkeys _ (ExpiringCache.mem_set.mpr (.inl rfl))
        · exact hstored l' hl' hfound
      · intro i hi
        obtain ⟨j, hj, hjk⟩ := exists_mem_set hi l.id (loginItem l u).value true
        obtain ⟨j', hj', hjk'⟩ := hkeys j hj
        exact ⟨j', hj', hjk'.trans hjk⟩

theorem mem_findAliveLoginLogs {db : AccountDatabase} {l : LoginLog} :
    l ∈ LoginLogRepository.findAliveLoginLogs db ↔ Alive db l := List.mem_filter

theorem Linked.reloadToken (h : Linked s) :
    Linked (UserService.reloadToken { s with tokens := ∅ }) := by
  have hr : Reloaded _ _ (UserService.reloadToken { s with tokens := ∅ }) :=
    reloaded_foldl (LoginLogRepository.findAliveLoginLogs s.db) { s with tokens := ∅ }
  have hitem : ∀ i ∈ (UserService.reloadToken { s with tokens := ∅ }).tokens, ∃ l, Alive s.db l ∧
      ∃ u, Sshd.FirstNamed s.db.toDatabase l.username u ∧ i = loginItem l u := by
    intro i hi
    rcases hr.item i hi with hi | ⟨l, hl, hu⟩
    · exact absurd hi List.not_mem_nil
    · exact ⟨l, mem_findAliveLoginLogs.mp hl, hu⟩
  refine ⟨?_, fun l hl => h.ids l (hr.logs l hl), ?_, ?_, ?_, ?_⟩
  · exact hr.database ▸ h.names
  · intro i hi _
    obtain ⟨l, hl, u, hu, rfl⟩ := hitem i hi
    refine ⟨l, hr.kept l hl fun l' hl' hid => ?_, rfl, u, hr.database ▸ hu.1, rfl, hu.2.1⟩
    -- no other log has its id
    have heq : l' = l := (mem_findAliveLoginLogs.mp hl').eq_of_id hl hid
    exact heq ▸ ⟨u, hu⟩
  · intro i hi hkind
    obtain ⟨l, hl, u, -, rfl⟩ := hitem i hi
    exact absurd ((isForever_of_isUuid (h.ids l hl.1)).symm.trans hkind) Bool.false_ne_true
  · rw [hr.accessTokens, hr.database]
    exact h.rows
  · rw [hr.accessTokens]
    exact h.row_unique

/-- `Reload` stores the token of a row whose user exists. -/
theorem reloadOne_eq {s : AccountServer} {r : AccessToken} {u : User} (hu : u ∈ s.db.users)
    (hid : u.id = r.userId) : AccessTokenService.reloadOne s r = .ok { s with
      tokens := s.tokens.set r.token (accessItem r u).value false } := by
  have hfind : UserRepository.findById s.db.toDatabase r.userId = .ok u :=
    userById_eq_ok.mpr ⟨hu, hid⟩
  rw [AccessTokenService.reloadOne, hfind]
  rfl

/-- What the loop of `Reload` makes of a server. -/
structure AccessReloaded (rs : List AccessToken) (s s' : AccountServer) : Prop where
  db : s'.db = s.db
  issued : s'.issued = s.issued
  item : ∀ i ∈ s'.tokens, i ∈ s.tokens ∨
    ∃ r ∈ rs, ∃ u ∈ s.db.users, u.id = r.userId ∧ i = accessItem r u
  stored : ∀ r ∈ rs, ∃ i ∈ s'.tokens, i.key = r.token
  keys : ∀ i ∈ s.tokens, ∃ j ∈ s'.tokens, j.key = i.key

/-- The users of the access tokens exist, so the loop goes through. -/
theorem accessReloaded_foldlM {rs : List AccessToken} (h : Linked s)
    (hrs : ∀ r ∈ rs, r ∈ s.db.accessTokens) :
    ∃ s', rs.foldlM AccessTokenService.reloadOne s = .ok s' ∧ Linked s' ∧
      AccessReloaded rs s s' := by
  induction rs generalizing s with
  | nil => exact ⟨s, rfl, h, rfl, rfl, fun i hi => .inl hi, nofun, fun i hi => ⟨i, hi, rfl⟩⟩
  | cons r rs ih =>
    have hr : r ∈ s.db.accessTokens := hrs r List.mem_cons_self
    obtain ⟨-, u, hu, hid⟩ := h.rows r hr
    have hone := reloadOne_eq (s := s) hu hid
    have hlinked : Linked { s with
        tokens := s.tokens.set r.token (accessItem r u).value false } := h.setAccess hr hid
    obtain ⟨s', hrest, hlinked', hdb, hissued, hitem, hstored, hkeys⟩ :=
      ih hlinked fun r' hr' => hrs r' (List.mem_cons_of_mem r hr')
    refine ⟨s', ?_, hlinked', hdb, hissued, ?_, ?_, ?_⟩
    · rw [List.foldlM_cons, hone]
      exact hrest
    · intro i hi
      rcases hitem i hi with hi | ⟨r', hr', hu'⟩
      · rcases ExpiringCache.mem_set.mp hi with rfl | ⟨hi, -⟩
        · exact .inr ⟨r, List.mem_cons_self, u, hu, hid, rfl⟩
        · exact .inl hi
      · exact .inr ⟨r', List.mem_cons_of_mem r hr', hu'⟩
    · intro r' hr'
      rcases List.mem_cons.mp hr' with rfl | hr'
      · exact hkeys _ (ExpiringCache.mem_set.mpr (.inl rfl))
      · exact hstored r' hr'
    · intro i hi
      obtain ⟨j, hj, hjk⟩ := exists_mem_set hi r.token (accessItem r u).value false
      obtain ⟨j', hj', hjk'⟩ := hkeys j hj
      exact ⟨j', hj', hjk'.trans hjk⟩

/-- What a start makes of a store: one token for each alive log of a known name, and one for each
access token. -/
structure Restarted (s s' : AccountServer) : Prop where
  database : s'.db.toDatabase = s.db.toDatabase
  accessTokens : s'.db.accessTokens = s.db.accessTokens
  issued : s'.issued = s.issued
  alive : ∀ l, Alive s'.db l → Alive s.db l
  item : ∀ i ∈ s'.tokens,
    (∃ l, Alive s.db l ∧ ∃ u, Sshd.FirstNamed s.db.toDatabase l.username u ∧ i = loginItem l u) ∨
      ∃ r ∈ s.db.accessTokens, ∃ u ∈ s.db.users, u.id = r.userId ∧ i = accessItem r u
  login : ∀ l, Alive s.db l → (∃ u, Sshd.FirstNamed s.db.toDatabase l.username u) →
    ∃ i ∈ s'.tokens, i.key = l.id
  access : ∀ r ∈ s.db.accessTokens, ∃ i ∈ s'.tokens, i.key = r.token

theorem reloadData_spec (h : Linked s) :
    ∃ s', reloadData s = .ok s' ∧ Linked s' ∧ Restarted s s' := by
  have hr := reloaded_foldl (LoginLogRepository.findAliveLoginLogs s.db) { s with tokens := ∅ }
  obtain ⟨s', hreload, hlinked, ha⟩ := accessReloaded_foldlM h.reloadToken fun r hr => hr
  refine ⟨s', hreload, hlinked, ?_, ?_, ha.issued.trans hr.issued, ?_, ?_, ?_, ?_⟩
  · rw [ha.db]
    exact hr.database
  · rw [ha.db]
    exact hr.accessTokens
  · intro l hl
    rw [ha.db] at hl
    exact ⟨hr.logs l hl.1, hl.2⟩
  · intro i hi
    rcases ha.item i hi with hi | ⟨r, hmem, u, hu, hid, hitem⟩
    · rcases hr.item i hi with hi | ⟨l, hl, u, hu, hitem⟩
      · exact absurd hi List.not_mem_nil
      · exact .inl ⟨l, mem_findAliveLoginLogs.mp hl, u, hu, hitem⟩
    · refine .inr ⟨r, ?_, u, ?_, hid, hitem⟩
      · exact hr.accessTokens ▸ hmem
      · exact hr.database ▸ hu
  · intro l hl hfound
    obtain ⟨i, hi, hkey⟩ := hr.stored l (mem_findAliveLoginLogs.mpr hl) hfound
    obtain ⟨j, hj, hjk⟩ := ha.keys i hi
    exact ⟨j, hj, hjk.trans hkey⟩
  · intro r hmem
    have hrow : r ∈ (UserService.reloadToken { s with tokens := ∅ }).db.accessTokens :=
      hr.accessTokens.symm ▸ hmem
    exact ha.stored r hrow

end Start

/-! ## The actions -/

section Actions

variable {V : Verifiers} {s s' : AccountServer} {id status token : String}

/-- Logging a user out leaves no token of a log that is alive under the name. -/
theorem logoutById_spec {id : String} (h : UserService.logoutById s id = .ok s') :
    Shrinks s s' ∧ ∃ u ∈ s.db.users, u.id = id ∧
      ∀ i ∈ s'.tokens, ∀ l, Alive s.db l → l.username = u.username → i.key ≠ l.id := by
  obtain ⟨u, hfind, h⟩ := bind_eq_ok.mp h
  obtain rfl := Except.ok.inj h
  obtain ⟨hu, hid⟩ := userById_eq_ok.mp hfind
  refine ⟨Shrinks.foldl_logout s _, u, hu, hid, fun i hi l hl hname => ?_⟩
  refine (mem_foldl_logout.mp hi).2 l (List.mem_filter.mpr ⟨hl.1, ?_⟩)
  exact Bool.and_eq_true_iff.mpr ⟨hl.2, beq_iff_eq.mpr hname⟩

/-- A change of status logs a user out who gets disabled, and then writes the row. Either part may
fail, and the change ends there. -/
theorem updateStatusById_cases (s : AccountServer) (id status : String) :
    (s.updateStatusById id status).2 = s ∨
      ∃ s₁, (status ≠ nd.statusDisabled ∧ s₁ = s ∨ UserService.logoutById s id = .ok s₁) ∧
        ((s.updateStatusById id status).2 = s₁ ∨
          ∃ db', UserRepository.update s₁.db.toDatabase { id, status } = .ok db' ∧
            (s.updateStatusById id status).2 = { s₁ with db := { s₁.db with toDatabase := db' } }) := by
  rw [AccountServer.updateStatusById]
  by_cases hstatus : nd.statusDisabled = status
  · rw [if_pos hstatus]
    cases hlogout : UserService.logoutById s id with
    | error e => exact .inl rfl
    | ok s₁ =>
      refine .inr ⟨s₁, .inr rfl, ?_⟩
      dsimp only
      cases UserRepository.update s₁.db.toDatabase { id, status } with
      | error e => exact .inl rfl
      | ok db' => exact .inr ⟨db', rfl, rfl⟩
  · rw [if_neg hstatus]
    refine .inr ⟨s, .inl ⟨Ne.symm hstatus, rfl⟩, ?_⟩
    dsimp only
    cases UserRepository.update s.db.toDatabase { id, status } with
    | error e => exact .inl rfl
    | ok db' => exact .inr ⟨db', rfl, rfl⟩

theorem Linked.updateStatusById (h : Linked s) :
    Linked (s.updateStatusById id status).2 := by
  rcases updateStatusById_cases s id status with hout | ⟨s₁, hfirst, hwrite⟩
  · rw [hout]
    exact h
  have h₁ : Linked s₁ := by
    rcases hfirst with ⟨-, rfl⟩ | hlogout
    · exact h
    · exact h.shrink (logoutById_spec hlogout).1
  rcases hwrite with hout | ⟨db', hok, hout⟩
  · rw [hout]
    exact h₁
  · rw [hout]
    exact h₁.updateUserRow rfl hok

/-- The account of a token is a stored user. -/
theorem Linked.account (h : Linked s) (ha : s.account token = some id) :
    ∃ u ∈ s.db.users, u.id = id := by
  obtain ⟨authorization, hget, rfl⟩ := Option.map_eq_some_iff.mp ha
  obtain ⟨i, hi, -, -, rfl⟩ := ExpiringCache.get_eq_some.mp hget
  exact h.user_exists hi

/-- What an action that a step takes does. -/
theorem step_eq_some {a : AccountAction} :
    s.step V a = some s' ↔ s.Drawn a ∧ s.act V a = some s' := by
  rw [AccountServer.step]
  by_cases hdrawn : s.Drawn a
  · rw [if_pos hdrawn, and_iff_right hdrawn]
  · rw [if_neg hdrawn]
    constructor
    · intro h
      cases h
    · intro h
      exact absurd h.1 hdrawn

/-- A request of an account either finds none for its token or is made for it. -/
theorem of_account {f : String → AccountServer}
    (hact : (match s.account token with
      | some userId => some (f userId)
      | none => some s) = some s') :
    s' = s ∨ ∃ userId, s.account token = some userId ∧ s' = f userId := by
  cases ha : s.account token with
  | none =>
    rw [ha] at hact
    exact .inl (Option.some.inj hact).symm
  | some userId =>
    rw [ha] at hact
    exact .inr ⟨userId, rfl, (Option.some.inj hact).symm⟩

/-- An access token is generated for the account of the token, if it has one. -/
theorem act_genAccessToken {uuid : String}
    (hact : s.act V (.genAccessToken token id uuid) = some s') : s' = s ∨
      ∃ userId, s.account token = some userId ∧
        s' = (AccessTokenService.genAccessToken s userId id uuid).2 :=
  of_account hact

/-- The access token of the account of the token is deleted, if it has one. -/
theorem act_delAccessToken (hact : s.act V (.delAccessToken token) = some s') : s' = s ∨
    ∃ userId, s.account token = some userId ∧
      s' = AccessTokenService.delAccessToken s userId :=
  of_account hact

/-- The rows stand behind the tokens after every action, a rename kept safe. -/
theorem Linked.step (h : Linked s) {a : AccountAction} (hstep : s.step V a = some s')
    (hsafe : ∀ uuid id user, a = .updateUser uuid id user → s.RenameSafe uuid id user) :
    Linked s' := by
  obtain ⟨hdrawn, hact⟩ := step_eq_some.mp hstep
  cases a with
  | createUser uuid user encoded storageCreated => exact Option.some.inj hact ▸ h.createUser
  | updateUser uuid id user =>
    obtain rfl := Option.some.inj hact
    exact h.updateUser (hsafe uuid id user rfl)
  | updateStatus id status => exact Option.some.inj hact ▸ h.updateStatusById
  | webLogin w => exact Option.some.inj hact ▸ h.webLogin hdrawn
  | sshLogin w => exact Option.some.inj hact ▸ h.sshLogin hdrawn
  | request token => exact Option.some.inj hact ▸ h
  | logout token =>
    obtain rfl := Option.some.inj hact
    split
    · exact h.shrink (Shrinks.logout s token)
    · exact h
  | genAccessToken token id uuid =>
    rcases act_genAccessToken hact with rfl | ⟨userId, ha, rfl⟩
    · exact h
    · exact h.genAccessToken hdrawn (h.account ha)
  | delAccessToken token =>
    rcases act_delAccessToken hact with rfl | ⟨userId, ha, rfl⟩
    · exact h
    · exact h.delAccessToken userId
  | deleteLoginLogs tokens =>
    exact Option.some.inj hact ▸ h.shrink (shrinks_deleteLoginLogs s tokens)
  | expire token => exact Option.some.inj hact ▸ h.expire token
  | purge => exact Option.some.inj hact ▸ h.shrink (shrinks_purge s)
  | restart =>
    obtain ⟨s'', hstart, hlinked, -⟩ := reloadData_spec h
    rw [AccountServer.act, hstart] at hact
    exact Option.some.inj hact ▸ hlinked

/-- Nothing is logged in to a new store. -/
theorem Linked.init {db : AccountDatabase}
    (hnames : ∀ u ∈ db.users, ∀ v ∈ db.users, u.username = v.username → u = v) :
    Linked (AccountServer.init db) :=
  ⟨hnames, nofun, nofun, nofun, nofun, nofun⟩

end Actions

namespace AccountServer

/-- Comparisons of plain texts. -/
def plainVerifiers : Verifiers where
  encoderMatch hash pass := hash == pass
  validate _ code secret := code == secret
  contains block ip := block == ip

def oneUser : AccountDatabase :=
  { users := ⟨[{ id := "u1", username := "li", password := "p1", status := nd.statusEnabled }],
      by decide⟩ }

def oneWebLogin (now : Moment) : WebLogin :=
  { username := "li", password := "p1", now, token := "a1", uuid := "b1" }

def oneSshLogin : SshLogin := ⟨⟨"li", "192.0.2.7:52814", false, none⟩, some "p1", [], "c1", "d1"⟩

end AccountServer

end NextDBM
