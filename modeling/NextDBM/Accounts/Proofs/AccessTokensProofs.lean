import NextDBM.Accounts.AccessTokens
import NextDBM.Accounts.Proofs.ReferencesProofs

/-!
# Proofs: access tokens and failing statements

A piece of work is described by what it leaves in the tables and in the cache, with the statements that
it needed. What stops before the cache is written changes nothing, since the transaction is rolled back;
what goes through changes the row and the item of one user.
-/

namespace NextDBM

open Relational Transaction Work

namespace AccessTokens

variable {w w' : World AccountDatabase TokenManager} {userId id uuid token : String} {e : Error}

/-! ## Statements -/

theorem findUser_eq_ok {db db' : AccountDatabase} {user : User} :
    findUser id db = .ok (user, db') ↔ (user ∈ db.users ∧ user.id = id) ∧ db' = db := by
  unfold findUser
  cases hfind : UserRepository.findById db.toDatabase id with
  | ok u =>
    rw [← userById_eq_ok, hfind]
    constructor
    · intro h
      cases h
      exact ⟨rfl, rfl⟩
    · rintro ⟨h, rfl⟩
      cases h
      rfl
  | error e =>
    rw [← userById_eq_ok, hfind]
    constructor
    · intro h
      cases h
    · rintro ⟨h, -⟩
      cases h

theorem createAccessToken_eq_ok {db db' : AccountDatabase} {o : AccessToken} {u : Unit} :
    createAccessToken o db = .ok (u, db') ↔
      ∃ accessTokens, db.accessTokens.insert o = some accessTokens ∧
        db' = { db with accessTokens } := by
  unfold createAccessToken
  cases db.accessTokens.insert o with
  | some accessTokens =>
    constructor
    · intro h
      cases h
      exact ⟨accessTokens, rfl, rfl⟩
    · rintro ⟨t, ht, rfl⟩
      cases ht
      rfl
  | none =>
    constructor
    · intro h
      cases h
    · rintro ⟨t, ht, -⟩
      cases ht

/-! ## Evictions -/

/-- An access token is evicted without a statement. -/
theorem logout_run (h : UserService.isForever token = true) (w : World AccountDatabase TokenManager) :
    logout token w = (.ok (), { w with memory := w.memory.remove token }) := by
  unfold logout
  by_cases hsome : (w.memory.findById token).isSome = true
  · have hcallback : onEvicted token = pure () := if_pos h
    rw [if_pos hsome, hcallback]
    rfl
  · rw [if_neg hsome]
    rfl

/-- The cache without the token of a row. -/
def evicted (m : TokenManager) : Option AccessToken → TokenManager
  | some r => m.remove r.token
  | none => m

theorem evict_run {old : Option AccessToken} (h : ∀ r ∈ old, UserService.isForever r.token = true)
    (w : World AccountDatabase TokenManager) :
    evict old w = (.ok (), { w with memory := evicted w.memory old }) := by
  cases old with
  | none => rfl
  | some r =>
    have hforever := h r rfl
    have heq : evict (some r) = logout r.token := if_pos (isForever_ne_empty hforever)
    rw [heq]
    exact logout_run hforever w

/-- The rows have tokens that `GenAccessToken` has made. -/
def ForeverRows (db : AccountDatabase) : Prop :=
  ∀ r ∈ db.accessTokens, UserService.isForever r.token = true

theorem forever_of_find {db : AccountDatabase} (h : ForeverRows db) :
    ∀ r ∈ AccessTokenRepository.findByUserId db userId, UserService.isForever r.token = true :=
  fun r hr => h r (findByUserId_eq_some hr).1

/-! ## `DelAccessToken` -/

/-- It goes through, or it stops before the eviction or after it. -/
theorem delAccessToken_cases (h : ForeverRows w.db) (userId : String) :
    (Serves w.served 2 ∧ delAccessToken userId w =
      (.ok (), ⟨AccessTokenRepository.deleteByUserId w.db userId,
        evicted w.memory (AccessTokenRepository.findByUserId w.db userId), spend 2 w.served⟩)) ∨
    ∃ e w', delAccessToken userId w = (.error e, w') ∧ w'.db = w.db ∧ ¬ Serves w.served 2 ∧
      (w'.memory = w.memory ∨ Serves w.served 1 ∧
        w'.memory = evicted w.memory (AccessTokenRepository.findByUserId w.db userId)) := by
  unfold delAccessToken
  rcases statement_cases databaseFault
      (fun db => Except.ok (AccessTokenRepository.findByUserId db userId, db)) w with
    ⟨old, db, hfirst, hold, hrun⟩ | ⟨e, w', hrun, hdb, hmemory, hwhy⟩
  · obtain ⟨rfl, rfl⟩ := Prod.mk.inj (Except.ok.inj hold)
    rw [bind_run_ok hrun, bind_run_ok (evict_run (forever_of_find h) _)]
    rcases statement_cases databaseFault
        (fun db => Except.ok ((), AccessTokenRepository.deleteByUserId db userId))
        (⟨w.db, evicted w.memory (AccessTokenRepository.findByUserId w.db userId),
          spend 1 w.served⟩ : World AccountDatabase TokenManager) with
      ⟨u, db, hsecond, hdelete, hrun'⟩ | ⟨e, w', hrun', hdb, hmemory, hwhy⟩
    · left
      obtain ⟨-, rfl⟩ := Prod.mk.inj (Except.ok.inj hdelete)
      refine ⟨serves_add.mpr ⟨hfirst, hsecond⟩, hrun'.trans ?_⟩
      rw [spend_spend]
    · right
      refine ⟨e, w', hrun', hdb, fun hserves => ?_, .inr ⟨hfirst, hmemory⟩⟩
      rcases hwhy with hnot | herror
      · exact hnot (serves_add.mp hserves).2
      · cases herror
  · right
    refine ⟨e, w', bind_run_error hrun, hdb, fun hserves => ?_, .inl hmemory⟩
    rcases hwhy with hnot | herror
    · exact hnot (hserves.mono (by omega))
    · cases herror

/-! ## `GenAccessToken` -/

/-- The second half goes through, or it stops before the cache is written or after it. -/
theorem storeAccessToken_cases (w : World AccountDatabase TokenManager) (userId id uuid : String) :
    (∃ user ∈ w.db.users, user.id = userId ∧ Serves w.served 2 ∧ ∃ accessTokens,
      w.db.accessTokens.insert { id, userId, token := "forever-" ++ uuid } = some accessTokens ∧
      storeAccessToken userId id uuid w =
        (.ok (), ⟨{ w.db with accessTokens },
          w.memory.set ("forever-" ++ uuid) (authorization ("forever-" ++ uuid) user) false,
          spend 2 w.served⟩)) ∨
    ∃ e w', storeAccessToken userId id uuid w = (.error e, w') ∧
      ((w'.memory = w.memory ∧ (¬ Serves w.served 1 ∨ ¬ w.db.HasUser userId)) ∨
        (Serves w.served 1 ∧ w.db.HasUser userId ∧ (¬ Serves w.served 2 ∨
          w.db.accessTokens.insert { id, userId, token := "forever-" ++ uuid } = none))) := by
  unfold storeAccessToken
  rcases statement_cases databaseFault (findUser userId) w with
    ⟨user, db, hfirst, hfind, hrun⟩ | ⟨e, w', hrun, -, hmemory, hwhy⟩
  · obtain ⟨⟨hu, hid⟩, rfl⟩ := findUser_eq_ok.mp hfind
    rw [bind_run_ok hrun, bind_run_ok (touch_run _ _)]
    rcases statement_cases databaseFault
        (createAccessToken { id, userId, token := "forever-" ++ uuid })
        (⟨w.db, w.memory.set ("forever-" ++ uuid) (authorization ("forever-" ++ uuid) user) false,
          spend 1 w.served⟩ : World AccountDatabase TokenManager) with
      ⟨u, db, hsecond, hcreate, hrun'⟩ | ⟨e, w', hrun', -, -, hwhy⟩
    · left
      obtain ⟨accessTokens, hinsert, rfl⟩ := createAccessToken_eq_ok.mp hcreate
      refine ⟨user, hu, hid, serves_add.mpr ⟨hfirst, hsecond⟩, accessTokens, hinsert,
        hrun'.trans ?_⟩
      rw [spend_spend]
    · right
      refine ⟨e, w', hrun', .inr ⟨hfirst, ⟨user, hu, hid⟩, ?_⟩⟩
      rcases hwhy with hnot | herror
      · exact .inl fun hserves => hnot (serves_add.mp hserves).2
      · right
        cases hinsert : w.db.accessTokens.insert { id, userId, token := "forever-" ++ uuid } with
        | none => rfl
        | some accessTokens =>
          rw [createAccessToken_eq_ok (u := ()).mpr ⟨accessTokens, hinsert, rfl⟩] at herror
          cases herror
  · right
    refine ⟨e, w', bind_run_error hrun, .inl ⟨hmemory, ?_⟩⟩
    rcases hwhy with hnot | herror
    · exact .inl hnot
    · refine .inr fun ⟨u, hu, hid⟩ => ?_
      rw [findUser_eq_ok.mpr ⟨⟨hu, hid⟩, rfl⟩] at herror
      cases herror

theorem mem_deleteByUserId {db : AccountDatabase} {r : AccessToken} :
    r ∈ (AccessTokenRepository.deleteByUserId db userId).accessTokens ↔
      r ∈ db.accessTokens ∧ r.userId ≠ userId :=
  Table.mem_deleteWhere.trans (and_congr_right fun _ => beq_eq_false_iff_ne)

/-- When it goes through, the user has one new token. -/
theorem genAccessToken_ok (h : ForeverRows w.db)
    (hok : genAccessToken userId id uuid w = (.ok (), w')) :
    ∃ user ∈ w.db.users, user.id = userId ∧ ∃ accessTokens,
      (∀ r, r ∈ accessTokens ↔ r = { id, userId, token := "forever-" ++ uuid } ∨
        r ∈ w.db.accessTokens ∧ r.userId ≠ userId) ∧
      w'.db = { w.db with accessTokens } ∧
      w'.memory = (evicted w.memory (AccessTokenRepository.findByUserId w.db userId)).set
        ("forever-" ++ uuid) (authorization ("forever-" ++ uuid) user) false := by
  obtain ⟨w₁, hbody, -, rfl⟩ := transaction_eq_ok.mp hok
  obtain ⟨u, w₂, hdel, hstore⟩ := bind_ok.mp hbody
  rcases delAccessToken_cases h userId with ⟨-, hrun⟩ | ⟨e, w₃, hrun, -⟩
  · rw [hrun] at hdel
    obtain ⟨-, rfl⟩ := Prod.mk.inj hdel
    rcases storeAccessToken_cases _ userId id uuid with
      ⟨user, hu, hid, -, accessTokens, hinsert, hrun'⟩ | ⟨e, w₃, hrun', -⟩
    · rw [hrun'] at hstore
      obtain ⟨-, rfl⟩ := Prod.mk.inj hstore
      refine ⟨user, hu, hid, accessTokens, fun r => ?_, rfl, rfl⟩
      rw [Table.mem_of_insert hinsert, mem_deleteByUserId]
    · rw [hrun'] at hstore
      cases hstore
  · rw [hrun] at hdel
    cases hdel

/-- Where the second half fails, seen from the beginning of the whole. -/
theorem served_of_store (db : AccountDatabase) {m : TokenManager} (htwo : Serves w.served 2)
    (husers : db.toDatabase = w.db.toDatabase)
    (hinsert : ∀ r ∈ db.accessTokens, r.id ≠ id) {w₁ : World AccountDatabase TokenManager}
    (hstore : storeAccessToken userId id uuid ⟨db, m, spend 2 w.served⟩ = (.error e, w₁)) :
    (w₁.memory = m ∧ (¬ Serves w.served 3 ∨ ¬ w.db.HasUser userId)) ∨
      (Serves w.served 3 ∧ w.db.HasUser userId ∧ ¬ Serves w.served 5) := by
  have hthree : Serves (spend 2 w.served) 1 ↔ Serves w.served 3 := by
    rw [serves_add (m := 2) (n := 1)]
    exact ⟨fun h => ⟨htwo, h⟩, fun h => h.2⟩
  have hfour : Serves (spend 2 w.served) 2 ↔ Serves w.served 4 := by
    rw [serves_add (m := 2) (n := 2)]
    exact ⟨fun h => ⟨htwo, h⟩, fun h => h.2⟩
  have huser : db.HasUser userId ↔ w.db.HasUser userId := by rw [husers]
  rcases storeAccessToken_cases ⟨db, m, spend 2 w.served⟩ userId id uuid with
    ⟨user, -, -, -, accessTokens, -, hrun⟩ | ⟨e', w₂, hrun, hwhy⟩
  · rw [hrun] at hstore
    cases hstore
  · rw [hrun] at hstore
    obtain ⟨-, rfl⟩ := Prod.mk.inj hstore
    rcases hwhy with ⟨hmemory, hwhy⟩ | ⟨hone, hhas, hwhy⟩
    · exact .inl ⟨hmemory, by rwa [hthree, huser] at hwhy⟩
    · refine .inr ⟨hthree.mp hone, huser.mp hhas, fun hfive => ?_⟩
      rcases hwhy with hnot | hnone
      · exact hnot (hfour.mpr (hfive.mono (by omega)))
      · obtain ⟨r, hr, hid⟩ := Table.insert_eq_none.mp hnone
        exact hinsert r hr hid

/-- When it fails, the tables are as before; the cache is as before, or without the old token, or it may
have the new one. -/
theorem genAccessToken_error (h : ForeverRows w.db) (hnew : ∀ r ∈ w.db.accessTokens, r.id ≠ id)
    (herror : genAccessToken userId id uuid w = (.error e, w')) :
    w'.db = w.db ∧ (w'.memory = w.memory ∧ ¬ Serves w.served 2 ∨
      (w'.memory = evicted w.memory (AccessTokenRepository.findByUserId w.db userId) ∧
        Serves w.served 1 ∧ (¬ Serves w.served 3 ∨ ¬ w.db.HasUser userId)) ∨
      (Serves w.served 3 ∧ w.db.HasUser userId ∧ ¬ Serves w.served 5)) := by
  refine ⟨transaction_error herror, ?_⟩
  rcases transaction_failed herror with ⟨w₁, hbody, hmemory⟩ | ⟨a, w₁, hbody, hcommit, hmemory⟩
  · rw [hmemory]
    rcases bind_error.mp hbody with hdel | ⟨u, w₂, hdel, hstore⟩
    · rcases delAccessToken_cases h userId with ⟨-, hrun⟩ | ⟨e', w₂, hrun, -, htwo, hsame⟩
      · rw [hrun] at hdel
        cases hdel
      · rw [hrun] at hdel
        obtain ⟨-, rfl⟩ := Prod.mk.inj hdel
        rcases hsame with hsame | ⟨hone, hsame⟩
        · exact .inl ⟨hsame, htwo⟩
        · exact .inr (.inl ⟨hsame, hone, .inl fun hthree => htwo (hthree.mono (by omega))⟩)
    · rcases delAccessToken_cases h userId with ⟨htwo, hrun⟩ | ⟨e', w₃, hrun, -⟩
      · rw [hrun] at hdel
        obtain ⟨-, rfl⟩ := Prod.mk.inj hdel
        right
        rcases served_of_store (AccessTokenRepository.deleteByUserId w.db userId) htwo rfl
          (fun r hr => hnew r (mem_deleteByUserId.mp hr).1) hstore with ⟨hsame, hwhy⟩ | hlate
        · exact .inl ⟨hsame, htwo.mono (by omega), hwhy⟩
        · exact .inr hlate
      · rw [hrun] at hdel
        cases hdel
  · -- the body went through, and the commit fails
    obtain ⟨u, w₂, hdel, hstore⟩ := bind_ok.mp hbody
    rcases delAccessToken_cases h userId with ⟨htwo, hrun⟩ | ⟨e', w₃, hrun, -⟩
    · rw [hrun] at hdel
      obtain ⟨-, rfl⟩ := Prod.mk.inj hdel
      rcases storeAccessToken_cases _ userId id uuid with
        ⟨user, hu, hid, hserves, accessTokens, -, hrun'⟩ | ⟨e', w₃, hrun', -⟩
      · rw [hrun'] at hstore
        obtain ⟨-, rfl⟩ := Prod.mk.inj hstore
        refine .inr (.inr ⟨?_, ⟨user, hu, hid⟩, fun hfive => hcommit ?_⟩)
        · exact (serves_add (m := 2) (n := 1)).mpr ⟨htwo, hserves.mono (by omega)⟩
        · show Serves (spend 2 (spend 2 w.served)) 1
          rw [spend_spend]
          exact (serves_add (m := 4) (n := 1)).mp hfive |>.2
      · rw [hrun'] at hstore
        cases hstore
    · rw [hrun] at hdel
      cases hdel

/-! ## The other calls -/

theorem lift_eq_ok {f : Database → Except Error Database} {db db' : AccountDatabase} {u : Unit} :
    lift f db = .ok (u, db') ↔
      ∃ d, f db.toDatabase = .ok d ∧ db' = { db with toDatabase := d } := by
  unfold lift
  cases f db.toDatabase with
  | ok d =>
    constructor
    · intro h
      cases h
      exact ⟨d, rfl, rfl⟩
    · rintro ⟨d', hd', rfl⟩
      cases hd'
      rfl
  | error e =>
    constructor
    · intro h
      cases h
    · rintro ⟨d, hd, -⟩
      cases hd

/-- A transaction of one such write goes through, or it changes nothing. -/
theorem lift_cases (f : Database → Except Error Database) (w : World AccountDatabase TokenManager) :
    (∃ d, Serves w.served 2 ∧ f w.db.toDatabase = .ok d ∧
      transaction databaseFault (statement databaseFault (lift f)) w =
        (.ok (), ⟨{ w.db with toDatabase := d }, w.memory, spend 2 w.served⟩)) ∨
    ∃ e w', transaction databaseFault (statement databaseFault (lift f)) w = (.error e, w') ∧
      w'.db = w.db ∧ w'.memory = w.memory := by
  rcases hrun : transaction databaseFault (statement databaseFault (lift f)) w with ⟨r, w'⟩
  cases r with
  | ok u =>
    obtain ⟨w₁, hbody, hcommit, rfl⟩ := transaction_eq_ok.mp hrun
    obtain ⟨hfirst, db, hlift, rfl⟩ := statement_eq_ok.mp hbody
    obtain ⟨d, hd, rfl⟩ := lift_eq_ok.mp hlift
    refine .inl ⟨d, serves_add.mpr ⟨hfirst, hcommit⟩, hd, ?_⟩
    rw [spend_spend]
  | error e =>
    refine .inr ⟨e, w', rfl, transaction_error hrun, ?_⟩
    rcases transaction_failed hrun with ⟨w₁, hbody, hmemory⟩ | ⟨a, w₁, hbody, -, hmemory⟩
    · exact hmemory.trans (statement_error hbody).2
    · exact hmemory.trans (statement_ok hbody).2

/-- What a logout of a login token leaves alone: the access tokens, the users, and the other items of the
cache. -/
structure LoginsOnly (w w' : World AccountDatabase TokenManager) : Prop where
  accessTokens : w'.db.accessTokens = w.db.accessTokens
  database : w'.db.toDatabase = w.db.toDatabase
  loginLogs : ∀ l ∈ w'.db.loginLogs, ∃ l' ∈ w.db.loginLogs, l'.id = l.id
  get : ∀ token, UserService.isForever token = true → w'.memory.get token = w.memory.get token

namespace LoginsOnly

theorem refl (w : World AccountDatabase TokenManager) : LoginsOnly w w :=
  ⟨rfl, rfl, fun l hl => ⟨l, hl, rfl⟩, fun _ _ => rfl⟩

theorem trans {w'' : World AccountDatabase TokenManager} (h : LoginsOnly w w')
    (h' : LoginsOnly w' w'') : LoginsOnly w w'' where
  accessTokens := h'.accessTokens.trans h.accessTokens
  database := h'.database.trans h.database
  loginLogs l hl := by
    obtain ⟨l₁, hl₁, hid₁⟩ := h'.loginLogs l hl
    obtain ⟨l₂, hl₂, hid₂⟩ := h.loginLogs l₁ hl₁
    exact ⟨l₂, hl₂, hid₂.trans hid₁⟩
  get token ht := (h'.get token ht).trans (h.get token ht)

end LoginsOnly

/-- The callback writes the login logs alone, whatever it answers. -/
theorem loginsOnly_logoutByToken (token : String) (w : World AccountDatabase TokenManager) :
    LoginsOnly w (logoutByToken token w).2 := by
  unfold logoutByToken
  rcases hfirst : statement databaseFault (fun db : AccountDatabase =>
      (LoginLogRepository.findById db token).map fun loginLog => (loginLog, db)) w with ⟨r, w₁⟩
  have hkeep : LoginsOnly w w₁ := by
    cases r with
    | ok loginLog =>
      obtain ⟨hfind, hmemory⟩ := statement_ok hfirst
      have hdb : w₁.db = w.db := by
        cases hlog : LoginLogRepository.findById w.db token with
        | ok l =>
          rw [hlog] at hfind
          exact (Prod.mk.inj (Except.ok.inj hfind)).2.symm
        | error e =>
          rw [hlog] at hfind
          cases hfind
      exact ⟨by rw [hdb], by rw [hdb], fun l hl => ⟨l, hdb ▸ hl, rfl⟩, fun _ _ => by rw [hmemory]⟩
    | error e =>
      obtain ⟨hdb, hmemory⟩ := statement_error hfirst
      exact ⟨by rw [hdb], by rw [hdb], fun l hl => ⟨l, hdb ▸ hl, rfl⟩, fun _ _ => by rw [hmemory]⟩
  cases r with
  | error e =>
    rw [bind_run_error hfirst]
    exact hkeep
  | ok loginLog =>
    rw [bind_run_ok hfirst]
    refine hkeep.trans ?_
    rcases hsecond : statement databaseFault (fun db : AccountDatabase =>
        (LoginLogRepository.updateLogoutTime db token).map fun db => ((), db)) w₁ with ⟨r, w₂⟩
    cases r with
    | error e =>
      obtain ⟨hdb, hmemory⟩ := statement_error hsecond
      exact ⟨by rw [hdb], by rw [hdb], fun l hl => ⟨l, hdb ▸ hl, rfl⟩, fun _ _ => by rw [hmemory]⟩
    | ok u =>
      obtain ⟨hupdate, hmemory⟩ := statement_ok hsecond
      unfold LoginLogRepository.updateLogoutTime at hupdate
      by_cases hempty : token = ""
      · rw [if_pos hempty] at hupdate
        cases hupdate
      · rw [if_neg hempty] at hupdate
        have hdb := (Prod.mk.inj (Except.ok.inj hupdate)).2
        refine ⟨by rw [← hdb], by rw [← hdb], fun l hl => ?_, fun _ _ => by rw [hmemory]⟩
        rw [← hdb] at hl
        rcases Table.mem_updateById (f := fun l : LoginLog => { l with loggedOut := true })
          (fun _ => rfl) hl with hl | ⟨l', hl', -, rfl⟩
        · exact ⟨l, hl, rfl⟩
        · exact ⟨l', hl', rfl⟩

theorem loginsOnly_logout (h : UserService.isForever token = false)
    (w : World AccountDatabase TokenManager) : LoginsOnly w (logout token w).2 := by
  have hremove : LoginsOnly w { w with memory := w.memory.remove token } := by
    refine ⟨rfl, rfl, fun l hl => ⟨l, hl, rfl⟩, fun t ht => ExpiringCache.get_remove_of_ne ?_ w.memory⟩
    rintro rfl
    rw [ht] at h
    cases h
  unfold logout
  by_cases hsome : (w.memory.findById token).isSome = true
  · have hcallback : onEvicted token = ignore (logoutByToken token) := by
      unfold onEvicted
      rw [if_neg (by rw [h]; exact Bool.false_ne_true)]
    rw [if_pos hsome, hcallback]
    exact hremove.trans (loginsOnly_logoutByToken token _)
  · rw [if_neg hsome]
    exact hremove

theorem loginsOnly_each {logs : List LoginLog} (h : ∀ l ∈ logs, UserService.isForever l.id = false)
    (w : World AccountDatabase TokenManager) :
    LoginsOnly w (each (fun l : LoginLog => logout l.id) logs w).2 :=
  each_keeps (I := LoginsOnly w) (fun l hl _ hw => hw.trans (loginsOnly_logout (h l hl) _))
    (LoginsOnly.refl w)

end AccessTokens

namespace TokenStore

open AccessTokens

variable {s t : TokenStore} {db db' : AccountDatabase} {m m' : TokenManager}
  {userId id uuid : String}

/-! ## The invariant -/

/-- The tables and the cache agree, and a token or a user has one row. -/
structure Inv (db : AccountDatabase) (m : TokenManager) : Prop where
  agrees : Agrees ⟨db, m⟩
  forever : ForeverRows db
  unique : ∀ r ∈ db.accessTokens, ∀ r' ∈ db.accessTokens,
    r.token = r'.token ∨ r.userId = r'.userId → r = r'
  loginLogs : ∀ l ∈ db.loginLogs, UserService.isForever l.id = false

namespace Inv

/-- The tokens of a user leave the cache and the table. -/
theorem delete (h : Inv db m) (userId : String) :
    Inv (AccessTokenRepository.deleteByUserId db userId)
      (evicted m (AccessTokenRepository.findByUserId db userId)) := by
  -- the items of the other users stay, and none is left of the user
  have hget : ∀ token a, (evicted m (AccessTokenRepository.findByUserId db userId)).get token = some a →
      m.get token = some a ∧ ∀ r ∈ db.accessTokens, r.userId = userId → r.token ≠ token := by
    intro token a ha
    cases hfind : AccessTokenRepository.findByUserId db userId with
    | none =>
      rw [hfind] at ha
      exact ⟨ha, fun r hr huser => absurd huser (findByUserId_eq_none hfind r hr)⟩
    | some o =>
      rw [hfind] at ha
      obtain ⟨ho, hou⟩ := findByUserId_eq_some hfind
      have hne : token ≠ o.token := by
        rintro rfl
        have hnone : (m.remove o.token).get o.token = none := ExpiringCache.get_remove_self m o.token
        rw [show evicted m (some o) = m.remove o.token from rfl, hnone] at ha
        cases ha
      refine ⟨(ExpiringCache.get_remove_of_ne hne m).symm.trans ha, fun r hr huser heq => hne ?_⟩
      rw [← heq, h.unique r hr o ho (.inr (huser.trans hou.symm))]
  have hkeep : ∀ r ∈ db.accessTokens, r.userId ≠ userId →
      (evicted m (AccessTokenRepository.findByUserId db userId)).get r.token = m.get r.token := by
    intro r hr hne
    cases hfind : AccessTokenRepository.findByUserId db userId with
    | none => rfl
    | some o =>
      obtain ⟨ho, hou⟩ := findByUserId_eq_some hfind
      refine ExpiringCache.get_remove_of_ne (fun heq => hne ?_) m
      rw [h.unique r hr o ho (.inl heq), hou]
  refine
    { agrees :=
        { live := fun token a ht ha => ?_
          stored := fun r hr => ?_
          users := fun r hr => h.agrees.users r (mem_deleteByUserId.mp hr).1 }
      forever := fun r hr => h.forever r (mem_deleteByUserId.mp hr).1
      unique := fun r hr r' hr' =>
        h.unique r (mem_deleteByUserId.mp hr).1 r' (mem_deleteByUserId.mp hr').1
      loginLogs := h.loginLogs }
  · obtain ⟨hm, hother⟩ := hget token a ha
    obtain ⟨r, hr, htoken, huser⟩ := h.agrees.live token a ht hm
    exact ⟨r, mem_deleteByUserId.mpr ⟨hr, fun heq => hother r hr heq htoken⟩, htoken, huser⟩
  · obtain ⟨hr, hne⟩ := mem_deleteByUserId.mp hr
    obtain ⟨a, ha, huser⟩ := h.agrees.stored r hr
    exact ⟨a, (hkeep r hr hne).trans ha, huser⟩

/-- A user without a token gets one. -/
theorem add {accessTokens : Table AccessToken AccessToken.id} {user : User} {r : AccessToken}
    (h : Inv db m) (hforever : UserService.isForever r.token = true) (hu : user ∈ db.users)
    (huser : user.id = r.userId)
    (hnew : ∀ r' ∈ db.accessTokens, r'.token ≠ r.token ∧ r'.userId ≠ r.userId)
    (hrows : ∀ r', r' ∈ accessTokens ↔ r' = r ∨ r' ∈ db.accessTokens) :
    Inv { db with accessTokens } (m.set r.token (authorization r.token user) false) where
  agrees :=
    { live := by
        intro token a ht ha
        by_cases heq : token = r.token
        · subst heq
          have ha : (m.set r.token (authorization r.token user) false).get r.token = some a := ha
          rw [ExpiringCache.get_set_self] at ha
          obtain rfl := Option.some.inj ha
          exact ⟨r, (hrows r).mpr (.inl rfl), rfl, huser.symm⟩
        · have ha : (m.set r.token (authorization r.token user) false).get token = some a := ha
          rw [ExpiringCache.get_set_of_ne heq] at ha
          obtain ⟨r', hr', hrest⟩ := h.agrees.live token a ht ha
          exact ⟨r', (hrows r').mpr (.inr hr'), hrest⟩
      stored := by
        intro r' hr'
        rcases (hrows r').mp hr' with rfl | hr'
        · exact ⟨_, ExpiringCache.get_set_self m _ _ _, huser⟩
        · obtain ⟨a, ha, hid⟩ := h.agrees.stored r' hr'
          exact ⟨a, (ExpiringCache.get_set_of_ne (hnew r' hr').1 m _ _).trans ha, hid⟩
      users := by
        intro r' hr'
        rcases (hrows r').mp hr' with rfl | hr'
        · exact ⟨user, hu, huser⟩
        · exact h.agrees.users r' hr' }
  forever r' hr' := by
    rcases (hrows r').mp hr' with rfl | hr'
    · exact hforever
    · exact h.forever r' hr'
  unique r₁ h₁ r₂ h₂ heq := by
    rcases (hrows r₁).mp h₁ with rfl | h₁ <;> rcases (hrows r₂).mp h₂ with rfl | h₂
    · rfl
    · exact (heq.elim (fun ht => (hnew r₂ h₂).1 ht.symm) fun hu => (hnew r₂ h₂).2 hu.symm).elim
    · exact (heq.elim (hnew r₁ h₁).1 (hnew r₁ h₁).2).elim
    · exact h.unique r₁ h₁ r₂ h₂ heq
  loginLogs := h.loginLogs

/-- The users change, and those with a token stay. -/
theorem users {d : Database} (h : Inv db m)
    (hd : ∀ r ∈ db.accessTokens, db.HasUser r.userId → d.HasUser r.userId) :
    Inv { db with toDatabase := d } m where
  agrees :=
    { live := h.agrees.live
      stored := h.agrees.stored
      users := fun r hr => hd r hr (h.agrees.users r hr) }
  forever := h.forever
  unique := h.unique
  loginLogs := h.loginLogs

theorem loginsOnly {w w' : World AccountDatabase TokenManager} (h : Inv w.db w.memory)
    (hkeep : LoginsOnly w w') : Inv w'.db w'.memory where
  agrees :=
    { live := by
        intro token a ht ha
        have ha : w'.memory.get token = some a := ha
        rw [hkeep.get token ht] at ha
        show ∃ r ∈ w'.db.accessTokens, _
        rw [hkeep.accessTokens]
        exact h.agrees.live token a ht ha
      stored := by
        intro r hr
        have hr : r ∈ w'.db.accessTokens := hr
        rw [hkeep.accessTokens] at hr
        show ∃ a, w'.memory.get r.token = some a ∧ _
        rw [hkeep.get r.token (h.forever r hr)]
        exact h.agrees.stored r hr
      users := by
        intro r hr
        have hr : r ∈ w'.db.accessTokens := hr
        rw [hkeep.accessTokens] at hr
        show w'.db.HasUser r.userId
        rw [hkeep.database]
        exact h.agrees.users r hr }
  forever r hr := h.forever r (hkeep.accessTokens ▸ hr)
  unique := by
    rw [hkeep.accessTokens]
    exact h.unique
  loginLogs l hl := by
    obtain ⟨l', hl', hid⟩ := hkeep.loginLogs l hl
    exact hid ▸ h.loginLogs l' hl'

end Inv

/-! ## The calls -/

section Calls

variable {w w' : World AccountDatabase TokenManager} {served : Option Nat}

/-- The store after a piece of work that leaves the invariant. -/
theorem inv_run {x : TokenWork Unit} (h : Inv (x ⟨s.db, s.tokens, served⟩).2.db
    (x ⟨s.db, s.tokens, served⟩).2.memory) : Inv (s.run served x).db (s.run served x).tokens := h

theorem evicted_of_none (hnone : ∀ r ∈ db.accessTokens, r.userId ≠ userId) :
    evicted m (AccessTokenRepository.findByUserId db userId) = m := by
  cases hfind : AccessTokenRepository.findByUserId db userId with
  | none => rfl
  | some r =>
    obtain ⟨hr, huser⟩ := findByUserId_eq_some hfind
    exact absurd huser (hnone r hr)

theorem forall_of_not_hasToken (h : ¬ s.HasToken userId) :
    ∀ r ∈ s.db.accessTokens, r.userId ≠ userId := fun r hr huser => h ⟨r, hr, huser⟩

theorem Inv.genAccessToken (h : Inv s.db s.tokens) (hnew : s.New id uuid)
    (hok : s.KeepsTokens (.genAccessToken userId id uuid served)) :
    Inv (s.run served (AccessTokens.genAccessToken userId id uuid)).db
      (s.run served (AccessTokens.genAccessToken userId id uuid)).tokens := by
  refine inv_run ?_
  rcases hrun : AccessTokens.genAccessToken userId id uuid ⟨s.db, s.tokens, served⟩ with ⟨r, w'⟩
  cases r with
  | ok u =>
    obtain ⟨user, hu, hid, accessTokens, hrows, hdb, hmemory⟩ :=
      genAccessToken_ok (w := ⟨s.db, s.tokens, served⟩) h.forever hrun
    show Inv w'.db w'.memory
    rw [hdb, hmemory]
    refine (h.delete userId).add (r := { id, userId, token := "forever-" ++ uuid })
      (isForever_access uuid) hu hid (fun r' hr' => ?_) fun r' => ?_
    · obtain ⟨hr', hne⟩ := mem_deleteByUserId.mp hr'
      exact ⟨(hnew.1 r' hr').2, hne⟩
    · rw [mem_deleteByUserId]
      exact hrows r'
  | error e =>
    obtain ⟨hdb, hwhere⟩ := genAccessToken_error (w := ⟨s.db, s.tokens, served⟩) h.forever
      (fun r hr => (hnew.1 r hr).1) hrun
    -- the guard leaves only failures before the cache is written
    have hmemory : w'.memory = s.tokens := by
      rcases hwhere with ⟨hsame, -⟩ | ⟨hsame, hone, hstop⟩ | ⟨hthree, hhas, hfive⟩
      · exact hsame
      · rcases hok with hnone | ⟨hfive, hhas⟩ | ⟨hnone, -⟩
        · exact absurd hone hnone
        · exact (hstop.elim (fun hnot => hnot (hfive.mono (by omega))) fun hnot => hnot hhas).elim
        · rw [hsame]
          exact evicted_of_none (forall_of_not_hasToken hnone)
      · rcases hok with hnone | ⟨hserves, -⟩ | ⟨-, hstop⟩
        · exact absurd (hthree.mono (by omega)) hnone
        · exact absurd hserves hfive
        · exact (hstop.elim (fun hnot => hnot hthree) fun hnot => hnot hhas).elim
    show Inv w'.db w'.memory
    rw [hdb, hmemory]
    exact h

theorem Inv.delAccessToken (h : Inv s.db s.tokens)
    (hok : s.KeepsTokens (.delAccessToken userId served)) :
    Inv (s.run served (AccessTokens.delAccessToken userId)).db
      (s.run served (AccessTokens.delAccessToken userId)).tokens := by
  refine inv_run ?_
  rcases delAccessToken_cases (w := ⟨s.db, s.tokens, served⟩) h.forever userId with
    ⟨-, hrun⟩ | ⟨e, w', hrun, hdb, htwo, hmemory⟩
  · rw [hrun]
    exact h.delete userId
  · rw [hrun]
    show Inv w'.db w'.memory
    have hsame : w'.memory = s.tokens := by
      rcases hmemory with hsame | ⟨hone, hsame⟩
      · exact hsame
      · rcases hok with hnone | hserves | hnone
        · exact absurd hone hnone
        · exact absurd hserves htwo
        · rw [hsame]
          exact evicted_of_none (forall_of_not_hasToken hnone)
    rw [hdb, hsame]
    exact h

theorem Inv.updateUser (h : Inv s.db s.tokens) (draw : Nat → String) (id : String) (user : User) :
    Inv (s.run served (AccessTokens.updateUser draw id user)).db
      (s.run served (AccessTokens.updateUser draw id user)).tokens := by
  refine inv_run ?_
  unfold AccessTokens.updateUser
  rcases lift_cases (fun db => UserService.updateUser db draw id user) ⟨s.db, s.tokens, served⟩ with
    ⟨d, -, hd, hrun⟩ | ⟨e, w', hrun, hdb, hmemory⟩
  · rw [hrun]
    exact h.users fun r _ hhas => (adds_updateUser hd).2.users r.userId hhas
  · rw [hrun]
    show Inv w'.db w'.memory
    rw [hdb, hmemory]
    exact h

/-- A deletion that goes through needs four statements and the outcome of the storage. -/
theorem Inv.deleteUserById (h : Inv s.db s.tokens) {storageDeleted : Except Error Unit}
    (hok : s.KeepsTokens (.deleteUserById userId storageDeleted served)) :
    Inv (s.run served (AccessTokens.deleteUserById userId storageDeleted)).db
      (s.run served (AccessTokens.deleteUserById userId storageDeleted)).tokens := by
  refine inv_run ?_
  unfold AccessTokens.deleteUserById
  rcases statement_cases databaseFault (findUser userId)
      (⟨s.db, s.tokens, served⟩ : World AccountDatabase TokenManager) with
    ⟨user, db, hfirst, hfind, hrun⟩ | ⟨e, w', hrun, hdb, hmemory, -⟩
  · obtain ⟨⟨hu, hid⟩, rfl⟩ := findUser_eq_ok.mp hfind
    rw [bind_run_ok hrun]
    rcases statement_cases databaseFault (fun db : AccountDatabase =>
        Except.ok (LoginLogRepository.findAliveLoginLogsByUsername db user.username, db))
        (⟨s.db, s.tokens, spend 1 served⟩ : World AccountDatabase TokenManager) with
      ⟨logs, db, hsecond, hlogs, hrun'⟩ | ⟨e, w', hrun', hdb, hmemory, -⟩
    · obtain ⟨rfl, rfl⟩ := Prod.mk.inj (Except.ok.inj hlogs)
      rw [bind_run_ok hrun', spend_spend]
      rcases lift_cases (fun db => UserService.deleteUserById db userId storageDeleted)
          ⟨s.db, s.tokens, spend 2 served⟩ with ⟨d, hlast, hd, hrun''⟩ | ⟨e, w', hrun'', hdb, hmemory⟩
      · rw [bind_run_ok hrun'']
        obtain ⟨hstorage, hhas, -⟩ := deleteUserById_ok hd
        -- nobody loses a token with the user
        have hnone : ∀ r ∈ s.db.accessTokens, r.userId ≠ userId := by
          rcases hok with hnot | hnot | hnot
          · have htwo : Serves served 2 := (serves_add (m := 1) (n := 1)).mpr ⟨hfirst, hsecond⟩
            exact absurd ((serves_add (m := 2) (n := 2)).mpr ⟨htwo, hlast⟩) hnot
          · exact absurd hstorage hnot
          · exact forall_of_not_hasToken hnot
        have husers : Inv { s.db with toDatabase := d } s.tokens :=
          h.users fun r hr huser => hhas r.userId (hnone r hr) huser
        refine Inv.loginsOnly (w := ⟨_, _, _⟩) husers (loginsOnly_each (fun l hl => ?_) _)
        exact h.loginLogs l (List.mem_filter.mp hl).1
      · rw [bind_run_error hrun'']
        show Inv w'.db w'.memory
        rw [hdb, hmemory]
        exact h
    · rw [bind_run_error hrun']
      show Inv w'.db w'.memory
      rw [hdb, hmemory]
      exact h
  · rw [bind_run_error hrun]
    show Inv w'.db w'.memory
    rw [hdb, hmemory]
    exact h

/-- The items of the cache are those of some rows. -/
structure Loaded (rows : List AccessToken) (m : TokenManager) : Prop where
  live : ∀ token a, m.get token = some a → ∃ r ∈ rows, r.token = token ∧ r.userId = a.user.id
  stored : ∀ r ∈ rows, ∃ a, m.get r.token = some a ∧ a.user.id = r.userId

theorem reloadOne_ok {r : AccessToken} (h : reloadOne r w = (.ok (), w')) :
    ∃ user : User, user.id = r.userId ∧ w'.db = w.db ∧
      w'.memory = w.memory.set r.token (authorization r.token user) false := by
  obtain ⟨user, w₁, hfirst, htouch⟩ := bind_ok.mp h
  obtain ⟨hfind, hmemory⟩ := statement_ok hfirst
  obtain ⟨⟨-, hid⟩, hdb⟩ := findUser_eq_ok.mp hfind
  cases htouch
  exact ⟨user, hid, hdb, by rw [← hmemory]⟩

theorem Loaded.snoc {rows : List AccessToken} {r : AccessToken} {user : User} (h : Loaded rows m)
    (hid : user.id = r.userId) (hnew : ∀ r' ∈ rows, r'.token ≠ r.token) :
    Loaded (rows ++ [r]) (m.set r.token (authorization r.token user) false) where
  live token a ha := by
    by_cases heq : token = r.token
    · subst heq
      rw [ExpiringCache.get_set_self] at ha
      obtain rfl := Option.some.inj ha
      exact ⟨r, List.mem_append_right _ List.mem_cons_self, rfl, hid.symm⟩
    · rw [ExpiringCache.get_set_of_ne heq] at ha
      obtain ⟨r', hr', hrest⟩ := h.live token a ha
      exact ⟨r', List.mem_append_left _ hr', hrest⟩
  stored r' hr' := by
    rcases List.mem_append.mp hr' with hr' | hr'
    · rw [ExpiringCache.get_set_of_ne (hnew r' hr')]
      exact h.stored r' hr'
    · obtain rfl := List.mem_singleton.mp hr'
      exact ⟨_, ExpiringCache.get_set_self m _ _ _, hid⟩

theorem loaded_each {rows done : List AccessToken} (h : each reloadOne rows w = (.ok (), w'))
    (hdone : Loaded done w.memory) (hnodup : ((done ++ rows).map AccessToken.token).Nodup) :
    w'.db = w.db ∧ Loaded (done ++ rows) w'.memory := by
  induction rows generalizing w done with
  | nil =>
    cases h
    rw [List.append_nil]
    exact ⟨rfl, hdone⟩
  | cons r rows ih =>
    obtain ⟨u, w₁, hone, hrest⟩ := bind_ok.mp h
    obtain ⟨user, hid, hdb, hmemory⟩ := reloadOne_ok hone
    have hnew : ∀ r' ∈ done, r'.token ≠ r.token := by
      intro r' hr' heq
      rw [List.map_append, List.nodup_append] at hnodup
      exact hnodup.2.2 _ (List.mem_map_of_mem hr') _ (List.mem_map_of_mem List.mem_cons_self) heq
    have hnext : Loaded (done ++ [r]) w₁.memory := hmemory ▸ hdone.snoc hid hnew
    have hassoc : done ++ r :: rows = (done ++ [r]) ++ rows := by
      rw [List.append_assoc, List.singleton_append]
    rw [hassoc] at hnodup ⊢
    obtain ⟨hdb', hloaded⟩ := ih hrest hnext hnodup
    exact ⟨hdb'.trans hdb, hloaded⟩

/-- A start that goes through loads the stored tokens. -/
theorem Inv.start (h : Inv s.db s.tokens) (hstart : s.start served = some t) :
    Inv t.db t.tokens := by
  unfold TokenStore.start at hstart
  rcases hrun : reload ⟨s.db, ∅, served⟩ with ⟨r, w'⟩
  rw [hrun] at hstart
  cases r with
  | error e => cases hstart
  | ok u =>
    obtain rfl := Option.some.inj hstart
    obtain ⟨rows, w₁, hfirst, hloop⟩ := bind_ok.mp hrun
    obtain ⟨hrows, hmemory⟩ := statement_ok hfirst
    obtain ⟨rfl, hdb⟩ := Prod.mk.inj (Except.ok.inj hrows)
    have hempty : Loaded [] w₁.memory := by
      rw [hmemory]
      refine ⟨fun token a ha => ?_, fun r hr => absurd hr List.not_mem_nil⟩
      obtain ⟨i, hi, -⟩ := ExpiringCache.get_eq_some.mp ha
      exact absurd hi List.not_mem_nil
    have hnodup : (s.db.accessTokens.rows.map AccessToken.token).Nodup := by
      refine List.Nodup.map_on (fun r hr r' hr' heq => h.unique r hr r' hr' (.inl heq)) ?_
      exact s.db.accessTokens.nodup.of_map
    obtain ⟨hdb', hloaded⟩ := loaded_each hloop hempty hnodup
    show Inv w'.db w'.memory
    rw [hdb', ← hdb]
    exact
      { h with
        agrees :=
          { live := fun token a _ ha => hloaded.live token a ha
            stored := hloaded.stored
            users := h.agrees.users } }

end Calls

theorem Initial.not_mem (h : Initial s) (r : AccessToken) : r ∉ s.db.accessTokens := by
  intro hr
  have hr : r ∈ s.db.accessTokens.rows := hr
  rw [h.accessTokens] at hr
  exact List.not_mem_nil hr

theorem Initial.inv (h : Initial s) : Inv s.db s.tokens where
  agrees :=
    { live := by
        intro token a _ ha
        obtain ⟨i, hi, -⟩ := ExpiringCache.get_eq_some.mp ha
        have hi : i ∈ s.tokens.rows := hi
        rw [h.tokens] at hi
        exact absurd hi List.not_mem_nil
      stored := fun r hr => absurd hr (h.not_mem r)
      users := fun r hr => absurd hr (h.not_mem r) }
  forever r hr := absurd hr (h.not_mem r)
  unique r hr := absurd hr (h.not_mem r)
  loginLogs l hl := isForever_of_isUuid (h.loginLogs l hl)

/-- In every run whose calls evict and set tokens only when they go through, and delete no user who has
a token, the live access tokens are the stored ones. -/
theorem agrees_of_reaches {s₀ : TokenStore} (h₀ : Initial s₀)
    (h : Transition.Reaches step KeepsTokens s₀ s) : s.Agrees := by
  refine (h.invariant (I := fun s => Inv s.db s.tokens)
    (fun s c t hs hok hstep => ?_) h₀.inv).agrees
  cases c with
  | genAccessToken userId id uuid served =>
    obtain ⟨hnew, hstep⟩ := Option.ite_none_right_eq_some.mp hstep
    obtain rfl := Option.some.inj hstep
    exact hs.genAccessToken hnew hok
  | delAccessToken userId served =>
    obtain rfl := Option.some.inj hstep
    exact hs.delAccessToken hok
  | updateUser draw id user served =>
    obtain rfl := Option.some.inj hstep
    exact hs.updateUser draw id user
  | deleteUserById userId storageDeleted served =>
    obtain rfl := Option.some.inj hstep
    exact hs.deleteUserById hok
  | start served => exact hs.start hstep

/-- Two users without tokens. -/
def twoUsers : TokenStore :=
  { db := { users := ⟨[{ id := "u1", username := "li" }, { id := "u2", username := "wang" }],
      by decide⟩ } }

theorem initial_twoUsers : Initial twoUsers where
  accessTokens := rfl
  tokens := rfl
  loginLogs _ hl := absurd hl List.not_mem_nil

/-- A token is replaced; the other user gets none, and is deleted; the server starts anew. -/
def replaced : List TokenCall :=
  [.genAccessToken "u1" "a1" "11" none, .genAccessToken "u1" "a2" "22" none,
    .genAccessToken "u2" "a3" "33" (some 2), .deleteUserById "u2" (.ok ()) none, .start none]

theorem agrees_replaced : ∃ s, Transition.exec step twoUsers replaced = some s ∧
    s.db.accessTokens.rows.map AccessToken.token = ["forever-22"] ∧ s.Agrees := by
  obtain ⟨s, hrun, htokens⟩ : ∃ s, Transition.exec step twoUsers replaced = some s ∧
      s.db.accessTokens.rows.map AccessToken.token = ["forever-22"] :=
    ⟨_, rfl, by decide⟩
  exact ⟨s, hrun, htokens, agrees_of_reaches initial_twoUsers
    (Transition.reaches_of_exec hrun (by decide))⟩

/-- The database fails after the old token has been deleted, and takes its row back. -/
def rolledBack : List TokenCall :=
  [.genAccessToken "u1" "a1" "11" none, .genAccessToken "u1" "a2" "22" (some 2)]

theorem not_agrees_rolledBack : ∃ s₀ s, Initial s₀ ∧
    Transition.Reaches step Transition.Any s₀ s ∧ ¬ s.Agrees := by
  obtain ⟨s, hrun, hrow, hlive⟩ : ∃ s, Transition.exec step twoUsers rolledBack = some s ∧
      (∃ r ∈ s.db.accessTokens.rows, r.token = "forever-11") ∧
        (s.tokens.get "forever-11").isNone = true :=
    ⟨_, rfl, by decide, by decide⟩
  refine ⟨twoUsers, s, initial_twoUsers,
    Transition.reaches_of_exec hrun (Transition.allOk_any _ _), fun h => ?_⟩
  obtain ⟨r, hr, htoken⟩ := hrow
  obtain ⟨a, ha, -⟩ := h.stored r hr
  rw [htoken] at ha
  rw [ha] at hlive
  cases hlive

end TokenStore

end NextDBM
