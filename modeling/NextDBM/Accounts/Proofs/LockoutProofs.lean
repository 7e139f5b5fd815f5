import NextDBM.Accounts.Proofs.TokenProofs

/-!
# Proofs: what a disabled user can do

The invariant is that no token of the cache authenticates a disabled user. A web login refuses a
disabled user, and disabling a user removes the tokens of the logs that are alive under the name. The
other writers of the cache do not look at the status, so their steps need their part of the guard.
-/

namespace NextDBM

open Relational

variable {V : Verifiers} {s s' : AccountServer} {u v : User}

/-! ## Tokens -/

/-- No token of the cache authenticates a disabled user. -/
def NoneDisabled (s : AccountServer) : Prop :=
  ∀ i ∈ s.tokens, ∀ u ∈ s.db.users, u.id = i.value.user.id → u.status ≠ nd.statusDisabled

namespace NoneDisabled

/-- Fewer tokens, and the same users. -/
theorem mono (h : NoneDisabled s) (husers : s'.db.toDatabase = s.db.toDatabase)
    (htokens : ∀ i ∈ s'.tokens, ∃ j ∈ s.tokens, i.value.user.id = j.value.user.id) :
    NoneDisabled s' := by
  intro i hi u hu hid
  obtain ⟨j, hj, hji⟩ := htokens i hi
  rw [husers] at hu
  exact h j hj u hu (hid.trans hji)

theorem shrink (h : NoneDisabled s) (hs : Shrinks s s') : NoneDisabled s' :=
  h.mono hs.database fun i hi => ⟨i, hs.tokens i hi, rfl⟩

/-- A token of a user who is not disabled may be stored. -/
theorem set (h : NoneDisabled s) (hu : u ∈ s.db.users) (hstatus : u.status ≠ nd.statusDisabled)
    (husers : s'.db.toDatabase = s.db.toDatabase)
    (htokens : ∀ i ∈ s'.tokens, i.value.user.id = u.id ∨ i ∈ s.tokens) : NoneDisabled s' := by
  intro i hi u' hu' hid
  rw [husers] at hu'
  rcases htokens i hi with heq | hi
  · exact Table.eq_of_key hu' hu (hid.trans heq) ▸ hstatus
  · exact h i hi u' hu' hid

/-- The token of an account is none of a disabled user. -/
theorem account (h : NoneDisabled s) {token id : String} (ha : s.account token = some id)
    (hu : u ∈ s.db.users) (hid : u.id = id) : u.status ≠ nd.statusDisabled := by
  obtain ⟨authorization, hget, rfl⟩ := Option.map_eq_some_iff.mp ha
  obtain ⟨i, hi, -, -, rfl⟩ := ExpiringCache.get_eq_some.mp hget
  exact h i hi u hu hid

end NoneDisabled

/-! ## The actions -/

theorem NoneDisabled.createUser (h : NoneDisabled s) {uuid : Nat → String} {user : User}
    {encoded : Except Error String} {storageCreated : Except Error Unit} :
    NoneDisabled (s.write fun db => UserService.createUser db uuid user encoded storageCreated) := by
  rw [AccountServer.write]
  cases hok : UserService.createUser s.db.toDatabase uuid user encoded storageCreated with
  | error e => exact h
  | ok db' =>
    obtain ⟨u, hstatus, -, hmem⟩ := createUser_users hok
    intro i hi v hv hid
    rcases (hmem v).mp hv with rfl | hv
    · -- a new user is enabled
      rw [hstatus]
      decide
    · exact h i hi v hv hid

/-- A user without an access token has no token left after being logged out. -/
theorem not_mem_logoutById {id : String} (hlinked : Linked s)
    (h : UserService.logoutById s id = .ok s')
    (hnone : ∀ i ∈ s.tokens, UserService.isForever i.key = true → i.value.user.id ≠ id) :
    ∀ i ∈ s'.tokens, i.value.user.id ≠ id := by
  obtain ⟨hshrinks, u, hu, hid, hlogs⟩ := logoutById_spec h
  intro i hi huser
  have hmem := hshrinks.tokens i hi
  cases hkind : UserService.isForever i.key with
  | true => exact hnone i hmem hkind huser
  | false =>
    obtain ⟨l, hl, hkey, v, hv, hvid, hname⟩ := hlinked.login i hmem hkind
    have heq : v = u := Table.eq_of_key hv hu (hvid.trans (huser.trans hid.symm))
    exact hlogs i hi l hl (heq ▸ hname.symm) hkey.symm

/-- A status is written only to a user without tokens, or it is not `disabled`. -/
theorem NoneDisabled.setStatus (h : NoneDisabled s) {id status : String} {db' : Database}
    (hok : UserRepository.update s.db.toDatabase { id, status } = .ok db')
    (hnone : status = nd.statusDisabled → ∀ i ∈ s.tokens, i.value.user.id ≠ id) :
    NoneDisabled { s with db := { s.db with toDatabase := db' } } := by
  rw [UserRepository.update] at hok
  split at hok
  · cases hok
  obtain rfl := Except.ok.inj hok
  intro i hi v hv hid
  rcases Table.mem_updateById (UserRepository.assign_id { id, status }) hv with hv | ⟨u, hu, huid, rfl⟩
  · exact h i hi v hv hid
  · show nonZero status u.status ≠ nd.statusDisabled
    by_cases hzero : status = ""
    · subst hzero
      exact h i hi u hu hid
    · intro hdisabled
      have hstatus : status = nd.statusDisabled := (nonZero_of_ne hzero _).symm.trans hdisabled
      exact hnone hstatus i hi (hid.symm.trans huid)

theorem NoneDisabled.updateStatusById (h : NoneDisabled s) (hlinked : Linked s) {id status : String}
    (hnone : status = nd.statusDisabled →
      ∀ i ∈ s.tokens, UserService.isForever i.key = true → i.value.user.id ≠ id) :
    NoneDisabled (s.updateStatusById id status).2 := by
  rcases updateStatusById_cases s id status with hout | ⟨s₁, hfirst, hwrite⟩
  · rw [hout]
    exact h
  have h₁ : NoneDisabled s₁ := by
    rcases hfirst with ⟨-, rfl⟩ | hlogout
    · exact h
    · exact h.shrink (logoutById_spec hlogout).1
  rcases hwrite with hout | ⟨db', hok, hout⟩
  · rw [hout]
    exact h₁
  rw [hout]
  refine h₁.setStatus hok fun hdisabled => ?_
  rcases hfirst with ⟨hne, -⟩ | hlogout
  · exact absurd hdisabled hne
  · exact not_mem_logoutById hlinked hlogout (hnone hdisabled)

theorem NoneDisabled.webLogin (h : NoneDisabled s) {w : WebLogin}
    (hdrawn : s.Drawn (.webLogin w)) : NoneDisabled (AccountApi.loginEndpoint V s w).2 := by
  rcases @loginEndpoint_cases V s w hdrawn with ⟨⟨db', hlog, hout⟩, -⟩ |
    ⟨u, db', l, hu, -, hstatus, hlog, -, -, -, hout⟩
  · rw [hout]
    exact h.mono hlog.database fun i hi => ⟨i, hi, rfl⟩
  · rw [hout]
    refine h.set hu hstatus hlog.database fun i hi => ?_
    rcases ExpiringCache.mem_set.mp hi with rfl | ⟨hi, -⟩
    · exact .inl rfl
    · exact .inr hi

theorem NoneDisabled.delAccessToken (h : NoneDisabled s) (hlinked : Linked s) (userId : String) :
    NoneDisabled (AccessTokenService.delAccessToken s userId) := by
  obtain ⟨hdb, -, htokens⟩ := delAccessToken_spec hlinked userId
  exact h.mono (by rw [hdb]; rfl) fun i hi => ⟨i, ((htokens i).mp hi).1, rfl⟩

/-- The user of an access token is the one whose token asks for it. -/
theorem NoneDisabled.genAccessToken (h : NoneDisabled s) (hlinked : Linked s)
    {token userId id uuid : String} (ha : s.account token = some userId)
    (hdrawn : s.Drawn (.genAccessToken token id uuid)) (huser : ∃ u ∈ s.db.users, u.id = userId) :
    NoneDisabled (AccessTokenService.genAccessToken s userId id uuid).2 := by
  obtain ⟨u, hu, hid, accessTokens, -, hgen⟩ := genAccessToken_spec hlinked hdrawn huser
  obtain ⟨-, -, htokens⟩ := delAccessToken_spec hlinked userId
  rw [hgen]
  refine h.set hu (h.account ha hu hid) rfl fun i hi => ?_
  rcases ExpiringCache.mem_set.mp hi with rfl | ⟨hi, -⟩
  · exact .inl rfl
  · exact .inr ((htokens i).mp hi).1

/-- A start brings back no token of a disabled user when the rows name none. -/
theorem noneDisabled_reloadData (hlinked : Linked s) (hok : s.Locks V .restart)
    (hstart : NextDBM.reloadData s = .ok s') : NoneDisabled s' := by
  obtain ⟨s'', hstart', -, hrestarted⟩ := reloadData_spec hlinked
  obtain rfl : s'' = s' := Except.ok.inj (hstart'.symm.trans hstart)
  intro i hi v hv hid hdisabled
  rw [hrestarted.database] at hv
  obtain ⟨hlogs, hrows⟩ := hok v hv hdisabled
  rcases hrestarted.item i hi with ⟨l, hl, u, hu, rfl⟩ | ⟨r, hr, u, hu, huid, rfl⟩
  · have heq : v = u := Table.eq_of_key hv hu.1 hid
    exact hlogs l hl.1 hl.2 (heq ▸ hu.2.1.symm)
  · exact hrows r hr (huid.symm.trans hid.symm)

/-- What an action of the guard preserves. -/
theorem NoneDisabled.step (h : NoneDisabled s) (hlinked : Linked s) {a : AccountAction}
    (hlocks : s.Locks V a) (hstep : s.step V a = some s') : NoneDisabled s' := by
  obtain ⟨hdrawn, hact⟩ := step_eq_some.mp hstep
  cases a with
  | createUser uuid user encoded storageCreated => exact Option.some.inj hact ▸ h.createUser
  | updateUser uuid id user => exact hlocks.elim
  | updateStatus id status => exact Option.some.inj hact ▸ h.updateStatusById hlinked hlocks
  | webLogin w => exact Option.some.inj hact ▸ h.webLogin hdrawn
  | sshLogin w =>
    obtain rfl := Option.some.inj hact
    refine h.mono (logged_sshLogin hdrawn).database fun i hi => ?_
    rw [sshLogin_tokens] at hi
    exact ⟨i, hi, rfl⟩
  | request token => exact Option.some.inj hact ▸ h
  | logout token =>
    obtain rfl := Option.some.inj hact
    split
    · exact h.shrink (Shrinks.logout s token)
    · exact h
  | genAccessToken token id uuid =>
    rcases act_genAccessToken hact with rfl | ⟨userId, ha, rfl⟩
    · exact h
    · exact h.genAccessToken hlinked ha hdrawn (hlinked.account ha)
  | delAccessToken token =>
    rcases act_delAccessToken hact with rfl | ⟨userId, ha, rfl⟩
    · exact h
    · exact h.delAccessToken hlinked userId
  | deleteLoginLogs tokens =>
    exact Option.some.inj hact ▸ h.shrink (shrinks_deleteLoginLogs s tokens)
  | expire token =>
    obtain rfl := Option.some.inj hact
    refine h.mono rfl fun i hi => ?_
    rcases ExpiringCache.mem_expire hi with hi | ⟨j, hj, rfl⟩
    · exact ⟨i, hi, rfl⟩
    · exact ⟨j, hj, rfl⟩
  | purge => exact Option.some.inj hact ▸ h.shrink (shrinks_purge s)
  | restart =>
    obtain ⟨s'', hstart, -, -⟩ := reloadData_spec hlinked
    rw [AccountServer.act, hstart] at hact
    exact noneDisabled_reloadData hlinked hlocks (Option.some.inj hact ▸ hstart)

/-! ## Locked out -/

namespace AccountServer

/-- A session is none of a disabled user, a web login refuses one, and no token authenticates one. -/
theorem lockedOut_of_noneDisabled (h : NoneDisabled s) {a : AccountAction} (hdrawn : s.Drawn a)
    (hlocks : s.Locks V a) : s.LockedOut V a := by
  intro u hu hdisabled hactor
  have htoken : ∀ token, s.account token = some u.id → False :=
    fun token ha => h.account ha hu rfl hdisabled
  cases a with
  | webLogin w =>
    rcases @loginEndpoint_cases V s w hdrawn with ⟨-, hdeclined⟩ |
      ⟨v, db', l, hv, -, hstatus, -, -, -, -, hout⟩
    · rw [actor] at hactor
      split at hactor
      · next hanswer => exact hdeclined _ _ hanswer
      · cases hactor
    · rw [actor, hout] at hactor
      have heq : v = u := Table.eq_of_key hv hu (Option.some.inj hactor)
      exact hstatus (heq ▸ hdisabled)
  | sshLogin w =>
    obtain ⟨v, hv, hid⟩ := Option.map_eq_some_iff.mp hactor
    have hstarts := sshLogin_fst.mp hv
    have heq : v = u := Table.eq_of_key hstarts.2.1.1 hu hid
    exact hlocks v hstarts (heq ▸ hdisabled)
  | request token => exact htoken token hactor
  | logout token => exact htoken token hactor
  | genAccessToken token id uuid => exact htoken token hactor
  | delAccessToken token => exact htoken token hactor
  | _ => cases hactor

/-- In a run that locks disabled users out, no action acts as a disabled user. -/
theorem lockedOut_of_reaches {db : AccountDatabase}
    (hnames : ∀ u ∈ db.users, ∀ v ∈ db.users, u.username = v.username → u = v)
    (hs : Reaches V (Locks V) (init db) s) {a : AccountAction} (hdrawn : s.Drawn a)
    (hlocks : s.Locks V a) : s.LockedOut V a := by
  have hinv : Linked s ∧ NoneDisabled s := by
    refine Transition.Reaches.invariant (I := fun s => Linked s ∧ NoneDisabled s)
      (fun s a s' h hlocks hstep => ?_) hs ⟨Linked.init hnames, nofun⟩
    refine ⟨h.1.step hstep ?_, h.2.step h.1 hlocks hstep⟩
    rintro uuid id user rfl
    exact hlocks.elim
  exact lockedOut_of_noneDisabled hinv.2 hdrawn hlocks

/-- The user is disabled. -/
def oneUserDisabled : AccountServer :=
  ((init oneUser).updateStatusById "u1" nd.statusDisabled).2

theorem reaches_oneUserDisabled {ok : AccountServer → AccountAction → Prop}
    (hok : ok (init oneUser) (.updateStatus "u1" nd.statusDisabled)) :
    Reaches plainVerifiers ok (init oneUser) oneUserDisabled :=
  .head hok rfl (.refl _)

/-- The web login of a disabled user. -/
theorem lockedOut_of_reaches_webLogin :
    oneUserDisabled.LockedOut plainVerifiers (.webLogin (oneWebLogin ⟨1, 12, 0⟩)) :=
  lockedOut_of_reaches (by decide) (reaches_oneUserDisabled nofun) (by decide) trivial

/-- The SSH login of a disabled user starts a session. -/
theorem not_lockedOut_sshLogin :
    Reaches plainVerifiers Transition.Any (init oneUser) oneUserDisabled ∧
      oneUserDisabled.Drawn (.sshLogin oneSshLogin) ∧
      ¬ oneUserDisabled.LockedOut plainVerifiers (.sshLogin oneSshLogin) := by
  refine ⟨reaches_oneUserDisabled trivial, by decide, fun h => ?_⟩
  have hmem : { id := "u1", username := "li", password := "p1", status := nd.statusDisabled } ∈
      oneUserDisabled.db.users.rows := by decide
  exact h _ hmem rfl (by decide)

end AccountServer

end NextDBM
