import NextDBM.Accounts.LoginPolicy
import NextDBM.Accounts.Proofs.SshdProofs
import NextDBM.Library.LastMatch

/-!
# Proofs: the policies at the three entrances

Both loops of the check keep the last match, so a check passes exactly when no match decides or the
last one belongs to an allow policy. The SSH server reads no policy and denies nothing; the other two
entrances agree with it exactly when they deny nothing either.
-/

namespace NextDBM

open Relational

variable {contains : String → String → Bool} {validate : Nat → String → String → Bool}
  {db : AccountDatabase} {policies : List LoginPolicy} {now : Moment} {clientIp userId : String}
  {login : PolicyLogin}

/-! ## The loops -/

/-- The loop over policies and groups is one loop over the groups of all enabled policies. -/
theorem checkClientIp_foldl (pass : Bool) :
    policies.foldl (fun pass policy =>
        if !policy.enabled then pass
        else (Text.split policy.ipGroup ',').foldl (fun pass group =>
          if groupMatches contains clientIp group then policy.rule == "allow" else pass) pass) pass =
      (ipGroups policies).foldl (fun pass item =>
        if groupMatches contains clientIp item.2 then item.1.rule == "allow" else pass) pass := by
  rw [ipGroups, List.foldl_flatMap]
  refine congrArg (fun f => policies.foldl f pass) (funext fun acc => funext fun policy => ?_)
  by_cases henabled : policy.enabled = true
  · simp [henabled, List.foldl_map]
  · simp [henabled]

/-- Reading the last match as a decision, with allow for none. -/
theorem lastMatch_eq_true {items : List (LoginPolicy × String)} {p : LoginPolicy × String → Bool} :
    ((items.find? p).map fun item => item.1.rule == "allow").getD true = true ↔
      ∀ item, items.find? p = some item → item.1.rule = "allow" := by
  cases items.find? p with
  | none => simp
  | some item => simp

theorem checkClientIp_eq_ok :
    checkClientIp contains policies clientIp = .ok () ↔
      AllowsAddress contains policies clientIp := by
  rw [checkClientIp, checkClientIp_foldl, LastMatch.foldl_last_match, AllowsAddress,
    ← lastMatch_eq_true]
  split
  · next h => exact ⟨fun _ => h, fun _ => rfl⟩
  · next h => exact ⟨fun hok => (nomatch hok), fun hpass => absurd hpass h⟩

/-- A range is read without a panic when it has a second part. -/
theorem rangeMatches_ok {hwc t : String} : (∃ b, rangeMatches hwc t = .ok b) ↔ '~' ∈ t.toList := by
  unfold rangeMatches
  constructor
  · rintro ⟨b, h⟩
    by_contra hnot
    rw [Text.split_of_not_mem hnot] at h
    cases h
  · intro hmem
    match hsplit : Text.split t '~' with
    | [] => exact absurd hsplit (Text.split_ne_nil t '~')
    | [p] => exact absurd hmem (Text.not_mem_of_split_eq_singleton hsplit)
    | start :: stop :: rest => exact ⟨_, rfl⟩

/-- The test of the one loop over the ranges of a day. -/
def rangeHit (now : Moment) (item : LoginPolicy × String) : Except Refusal Bool :=
  rangeMatches now.hwc item.2

/-- The decision of an item of the loops. -/
def allows (item : LoginPolicy × String) : Bool := item.1.rule == "allow"

/-- The loops over policies, periods and ranges are one loop over the ranges of the day. -/
theorem checkWeekDay_loop :
    checkWeekDay db policies now =
      (timeRanges db policies now).foldlM (LastMatch.overwrite (rangeHit now) allows) true >>=
        fun timePass => if timePass then .ok () else .error timeDenied := by
  unfold checkWeekDay
  refine congrArg (fun x : Except Refusal Bool =>
    x >>= fun timePass => if timePass then .ok () else .error timeDenied) ?_
  rw [timeRanges, LastMatch.foldlM_flatMap]
  refine congrArg (fun f => policies.foldlM f true) (funext fun acc => funext fun policy => ?_)
  by_cases henabled : policy.enabled = true
  · simp only [henabled, Bool.not_true, Bool.false_eq_true, if_false]
    rw [LastMatch.foldlM_flatMap]
    refine congrArg (fun f => List.foldlM f acc _) (funext fun acc => funext fun period => ?_)
    split
    · rfl
    · split
      · rfl
      · rw [List.foldlM_map]
        refine congrArg (fun f => List.foldlM f acc _) (funext fun acc => funext fun t => ?_)
        show (rangeMatches now.hwc t >>= fun hit =>
          pure (if hit then policy.rule == "allow" else acc)) = (rangeMatches now.hwc t).map _
        cases rangeMatches now.hwc t <;> rfl
  · simp only [henabled, Bool.not_false, if_true]
    rfl

theorem holds_rangeHit : LastMatch.holds (rangeHit now) =
    fun item => rangeMatches now.hwc item.2 == .ok true := by
  funext item
  show (rangeMatches now.hwc item.2).toOption.getD false = _
  cases rangeMatches now.hwc item.2 with
  | error e => rfl
  | ok b => cases b <;> rfl

/-- The loop ends with a value when every range has two parts, and then with that of the last
match. -/
theorem foldlM_rangeHit {b : Bool} :
    (timeRanges db policies now).foldlM (LastMatch.overwrite (rangeHit now) allows) true = .ok b ↔
      (∀ item ∈ timeRanges db policies now, '~' ∈ item.2.toList) ∧
        (((timeRanges db policies now).reverse.find? fun item =>
          rangeMatches now.hwc item.2 == .ok true).map allows).getD true = b := by
  rw [LastMatch.foldlM_overwrite_eq_ok, holds_rangeHit]
  exact and_congr_left' (forall₂_congr fun item _ => rangeMatches_ok)

theorem checkWeekDay_eq_ok :
    checkWeekDay db policies now = .ok () ↔ AllowsTime db policies now := by
  have hloop := @foldlM_rangeHit db policies now true
  rw [checkWeekDay_loop, AllowsTime, ← lastMatch_eq_true]
  refine Iff.trans ?_ hloop
  rcases (timeRanges db policies now).foldlM (LastMatch.overwrite (rangeHit now) allows) true with
    e | timePass
  · constructor
    · intro h
      cases h
    · intro h
      cases h
  · cases timePass with
    | true => exact ⟨fun _ => rfl, fun _ => rfl⟩
    | false =>
      constructor
      · intro h
        cases h
      · intro h
        exact absurd (Except.ok.inj h) Bool.false_ne_true

/-- When every range has two parts, the check denies exactly when it does not pass. -/
theorem checkWeekDay_denied (h : ∀ item ∈ timeRanges db policies now, '~' ∈ item.2.toList) :
    checkWeekDay db policies now = .error timeDenied ↔ ¬ AllowsTime db policies now := by
  rw [← checkWeekDay_eq_ok, checkWeekDay_loop, foldlM_rangeHit.mpr ⟨h, rfl⟩]
  generalize (((timeRanges db policies now).reverse.find? fun item =>
    rangeMatches now.hwc item.2 == .ok true).map allows).getD true = timePass
  cases timePass with
  | true => exact ⟨fun hdenied => (nomatch hdenied), fun hnot => absurd rfl hnot⟩
  | false => exact ⟨fun _ hok => (nomatch hok), fun _ => rfl⟩

/-! ## The check -/

theorem check_eq_ok :
    LoginPolicyService.check contains db userId clientIp now = .ok () ↔
      AllowsAddress contains (LoginPolicyRepository.findByUserId db userId) clientIp ∧
        AllowsTime db (LoginPolicyRepository.findByUserId db userId) now := by
  rw [← checkClientIp_eq_ok, ← checkWeekDay_eq_ok]
  unfold LoginPolicyService.check
  cases hpolicies : LoginPolicyRepository.findByUserId db userId with
  | nil => exact ⟨fun _ => ⟨rfl, rfl⟩, fun _ => rfl⟩
  | cons policy policies =>
    show (checkClientIp contains (policy :: policies) clientIp >>= fun _ => _) = _ ↔ _
    rcases checkClientIp contains (policy :: policies) clientIp with e | u
    · constructor
      · intro h
        cases h
      · intro h
        exact nomatch h.1
    · exact ⟨fun h => ⟨rfl, h⟩, fun h => h.2⟩

theorem check_isOk :
    (LoginPolicyService.check contains db userId clientIp now).isOk = true ↔
      LoginPolicyService.check contains db userId clientIp now = .ok () := by
  rcases LoginPolicyService.check contains db userId clientIp now with e | u
  · exact ⟨fun h => (nomatch h), fun h => (nomatch h)⟩
  · exact ⟨fun _ => rfl, fun _ => rfl⟩

/-- Without policies the check passes. -/
theorem check_withoutPolicies :
    LoginPolicyService.check contains db.withoutPolicies userId clientIp now = .ok () := rfl

/-! ## The entrances -/

theorem web_denies :
    Entrance.web.denies contains validate db login = true ↔
      ¬ (AllowsAddress contains (LoginPolicyRepository.findByUserId db login.user.id)
          login.addr.ip ∧
        AllowsTime db (LoginPolicyRepository.findByUserId db login.user.id) login.now) := by
  rw [← check_eq_ok, ← check_isOk, Entrance.denies, Entrance.admits, check_withoutPolicies,
    Entrance.admits]
  simp [Except.isOk, Except.toBool]

theorem proxy_denies :
    Entrance.proxy.denies contains validate db login = true ↔
      ¬ (AllowsAddress contains (LoginPolicyRepository.findByUserId db login.user.id)
          login.addr.text ∧
        AllowsTime db (LoginPolicyRepository.findByUserId db login.user.id) login.now) := by
  rw [← check_eq_ok, ← check_isOk, Entrance.denies, Entrance.admits, MariaDBProxy.loginPolicyCheck,
    check_withoutPolicies, Entrance.admits, MariaDBProxy.loginPolicyCheck]
  simp [Except.isOk, Except.toBool]

/-- The session handler starts the same session whatever the policies are. -/
theorem ssh_denies : Entrance.ssh.denies contains validate db login = false := by
  have hsame : ∀ sess attempts uuid, Sshd.startedUser validate db.withoutPolicies sess attempts uuid =
      Sshd.startedUser validate db sess attempts uuid := by
    intro sess attempts uuid
    ext v
    rw [Sshd.startedUser_eq_some, Sshd.startedUser_eq_some]
    rfl
  rw [Entrance.denies, Entrance.admits, Entrance.admits, hsame, Bool.and_not_self]

/-- The policies decide alike at the three entrances exactly when they deny the login at none. -/
theorem policyParity_iff :
    PolicyParity contains validate db login ↔ NoneDenies contains db login := by
  constructor
  · intro h
    have hweb := h .web .ssh
    have hproxy := h .proxy .ssh
    rw [ssh_denies] at hweb hproxy
    have hnotWeb := (not_congr web_denies).mp (Bool.eq_false_iff.mp hweb)
    have hnotProxy := (not_congr proxy_denies).mp (Bool.eq_false_iff.mp hproxy)
    rw [not_not] at hnotWeb hnotProxy
    exact ⟨hnotWeb.1, hnotProxy.1, hnotWeb.2⟩
  · rintro ⟨hip, htext, htime⟩
    have hnone : ∀ entrance : Entrance,
        entrance.denies contains validate db login = false := by
      intro entrance
      cases entrance with
      | web => exact Bool.eq_false_iff.mpr fun h => web_denies.mp h ⟨hip, htime⟩
      | proxy => exact Bool.eq_false_iff.mpr fun h => proxy_denies.mp h ⟨htext, htime⟩
      | ssh => exact ssh_denies
    intro entrance entrance'
    rw [hnone, hnone]

/-- A user bound to a policy that rejects one address. -/
def rejectedUser : AccountDatabase :=
  { users := ⟨[{ id := "u1", username := "li" }], by decide⟩
    loginPolicies :=
      ⟨[{ id := "p1", ipGroup := "10.1.2.3", enabled := true, rule := "reject" }], by decide⟩
    loginPolicyUserRefs := ⟨[{ id := "r1", userId := "u1", loginPolicyId := "p1" }], by decide⟩ }

/-- The web login denies the rejected address, the SSH server does not. -/
theorem not_policyParity_rejectedUser :
    ¬ PolicyParity cidrContains (fun _ _ _ => false) rejectedUser
      { user := { id := "u1", username := "li" }, addr := ⟨"10.1.2.3", 52814⟩, now := ⟨1, 9, 30⟩ } := by
  intro h
  exact absurd (h .web .ssh) (by decide)

end NextDBM
