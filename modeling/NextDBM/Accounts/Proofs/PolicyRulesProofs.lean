import NextDBM.Accounts.PolicyRules
import NextDBM.Accounts.Proofs.LoginPolicyProofs

/-!
# Proofs: the rules of the login policies

The last match of a loop over the policies is the match of the smallest priority number, since the
policies come in the order of decreasing numbers. A range without a second part makes the check panic,
unless the addresses have denied the login before.
-/

namespace NextDBM

open Relational

variable {contains : String → String → Bool} {db : AccountDatabase} {policies : List LoginPolicy}
  {covers : LoginPolicy → Bool} {now : Moment} {clientIp userId : String} {login : PolicyLogin}

/-! ## The policy that decides -/

/-- The policies of a user are sorted, so distinct priorities are strictly decreasing. -/
theorem findByUserId_sorted
    (h : (LoginPolicyRepository.findByUserId db userId).Pairwise
      fun policy policy' => policy.priority ≠ policy'.priority) :
    (LoginPolicyRepository.findByUserId db userId).Pairwise
      fun policy policy' => policy'.priority < policy.priority := by
  have hsorted : (LoginPolicyRepository.findByUserId db userId).Pairwise
      fun policy policy' => policy'.priority ≤ policy.priority := List.pairwise_insertionSort _ _
  exact hsorted.imp₂ (fun _ _ hle hne => lt_of_le_of_ne hle hne.symm) h

/-- A loop over items of the policies whose last match belongs to the last enabled policy that covers
rejects nothing exactly when the policy that decides is an allow policy. -/
theorem allows_iff_not_rejects
    (hsorted : policies.Pairwise fun policy policy' => policy'.priority < policy.priority)
    {last : Option (LoginPolicy × String)}
    (hlast : last.map Prod.fst =
      policies.reverse.find? fun policy => policy.enabled && covers policy) :
    (∀ item, last = some item → item.1.rule = "allow") ↔ ¬ Rejects policies covers := by
  have hdecides : ∀ policy, last.map Prod.fst = some policy ↔ Decides policies covers policy := by
    intro policy
    rw [hlast, LastMatch.find?_reverse_eq_some_iff hsorted]
    constructor
    · rintro ⟨hmem, hcovers, hleast⟩
      obtain ⟨henabled, hcovered⟩ := Bool.and_eq_true_iff.mp hcovers
      exact ⟨hmem, henabled, hcovered, fun other hother henabled hcovered =>
        hleast other hother (Bool.and_eq_true_iff.mpr ⟨henabled, hcovered⟩)⟩
    · rintro ⟨hmem, henabled, hcovered, hleast⟩
      refine ⟨hmem, Bool.and_eq_true_iff.mpr ⟨henabled, hcovered⟩, fun other hother hcovers => ?_⟩
      obtain ⟨henabled', hcovered'⟩ := Bool.and_eq_true_iff.mp hcovers
      exact hleast other hother henabled' hcovered'
  constructor
  · rintro h ⟨policy, hpolicy, hrule⟩
    obtain ⟨item, hitem, rfl⟩ := Option.map_eq_some_iff.mp ((hdecides policy).mpr hpolicy)
    exact hrule (h item hitem)
  · intro h item hitem
    by_contra hrule
    have hmap : last.map Prod.fst = some item.1 := by rw [hitem]; rfl
    exact h ⟨item.1, (hdecides item.1).mp hmap, hrule⟩

/-- The last group that matches belongs to the last enabled policy that covers the address. -/
theorem lastGroup_fst :
    ((ipGroups policies).reverse.find? fun item => groupMatches contains clientIp item.2).map
        Prod.fst =
      policies.reverse.find? fun policy =>
        policy.enabled && coversAddress contains clientIp policy := by
  unfold ipGroups
  rw [LastMatch.find?_reverse_flatMap]
  · congr 1
    funext policy
    cases henabled : policy.enabled with
    | false => rfl
    | true => simp [coversAddress, List.any_map, Function.comp_def]
  · intro policy item hitem
    split at hitem
    · cases hitem
    · obtain ⟨group, -, rfl⟩ := List.mem_map.mp hitem
      rfl

/-- The last range that matches belongs to the last enabled policy that covers the time. -/
theorem lastRange_fst :
    ((timeRanges db policies now).reverse.find? fun item =>
        rangeMatches now.hwc item.2 == .ok true).map Prod.fst =
      policies.reverse.find? fun policy => policy.enabled && coversTime db now policy := by
  unfold timeRanges
  rw [LastMatch.find?_reverse_flatMap]
  · congr 1
    funext policy
    cases henabled : policy.enabled with
    | false => rfl
    | true =>
      rw [Bool.true_and, coversTime]
      simp only [Bool.not_true, Bool.false_eq_true, if_false, List.any_flatMap]
      congr 1
      funext period
      by_cases hday : (now.weekday.val : Int) = period.key
      · by_cases hvalue : period.value = ""
        · simp [hday, hvalue]
        · simp [hday, hvalue, List.any_map, Function.comp_def]
      · simp [hday]
  · intro policy item hitem
    split at hitem
    · cases hitem
    · obtain ⟨period, -, hitem⟩ := List.mem_flatMap.mp hitem
      split at hitem
      · cases hitem
      · split at hitem
        · cases hitem
        · obtain ⟨t, -, rfl⟩ := List.mem_map.mp hitem
          rfl

/-! ## The ranges of a day -/

theorem mem_timeRanges_iff {item : LoginPolicy × String} :
    item ∈ timeRanges db policies now ↔
      item.1 ∈ policies ∧ item.1.enabled = true ∧
        ∃ period ∈ TimePeriodRepository.findByLoginPolicyId db item.1.id,
          (now.weekday.val : Int) = period.key ∧ period.value ≠ "" ∧
            item.2 ∈ Text.split period.value '、' := by
  unfold timeRanges
  constructor
  · intro hitem
    obtain ⟨policy, hpolicy, hitem⟩ := List.mem_flatMap.mp hitem
    split at hitem
    · cases hitem
    · next henabled =>
      obtain ⟨period, hperiod, hitem⟩ := List.mem_flatMap.mp hitem
      split at hitem
      · cases hitem
      · next hday =>
        split at hitem
        · cases hitem
        · next hvalue =>
          obtain ⟨t, ht, rfl⟩ := List.mem_map.mp hitem
          have htrue : policy.enabled = true := by simpa using henabled
          exact ⟨hpolicy, htrue, period, hperiod, not_not.mp hday, hvalue, ht⟩
  · rintro ⟨hpolicy, henabled, period, hperiod, hday, hvalue, ht⟩
    refine List.mem_flatMap.mpr ⟨item.1, hpolicy, ?_⟩
    rw [henabled, if_neg (by decide)]
    refine List.mem_flatMap.mpr ⟨period, hperiod, ?_⟩
    rw [if_neg (not_not.mpr hday), if_neg hvalue]
    exact List.mem_map.mpr ⟨item.2, ht, rfl⟩

theorem rangesSplit_iff :
    RangesSplit db policies now ↔ ∀ item ∈ timeRanges db policies now, '~' ∈ item.2.toList := by
  constructor
  · intro h item hitem
    obtain ⟨hmem, henabled, period, hperiod, hday, hvalue, ht⟩ := mem_timeRanges_iff.mp hitem
    exact h item.1 hmem henabled period hperiod hday hvalue item.2 ht
  · intro h policy hpolicy henabled period hperiod hday hvalue t ht
    exact h (policy, t) (mem_timeRanges_iff.mpr
      ⟨hpolicy, henabled, period, hperiod, hday, hvalue, ht⟩)

/-! ## Well-formed periods -/

theorem twoDigits_plain : ∀ n : Fin 100, '、' ∉ (twoDigits n.val).toList := by decide

theorem comma_not_mem_periodText (r : (Fin 100 × Fin 100) × (Fin 100 × Fin 100)) :
    '、' ∉ (periodText r).toList := by
  simp only [periodText, clockText, String.toList_append, List.mem_append, not_or]
  exact ⟨⟨⟨⟨twoDigits_plain _, by decide⟩, twoDigits_plain _⟩, by decide⟩,
    ⟨twoDigits_plain _, by decide⟩, twoDigits_plain _⟩

theorem tilde_mem_periodText (r : (Fin 100 × Fin 100) × (Fin 100 × Fin 100)) :
    '~' ∈ (periodText r).toList := by
  simp only [periodText, String.toList_append, List.mem_append]
  exact .inl (.inr (by decide))

/-- The pieces of a well-formed period that is not empty are its ranges. -/
theorem tilde_mem_of_wellFormed {value t : String} (h : WellFormedPeriod value) (hne : value ≠ "")
    (ht : t ∈ Text.split value '、') : '~' ∈ t.toList := by
  obtain ⟨ranges, rfl⟩ := h
  cases ranges with
  | nil => exact absurd rfl hne
  | cons r ranges =>
    have hpieces : ∀ piece ∈ (r :: ranges).map periodText, '、' ∉ piece.toList := by
      intro piece hpiece
      obtain ⟨r', -, rfl⟩ := List.mem_map.mp hpiece
      exact comma_not_mem_periodText r'
    have hmark : "、".toList = ['、'] := by decide
    have hnonempty : (r :: ranges).map periodText ≠ [] := List.cons_ne_nil _ _
    rw [Text.split_join hmark hnonempty hpieces] at ht
    obtain ⟨r', -, rfl⟩ := List.mem_map.mp ht
    exact tilde_mem_periodText r'

/-! ## The decision of the check -/

theorem rangeMatches_error {hwc t : String} {e : Refusal} (h : rangeMatches hwc t = .error e) :
    e = .indexOutOfRange := by
  unfold rangeMatches at h
  split at h
  · cases h
  · exact (Except.error.inj h).symm

/-- `checkWeekDay` returns exactly when every range of the day has two parts. -/
theorem checkWeekDay_decided :
    Decided (checkWeekDay db policies now) ↔ RangesSplit db policies now := by
  rw [rangesSplit_iff]
  constructor
  · intro hdecided
    by_contra hnot
    refine hdecided ?_
    rw [checkWeekDay_loop]
    cases hloop : (timeRanges db policies now).foldlM (LastMatch.overwrite (rangeHit now) allows)
      true with
    | ok timePass => exact absurd (foldlM_rangeHit.mp hloop).1 hnot
    | error e =>
      obtain ⟨item, -, hitem⟩ := LastMatch.exists_of_foldlM_overwrite_eq_error hloop
      rw [rangeMatches_error hitem]
      rfl
  · intro h hpanic
    by_cases hpass : AllowsTime db policies now
    · rw [checkWeekDay_eq_ok.mpr hpass] at hpanic
      cases hpanic
    · rw [(checkWeekDay_denied h).mpr hpass] at hpanic
      cases hpanic

theorem checkClientIp_result :
    checkClientIp contains policies clientIp = .ok () ∨
      Denied (checkClientIp contains policies clientIp) := by
  unfold checkClientIp
  generalize policies.foldl _ true = pass
  cases pass with
  | true => exact .inl rfl
  | false => exact .inr ⟨_, rfl⟩

/-- `Check` runs the two checks one after the other; without policies both of them pass. -/
theorem check_eq_bind :
    LoginPolicyService.check contains db userId clientIp now =
      checkClientIp contains (LoginPolicyRepository.findByUserId db userId) clientIp >>= fun _ =>
        checkWeekDay db (LoginPolicyRepository.findByUserId db userId) now := by
  unfold LoginPolicyService.check
  cases LoginPolicyRepository.findByUserId db userId with
  | nil => rfl
  | cons policy policies => rfl

/-- `Check` returns a decision exactly when the addresses deny the login or every range of the day has
two parts. -/
theorem check_decided :
    Decided (LoginPolicyService.check contains db userId clientIp now) ↔
      (AllowsAddress contains (LoginPolicyRepository.findByUserId db userId) clientIp →
        RangesSplit db (LoginPolicyRepository.findByUserId db userId) now) := by
  rw [← checkWeekDay_decided, ← checkClientIp_eq_ok, check_eq_bind]
  have hresult := @checkClientIp_result contains (LoginPolicyRepository.findByUserId db userId)
    clientIp
  rcases hresult with hpass | ⟨message, hdenied⟩
  · rw [hpass]
    exact ⟨fun h _ => h, fun h => h rfl⟩
  · rw [hdenied]
    exact ⟨fun _ h => (nomatch h), fun _ h => (nomatch h)⟩

/-- **Both copies of the check return a decision** on a login exactly when the addresses deny it or
every range of the day has two parts. -/
theorem checks_decided_iff :
    (Decided (LoginPolicyService.check contains db login.user.id login.addr.ip login.now) ∧
        Decided (MariaDBProxy.loginPolicyCheck contains db login.user.id login.addr.text
          login.now)) ↔
      (AllowsAddress contains (LoginPolicyRepository.findByUserId db login.user.id) login.addr.ip ∨
        AllowsAddress contains (LoginPolicyRepository.findByUserId db login.user.id)
          login.addr.text →
        RangesSplit db (LoginPolicyRepository.findByUserId db login.user.id) login.now) := by
  rw [MariaDBProxy.loginPolicyCheck, check_decided, check_decided, or_imp]

/-- A user bound to a policy with a period that names no range. -/
def rangelessUser : AccountDatabase :=
  { users := .single { id := "u1", username := "li" }
    loginPolicies := .single { id := "p1", enabled := true, rule := "allow" }
    loginPolicyUserRefs := .single { id := "r1", userId := "u1", loginPolicyId := "p1" }
    timePeriods := .single { id := "t1", loginPolicyId := "p1", key := 1, value := "09:00" } }

/-- On a Monday the check of that user panics. -/
theorem not_decided_rangelessUser :
    ¬ ∀ (db : AccountDatabase) (login : PolicyLogin),
      Decided (LoginPolicyService.check cidrContains db login.user.id login.addr.ip login.now) ∧
        Decided (MariaDBProxy.loginPolicyCheck cidrContains db login.user.id login.addr.text
          login.now) := by
  intro h
  have hweb := (h rangelessUser
    { user := { id := "u1", username := "li" }, addr := ⟨"10.1.2.3", 52814⟩, now := ⟨1, 9, 30⟩ }).1
  exact hweb (by decide)

/-- Without a panic the check denies exactly when it does not pass. -/
theorem check_denied (h : Decided (LoginPolicyService.check contains db userId clientIp now)) :
    Denied (LoginPolicyService.check contains db userId clientIp now) ↔
      ¬ LoginPolicyService.check contains db userId clientIp now = .ok () := by
  constructor
  · rintro ⟨message, hdenied⟩ hok
    exact nomatch hdenied.symm.trans hok
  · intro hnot
    rcases hcheck : LoginPolicyService.check contains db userId clientIp now with e | u
    · cases e with
      | denied message => exact ⟨message, rfl⟩
      | indexOutOfRange => exact absurd hcheck h
    · exact absurd hcheck hnot

/-- **The smallest priority number decides**: the check denies a login exactly when, for the addresses
or for the times, the first in rank of the enabled policies that match is not an allow policy. -/
theorem check_denied_iff
    (hdistinct : (LoginPolicyRepository.findByUserId db userId).Pairwise
      fun policy policy' => policy.priority ≠ policy'.priority)
    (hformed : ∀ policy ∈ LoginPolicyRepository.findByUserId db userId,
      ∀ period ∈ TimePeriodRepository.findByLoginPolicyId db policy.id,
        WellFormedPeriod period.value) :
    Denied (LoginPolicyService.check contains db userId clientIp now) ↔
      Rejects (LoginPolicyRepository.findByUserId db userId) (coversAddress contains clientIp) ∨
        Rejects (LoginPolicyRepository.findByUserId db userId) (coversTime db now) := by
  have hsorted := findByUserId_sorted hdistinct
  have hsplit : RangesSplit db (LoginPolicyRepository.findByUserId db userId) now :=
    fun policy hpolicy _ period hperiod _ hne t ht =>
      tilde_mem_of_wellFormed (hformed policy hpolicy period hperiod) hne ht
  have hdecided : Decided (LoginPolicyService.check contains db userId clientIp now) :=
    check_decided.mpr fun _ => hsplit
  have haddress := allows_iff_not_rejects hsorted (@lastGroup_fst contains _ clientIp)
  have htime := allows_iff_not_rejects hsorted (@lastRange_fst db _ now)
  have hallows : AllowsTime db (LoginPolicyRepository.findByUserId db userId) now ↔
      ¬ Rejects (LoginPolicyRepository.findByUserId db userId) (coversTime db now) := by
    rw [AllowsTime, htime]
    exact and_iff_right (rangesSplit_iff.mp hsplit)
  rw [check_denied hdecided, check_eq_ok, hallows, AllowsAddress, haddress, not_and_or, not_not,
    not_not]

/-- A user bound to a policy that allows a range of addresses in working hours, and to a policy of a
smaller number that rejects one of the addresses. -/
def rankedUser : AccountDatabase :=
  { users := .single { id := "u1", username := "li" }
    loginPolicies :=
      ⟨[{ id := "p1", ipGroup := "10.1.2.3", priority := 1, enabled := true, rule := "reject" },
        { id := "p2", ipGroup := "10.1.2.0-10.1.2.99", priority := 5, enabled := true,
          rule := "allow" }], by decide⟩
    loginPolicyUserRefs :=
      ⟨[{ id := "r1", userId := "u1", loginPolicyId := "p1" },
        { id := "r2", userId := "u1", loginPolicyId := "p2" }], by decide⟩
    timePeriods :=
      ⟨[{ id := "t1", loginPolicyId := "p2", key := 1, value := "09:00~18:00" }], by decide⟩ }

/-- The policy of the smaller number denies the address that both policies match. -/
theorem denied_rankedUser :
    Denied (LoginPolicyService.check cidrContains rankedUser "u1" "10.1.2.3" ⟨1, 9, 30⟩) := by
  refine (check_denied_iff (by decide) ?_).mpr (.inl ?_)
  · have hperiods : ∀ policy ∈ LoginPolicyRepository.findByUserId rankedUser "u1",
        ∀ period ∈ TimePeriodRepository.findByLoginPolicyId rankedUser policy.id,
          period.value = Text.join "、" ([((9, 0), (18, 0))].map periodText) := by decide
    exact fun policy hpolicy period hperiod => ⟨_, hperiods policy hpolicy period hperiod⟩
  · exact ⟨{ id := "p1", ipGroup := "10.1.2.3", priority := 1, enabled := true, rule := "reject" },
      ⟨by decide, by decide, by decide, by decide⟩, by decide⟩

end NextDBM
