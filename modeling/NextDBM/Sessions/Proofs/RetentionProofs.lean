import NextDBM.Sessions.Retention

/-!
# Proofs: the retention of sessions and logs

The limit of the queries is the time of so many days ago as long as the days fit into a duration. The
first number of days that does not fit gives a limit in the future.
-/

namespace NextDBM

namespace Retention

open Int64Arith

variable {properties : String → Option String} {logs : Logs} {name : String} {now limit : Int}
  {n : Nat} {column : Option Int}

/-! ## The limit -/

/-- The products of the limit are wrapped once. -/
theorem limitTime_eq (now : Int) (n : Nat) :
    limitTime now n = now + wrap (-(n * (24 * hour))) := by
  rw [limitTime, wrap_wrap_mul, Int.mul_assoc, wrap_wrap_mul, Int.neg_mul]

/-- The limit is at least `n` days ago exactly when `n` days fit into a duration. -/
theorem limitTime_le_iff (now : Int) (n : Nat) :
    limitTime now n ≤ now - n * (24 * hour) ↔ n ≤ 106751 := by
  have hneg : -((n : Int) * (24 * hour)) ≤ 0 := by
    unfold hour
    omega
  have hwrap := wrap_le_iff hneg
  rw [limitTime_eq]
  constructor
  · intro h
    have hfits := hwrap.mp (by omega)
    unfold hour at hfits
    omega
  · intro h
    have hfits := hwrap.mpr (by unfold hour; omega)
    omega

theorem before_iff : before column limit = true ↔ ∃ t, column = some t ∧ t < limit := by
  cases column with
  | none => simp [before]
  | some t => simp [before]

/-- A time before the limit of `n` days is more than `n` days ago. -/
theorem olderThan_of_before (hn : n ≤ 106751) (h : before column (limitTime now n) = true) :
    OlderThan n now column := by
  obtain ⟨t, rfl, ht⟩ := before_iff.mp h
  have hle := (limitTime_le_iff now n).mpr hn
  exact ⟨t, rfl, by omega⟩

/-- The last time before the limit of more days is not that old. -/
theorem le_of_olderThan (h : OlderThan n now (some (limitTime now n - 1))) : n ≤ 106751 := by
  obtain ⟨t, ht, hold⟩ := h
  obtain rfl := Option.some.inj ht
  refine (limitTime_le_iff now n).mp ?_
  omega

theorem before_last (limit : Int) : before (some (limit - 1)) limit = true :=
  before_iff.mpr ⟨_, rfl, by omega⟩

/-! ## The queries -/

theorem mem_findOutTimeSessions {sessions : List Session} {dayLimit : Int} {r : Session} :
    r ∈ findOutTimeSessions sessions now dayLimit ↔
      r ∈ sessions ∧ r.status = nd.disconnected ∧
        before r.connectedTime (limitTime now dayLimit) = true := by
  simp [findOutTimeSessions]

theorem mem_findOutTimeLoginLogs {loginLogs : List LoginLog} {dayLimit : Int} {r : LoginLog} :
    r ∈ findOutTimeLoginLogs loginLogs now dayLimit ↔
      r ∈ loginLogs ∧ (r.state = some "0" ∨ r.state = some "1" ∨ r.state = none) ∧
        before r.time (limitTime now dayLimit) = true := by
  unfold findOutTimeLoginLogs LoginLog.time
  rw [List.mem_filter]
  refine and_congr_right fun _ => ?_
  by_cases hfailed : r.state = some "0"
  · simp [hfailed]
  · by_cases hok : r.state = some "1"
    · simp [hok]
    · simp [hfailed, hok]

theorem mem_findOutTimeSqlLogs {sqlLogs : List SqlLog} {dayLimit : Int} {r : SqlLog} :
    r ∈ findOutTimeSqlLogs sqlLogs now dayLimit ↔
      r ∈ sqlLogs ∧ (r.state = some "0" ∨ r.state = some "1" ∨ r.state = none) ∧
        before r.created (limitTime now dayLimit) = true := by
  unfold findOutTimeSqlLogs
  rw [List.mem_filter]
  refine and_congr_right fun _ => ?_
  cases before r.created (limitTime now dayLimit) with
  | false => simp
  | true => simp [or_assoc]

theorem outOfTime_of_savedLimit {ρ : Type} {find : Int → List ρ}
    (h : savedLimit properties name = some limit) :
    outOfTime properties name find = find limit := by
  rw [outOfTime, h]

/-! ## Recent records -/

/-- **The clean-up deletes only records of which the days are over** exactly when each of the three
limits fits into a duration. -/
theorem keepsRecent_iff :
    KeepsRecent properties ↔
      ∀ name ∈ ["session-saved-limit", "login-log-saved-limit", "sql-log-saved-limit"],
        ∀ n : Nat, savedLimit properties name = some (n : Int) → n ≤ 106751 := by
  constructor
  · intro h name hname n hlimit
    -- a record of each kind, at the last moment before the limit of a clean-up at time 0
    have hkeeps := h
      { sessions := [⟨"", nd.disconnected, some (limitTime 0 n - 1)⟩]
        loginLogs := [⟨"", some "0", some (limitTime 0 n - 1), none⟩]
        sqlLogs := [⟨"", some "0", some (limitTime 0 n - 1)⟩] } 0 n
    simp only [List.mem_cons, List.not_mem_nil, or_false] at hname
    rcases hname with rfl | rfl | rfl
    · refine le_of_olderThan (hkeeps.1 hlimit ⟨"", nd.disconnected, some (limitTime 0 n - 1)⟩ ?_)
      rw [deleteOutTimeSession, outOfTime_of_savedLimit hlimit, mem_findOutTimeSessions]
      exact ⟨List.mem_cons_self, rfl, before_last _⟩
    · refine le_of_olderThan (hkeeps.2.1 hlimit ⟨"", some "0", some (limitTime 0 n - 1), none⟩ ?_)
      rw [deleteOutTimeLoginLog, outOfTime_of_savedLimit hlimit, mem_findOutTimeLoginLogs]
      exact ⟨List.mem_cons_self, .inl rfl, before_last _⟩
    · refine le_of_olderThan (hkeeps.2.2 hlimit ⟨"", some "0", some (limitTime 0 n - 1)⟩ ?_)
      rw [deleteOutTimeSqlLog, outOfTime_of_savedLimit hlimit, mem_findOutTimeSqlLogs]
      exact ⟨List.mem_cons_self, .inl rfl, before_last _⟩
  · intro h logs now n
    refine ⟨fun hlimit r hr => ?_, fun hlimit r hr => ?_, fun hlimit r hr => ?_⟩
    · rw [deleteOutTimeSession, outOfTime_of_savedLimit hlimit, mem_findOutTimeSessions] at hr
      exact olderThan_of_before (h _ (by simp) n hlimit) hr.2.2
    · rw [deleteOutTimeLoginLog, outOfTime_of_savedLimit hlimit, mem_findOutTimeLoginLogs] at hr
      exact olderThan_of_before (h _ (by simp) n hlimit) hr.2.2
    · rw [deleteOutTimeSqlLog, outOfTime_of_savedLimit hlimit, mem_findOutTimeSqlLogs] at hr
      exact olderThan_of_before (h _ (by simp) n hlimit) hr.2.2

/-- With a limit of 106752 days the clean-up deletes a session that has just been connected. -/
theorem not_keepsRecent_overflow : ¬ ∀ properties, KeepsRecent properties := by
  intro h
  have hkeeps := h (fun _ => some "106752")
    { sessions := [{ id := "s1", status := nd.disconnected, connectedTime := some 0 }] } 0 106752
  obtain ⟨t, ht, hold⟩ := hkeeps.1 (by decide) ⟨"s1", nd.disconnected, some 0⟩ (by decide)
  obtain rfl := Option.some.inj ht
  exact absurd hold (by decide)

end Retention

end NextDBM
