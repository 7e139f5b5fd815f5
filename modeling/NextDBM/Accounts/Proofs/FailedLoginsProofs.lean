import Mathlib.Data.List.Perm.Basic
import NextDBM.Accounts.FailedLogins
import NextDBM.Accounts.Proofs.SshdProofs

/-!
# Proofs: failed logins

A counter that nobody is about to write is one more than the number of the wrong attempts under its key;
the one attempt that is about to write it is already among these. A comparison needs a count under 5, so
a key has at most four of them.
-/

namespace NextDBM

open LoginAttempt

variable {V : Verifiers}

/-! ## The two entrances -/

section

variable {s : AccountServer} {l : WebLogin}

/-- An attempt that counts and is not refused is answered as a failure. -/
theorem loginEndpoint_of_isWrong (hcount : l.failCount.getD 1 < 5)
    (h : l.isWrong V s.db.toDatabase = true) :
    ∃ message reason, AccountApi.loginEndpoint V s l = AccountApi.failed s l message reason := by
  unfold AccountApi.loginEndpoint
  rw [if_neg (Nat.not_le.mpr hcount)]
  unfold WebLogin.isWrong at h
  by_cases hlong : 100 < l.password.utf8ByteSize
  · rw [if_pos hlong] at h
    exact absurd h Bool.false_ne_true
  rw [if_neg hlong] at h ⊢
  cases hfind : UserRepository.findByUsername s.db.toDatabase l.username with
  | error e => exact ⟨_, _, rfl⟩
  | ok user =>
    simp only [hfind] at h ⊢
    by_cases hdisabled : user.status = nd.statusDisabled
    · rw [if_pos hdisabled] at h
      exact absurd h Bool.false_ne_true
    rw [if_neg hdisabled] at h ⊢
    by_cases hmatch : (!V.encoderMatch user.password l.password) = true
    · rw [if_pos hmatch]
      exact ⟨_, _, rfl⟩
    rw [if_neg hmatch] at h ⊢
    by_cases hsecret : user.totpSecret ≠ "" ∧ user.totpSecret ≠ "-"
    · rw [if_pos hsecret] at h ⊢
      by_cases htotp : l.totp = ""
      · rw [if_pos htotp] at h
        exact absurd h Bool.false_ne_true
      rw [if_neg htotp] at h ⊢
      rw [if_pos h]
      exact ⟨_, _, rfl⟩
    · rw [if_neg hsecret] at h
      exact absurd h Bool.false_ne_true

theorem loginSuccess_ne_failWithData {user : User} {c : Int} {message : String} {n : Nat} :
    (AccountApi.loginSuccess V s l user).1 ≠ .failWithData c message n := by
  unfold AccountApi.loginSuccess
  split
  · exact fun h => by cases h
  · split <;> exact fun h => by cases h

/-- An attempt that does not count is not answered with a count. -/
theorem loginEndpoint_of_not_isWrong (h : l.isWrong V s.db.toDatabase = false) (c : Int)
    (message : String) (n : Nat) :
    (AccountApi.loginEndpoint V s l).1 ≠ .failWithData c message n := by
  unfold AccountApi.loginEndpoint
  by_cases hcount : 5 ≤ l.failCount.getD 1
  · rw [if_pos hcount]
    exact fun h => by cases h
  rw [if_neg hcount]
  unfold WebLogin.isWrong at h
  by_cases hlong : 100 < l.password.utf8ByteSize
  · rw [if_pos hlong]
    exact fun h => by cases h
  rw [if_neg hlong] at h ⊢
  cases hfind : UserRepository.findByUsername s.db.toDatabase l.username with
  | error e =>
    simp only [hfind] at h
    exact absurd h.symm Bool.false_ne_true
  | ok user =>
    simp only [hfind] at h ⊢
    by_cases hdisabled : user.status = nd.statusDisabled
    · rw [if_pos hdisabled]
      exact fun h => by cases h
    rw [if_neg hdisabled] at h ⊢
    by_cases hmatch : (!V.encoderMatch user.password l.password) = true
    · rw [if_pos hmatch] at h
      exact absurd h.symm Bool.false_ne_true
    rw [if_neg hmatch] at h ⊢
    by_cases hsecret : user.totpSecret ≠ "" ∧ user.totpSecret ≠ "-"
    · rw [if_pos hsecret] at h ⊢
      by_cases htotp : l.totp = ""
      · rw [if_pos htotp]
        exact fun h => by cases h
      rw [if_neg htotp] at h ⊢
      rw [if_neg (by rw [h]; exact Bool.false_ne_true)]
      exact loginSuccess_ne_failWithData
    · rw [if_neg hsecret]
      exact loginSuccess_ne_failWithData

end

/-- A turn of the loop of `totpUI`: an attempt that is refused or wrong leads to the next turn. -/
theorem totpLoop_code {user : User} {remoteAddr username : String} {db : AccountDatabase} {n : Nat}
    {attempt : Sshd.Attempt} {attempts : List Sshd.Attempt}
    {input : { code : String // 6 ≤ code.utf8ByteSize }} (hinput : attempt.input = some input) :
    (Sshd.totpLoop V.validate user remoteAddr username db (n + 1) (attempt :: attempts)).1 = true ↔
      if 5 ≤ attempt.failCount.getD 1 ∨
          (code remoteAddr username user.totpSecret input attempt.now).isWrong V db.toDatabase then
        (Sshd.totpLoop V.validate user remoteAddr username db n attempts).1 = true
      else True := by
  rw [Sshd.totpLoop]
  simp only [hinput]
  by_cases hcount : 5 ≤ attempt.failCount.getD 1
  · rw [if_pos hcount, if_pos (.inl hcount)]
  rw [if_neg hcount]
  by_cases hvalid : V.validate attempt.now input user.totpSecret = true
  · have hright : ¬ (5 ≤ attempt.failCount.getD 1 ∨
        (code remoteAddr username user.totpSecret input attempt.now).isWrong V db.toDatabase) := by
      rintro (hle | hwrong)
      · exact hcount hle
      · rw [isWrong_code, hvalid] at hwrong
        exact absurd hwrong Bool.false_ne_true
    rw [if_pos hvalid, if_neg hright]
    exact iff_of_true rfl trivial
  · have hwrong : (code remoteAddr username user.totpSecret input attempt.now).isWrong V
        db.toDatabase = true := by
      rw [isWrong_code, Bool.not_eq_true']
      exact Bool.not_eq_true _ ▸ hvalid
    rw [if_neg hvalid, if_pos (.inr hwrong), Sshd.totpLoop_fst, Sshd.totpLoop_fst]

namespace FailedLogins

variable {s : FailedLogins} {a : LoginAttempt}

/-! ## The invariant -/

/-- The number of the wrong attempts under a key. -/
def wrongsUnder (s : FailedLogins) (k : String) : Nat := s.wrongs.countP fun p => key p == k

structure Inv (s : FailedLogins) : Prop where
  nodup : (s.writing.map fun x => key x.1.pair).Nodup
  written : ∀ k, (∀ x ∈ s.writing, key x.1.pair ≠ k) → s.count k = 1 + s.wrongsUnder k
  writing : ∀ x ∈ s.writing,
    s.count (key x.1.pair) = x.2 ∧ s.wrongsUnder (key x.1.pair) = x.2
  comparing : ∀ x ∈ s.comparing, x.2 < 5
  atMost : ∀ k, s.wrongsUnder k ≤ 4
  refused : ∀ p ∈ s.refused, 4 ≤ s.wrongs.count p

/-- The wrong attempts of a pair are among those under its key. -/
theorem count_le_wrongsUnder (s : FailedLogins) (p : String × String) :
    s.wrongs.count p ≤ s.wrongsUnder (key p) := by
  refine List.countP_mono_left fun q _ hq => ?_
  rw [beq_iff_eq] at hq ⊢
  rw [hq]

theorem Inv.bounded (h : Inv s) : s.Bounded where
  wrongs p := Nat.le_trans (s.count_le_wrongsUnder p) (h.atMost (key p))
  refused := h.refused

theorem inv_start : Inv {} where
  nodup := List.nodup_nil
  written _ _ := rfl
  writing _ hx := absurd hx List.not_mem_nil
  comparing _ hx := absurd hx List.not_mem_nil
  atMost _ := Nat.zero_le 4
  refused _ hp := absurd hp List.not_mem_nil

/-! ## The steps -/

/-- A key that reads 5 has four wrong attempts. -/
theorem Inv.four_le_wrongsUnder (h : Inv s) {k : String} (hk : 5 ≤ s.count k) :
    4 ≤ s.wrongsUnder k := by
  by_cases hwriter : ∃ x ∈ s.writing, key x.1.pair = k
  · obtain ⟨x, hx, rfl⟩ := hwriter
    have := h.writing x hx
    omega
  · have := h.written k fun x hx heq => hwriter ⟨x, hx, heq⟩
    omega

theorem Inv.read (h : Inv s) (hok : s.OneAtATime V (.read a)) : Inv (s.read a) := by
  unfold FailedLogins.read
  by_cases hcount : 5 ≤ s.count (key a.pair)
  · rw [if_pos hcount]
    refine { h with refused := fun p hp => ?_ }
    rcases List.mem_cons.mp hp with rfl | hp
    · -- the wrong attempts under the key are all of this pair
      have hle : s.wrongsUnder (key a.pair) ≤ s.wrongs.count a.pair :=
        List.countP_mono_left fun q hq hkey =>
          beq_iff_eq.mpr (hok hcount q hq (beq_iff_eq.mp hkey))
      exact Nat.le_trans (h.four_le_wrongsUnder hcount) hle
    · exact h.refused p hp
  · rw [if_neg hcount]
    refine { h with comparing := fun x hx => ?_ }
    rcases List.mem_cons.mp hx with rfl | hx
    · exact Nat.lt_of_not_le hcount
    · exact h.comparing x hx

/-- One more wrong attempt. -/
theorem countP_key_cons (p : String × String) (ps : List (String × String)) (k : String) :
    (p :: ps).countP (fun q => key q == k) =
      ps.countP (fun q => key q == k) + if key p = k then 1 else 0 := by
  rw [List.countP_cons]
  simp only [beq_iff_eq]

theorem Inv.compare (h : Inv s) {i : Nat} {x : LoginAttempt × Nat} {db : Database}
    (hx : s.comparing[i]? = some x) (hok : s.OneAtATime V (.compare i db)) :
    Inv (s.compare V i x db) := by
  have hsub : ∀ y ∈ s.comparing.eraseIdx i, y.2 < 5 := fun y hy =>
    h.comparing y (List.mem_of_mem_eraseIdx hy)
  unfold FailedLogins.compare
  by_cases hwrong : x.1.isWrong V db = true
  · rw [if_pos hwrong]
    obtain ⟨hread, hnone⟩ := hok x hx hwrong
    have hlt : x.2 < 5 := h.comparing x (List.mem_of_getElem? hx)
    have hcount := h.written (key x.1.pair) hnone
    refine
      { nodup := ?_
        written := ?_
        writing := ?_
        comparing := hsub
        atMost := ?_
        refused := ?_ }
    · rw [List.map_cons, List.nodup_cons]
      refine ⟨fun hmem => ?_, h.nodup⟩
      obtain ⟨y, hy, heq⟩ := List.mem_map.mp hmem
      exact hnone y hy heq
    · intro k hk
      have hne : key x.1.pair ≠ k := hk x List.mem_cons_self
      have hold := h.written k fun y hy => hk y (List.mem_cons_of_mem x hy)
      show s.count k = 1 + (x.1.pair :: s.wrongs).countP _
      rw [countP_key_cons, if_neg hne]
      exact hold
    · intro y hy
      show s.count (key y.1.pair) = y.2 ∧ (x.1.pair :: s.wrongs).countP _ = y.2
      rw [countP_key_cons]
      rcases List.mem_cons.mp hy with rfl | hy
      · rw [if_pos rfl]
        unfold wrongsUnder at hcount
        omega
      · rw [if_neg fun heq => hnone y hy heq.symm]
        exact h.writing y hy
    · intro k
      show (x.1.pair :: s.wrongs).countP _ ≤ 4
      rw [countP_key_cons]
      by_cases hk : key x.1.pair = k
      · rw [if_pos hk, ← hk]
        unfold wrongsUnder at hcount
        omega
      · rw [if_neg hk]
        exact h.atMost k
    · intro p hp
      exact Nat.le_trans (h.refused p hp) List.count_le_count_cons
  · rw [if_neg hwrong]
    exact { h with comparing := hsub }

theorem Inv.write (h : Inv s) {i : Nat} {x : LoginAttempt × Nat} (hx : s.writing[i]? = some x) :
    Inv (s.write i x) := by
  obtain ⟨hi, rfl⟩ := List.getElem?_eq_some_iff.mp hx
  have hperm := List.getElem_cons_eraseIdx_perm hi
  have hnodup := (hperm.map fun x => key x.1.pair).nodup_iff.mpr h.nodup
  rw [List.map_cons, List.nodup_cons] at hnodup
  obtain ⟨hother, hnodup⟩ := hnodup
  have hne : ∀ y ∈ s.writing.eraseIdx i, key y.1.pair ≠ key s.writing[i].1.pair := fun y hy heq =>
    hother (List.mem_map.mpr ⟨y, hy, heq⟩)
  have hsub : ∀ y ∈ s.writing.eraseIdx i, y ∈ s.writing := fun y hy => List.mem_of_mem_eraseIdx hy
  -- only the count under the key of the attempt changes
  have hcount : ∀ k, k ≠ key s.writing[i].1.pair → (s.write i s.writing[i]).count k = s.count k := by
    intro k hk
    show (Function.update s.counters _ _ k).getD 1 = s.count k
    rw [Function.update_of_ne hk]
    rfl
  refine
    { nodup := hnodup
      written := ?_
      writing := ?_
      comparing := h.comparing
      atMost := h.atMost
      refused := h.refused }
  · intro k hk
    by_cases heq : k = key s.writing[i].1.pair
    · subst heq
      have hwrong := (h.writing s.writing[i] (List.getElem_mem hi)).2
      show (Function.update s.counters _ (some (s.writing[i].2 + 1)) _).getD 1 = 1 + s.wrongsUnder _
      rw [Function.update_self, hwrong]
      exact Nat.add_comm _ _
    · rw [hcount k heq]
      refine h.written k fun y hy hkey => ?_
      rcases List.mem_cons.mp (hperm.mem_iff.mpr hy) with rfl | hy
      · exact heq hkey.symm
      · exact hk y hy hkey
  · intro y hy
    rw [hcount _ (hne y hy)]
    exact h.writing y (hsub y hy)

/-- In every interleaving in which no counter is written over and no key is locked for another pair, at
most four wrong attempts of a pair reach the comparison, and only their pair is refused. -/
theorem bounded_of_reaches (h : Transition.Reaches (step V) (OneAtATime V) {} s) : s.Bounded := by
  refine (h.invariant (I := Inv) (fun s a t hs hok hstep => ?_) inv_start).bounded
  cases a with
  | read a =>
    obtain rfl := Option.some.inj hstep
    exact hs.read hok
  | compare i db =>
    obtain ⟨x, hx, rfl⟩ := Option.map_eq_some_iff.mp hstep
    exact hs.compare hx hok
  | write i =>
    obtain ⟨x, hx, rfl⟩ := Option.map_eq_some_iff.mp hstep
    exact hs.write hx

/-- The library finds every code wrong. -/
def allWrong : Verifiers where
  encoderMatch _ _ := false
  validate _ _ _ := false
  contains _ _ := false

/-- An attempt of a client on a name. -/
def attempt (realIP username : String) : LoginAttempt :=
  code realIP username "JBSWY3DPEHPK3PXP" ⟨"000000", by decide⟩ 0

/-- One attempt after the other: the fifth is refused. -/
def oneByOne : List AttemptStep :=
  let turn : List AttemptStep := [.read (attempt "10.0.0.1" "li"), .compare 0 {}, .write 0]
  turn ++ turn ++ turn ++ turn ++ [.read (attempt "10.0.0.1" "li")]

theorem bounded_oneByOne : ∃ s, Transition.exec (step allWrong) {} oneByOne = some s ∧
    s.wrongs.length = 4 ∧ s.refused = [("10.0.0.1", "li")] ∧ s.Bounded := by
  obtain ⟨s, hrun, hwrongs, hrefused⟩ : ∃ s,
      Transition.exec (step allWrong) {} oneByOne = some s ∧
        s.wrongs.length = 4 ∧ s.refused = [("10.0.0.1", "li")] :=
    ⟨_, rfl, by decide, by decide⟩
  exact ⟨s, hrun, hwrongs, hrefused,
    bounded_of_reaches (V := allWrong) (Transition.reaches_of_exec hrun (by decide))⟩

/-- Five attempts read the counter before any of them writes it. -/
def allAtOnce : List AttemptStep :=
  List.replicate 5 (.read (attempt "10.0.0.1" "li")) ++ List.replicate 5 (.compare 0 {})

theorem not_bounded_allAtOnce : ∃ s : FailedLogins,
    Transition.Reaches (step allWrong) Transition.Any {} s ∧ ¬ s.Bounded := by
  obtain ⟨s, hrun, hwrongs⟩ : ∃ s, Transition.exec (step allWrong) {} allAtOnce = some s ∧
      s.wrongs.count ("10.0.0.1", "li") = 5 := ⟨_, rfl, by decide⟩
  refine ⟨s, Transition.reaches_of_exec hrun (Transition.allOk_any _ _), fun h => ?_⟩
  have := h.wrongs ("10.0.0.1", "li")
  omega

end FailedLogins

end NextDBM
