import NextDBM.Accounts.Sshd

/-!
# Proofs: one identity per SSH login

Each of the two functions is brought to the user it finds: `passwordAuth` to the first user of the
whole name, `sessionHandler` to the first user of the part before the `@` who gets past the second
factor. A name without an `@` is its own part; the part of any other name is a different name, so the
two users differ whenever both are found.
-/

namespace NextDBM

namespace Sshd

open Relational

variable {encoderMatch : String → String → Bool} {validate : Nat → String → String → Bool}
  {db : AccountDatabase} {sess : Session} {pass uuid : String} {attempts : List Attempt}
  {u v : User}

theorem findByUsername_eq_ok {db : Database} {username : String} :
    UserRepository.findByUsername db username = .ok u ↔ FirstNamed db username u := by
  rw [UserRepository.findByUsername, firstOrNotFound_eq_ok, Table.first_eq_some]
  simp only [beq_iff_eq, FirstNamed]

theorem FirstNamed.unique {db : Database} {username : String} (hu : FirstNamed db username u)
    (hv : FirstNamed db username v) : u = v := by
  have h := (findByUsername_eq_ok.mpr hu).symm.trans (findByUsername_eq_ok.mpr hv)
  exact Except.ok.inj h

/-! ## The password -/

/-- The password is verified for the first user of the whole login name. -/
theorem verifiedUser_eq_some :
    verifiedUser encoderMatch db sess pass uuid = some u ↔
      FirstNamed db.toDatabase sess.user u ∧ encoderMatch u.password pass := by
  rw [← findByUsername_eq_ok]
  unfold verifiedUser passwordAuth
  cases hfind : UserRepository.findByUsername db.toDatabase sess.user with
  | error e => simp
  | ok user =>
    by_cases hmatch : encoderMatch user.password pass = true
    · simp only [hmatch, if_true, Except.toOption, Option.some.injEq, Except.ok.injEq]
      constructor
      · rintro rfl
        exact ⟨rfl, hmatch⟩
      · rintro ⟨rfl, -⟩
        rfl
    · simp only [hmatch, Except.ok.injEq]
      constructor
      · intro h
        exact absurd h (by simp)
      · rintro ⟨rfl, h⟩
        exact absurd h hmatch

/-! ## The codes -/

/-- The loop accepts a code within the turns it has left. -/
theorem totpLoop_fst {user : User} {remoteAddr username : String} {n : Nat} :
    (totpLoop validate user remoteAddr username db n attempts).1 = true ↔
      CodeAccepted validate user.totpSecret n attempts := by
  induction n generalizing db attempts with
  | zero =>
    constructor
    · intro h
      exact absurd h Bool.false_ne_true
    · rintro ⟨i, hi, -⟩
      exact absurd hi (Nat.not_lt_zero i)
  | succ n ih =>
    -- an accepted code that is not the first one is accepted by the rest of the loop
    have hshift : ∀ {attempt : Attempt} {attempts : List Attempt}, attempt.input.isSome →
        (¬ ((∃ code, attempt.input = some code ∧ validate attempt.now code user.totpSecret) ∧
          attempt.failCount.getD 1 < 5)) →
        (CodeAccepted validate user.totpSecret (n + 1) (attempt :: attempts) ↔
          CodeAccepted validate user.totpSecret n attempts) := by
      intro attempt attempts hinput hnot
      constructor
      · rintro ⟨i, hi, a, ha, hcode, hcount, hearlier⟩
        cases i with
        | zero =>
          rw [List.getElem?_cons_zero, Option.some.injEq] at ha
          exact absurd ⟨ha ▸ hcode, ha ▸ hcount⟩ hnot
        | succ i =>
          rw [List.getElem?_cons_succ] at ha
          refine ⟨i, Nat.lt_of_succ_lt_succ hi, a, ha, hcode, hcount, fun j hj earlier he => ?_⟩
          exact hearlier (j + 1) (Nat.succ_lt_succ hj) earlier (by rwa [List.getElem?_cons_succ])
      · rintro ⟨i, hi, a, ha, hcode, hcount, hearlier⟩
        refine ⟨i + 1, Nat.succ_lt_succ hi, a, by rwa [List.getElem?_cons_succ], hcode, hcount,
          fun j hj earlier he => ?_⟩
        cases j with
        | zero =>
          rw [List.getElem?_cons_zero, Option.some.injEq] at he
          exact he ▸ hinput
        | succ j =>
          rw [List.getElem?_cons_succ] at he
          exact hearlier j (Nat.lt_of_succ_lt_succ hj) earlier he
    cases attempts with
    | nil =>
      constructor
      · intro h
        exact absurd h Bool.false_ne_true
      · rintro ⟨i, -, a, ha, -⟩
        exact absurd ha (by simp)
    | cons attempt attempts =>
      rw [totpLoop]
      cases hinput : attempt.input with
      | none =>
        -- a failed prompt ends the loop, and no later input counts
        constructor
        · intro h
          exact absurd h Bool.false_ne_true
        · rintro ⟨i, -, a, ha, ⟨code, hcode, -⟩, -, hearlier⟩
          cases i with
          | zero =>
            rw [List.getElem?_cons_zero, Option.some.injEq] at ha
            rw [ha, hcode] at hinput
            cases hinput
          | succ i =>
            have hsome := hearlier 0 (Nat.succ_pos i) attempt List.getElem?_cons_zero
            rw [hinput] at hsome
            exact absurd hsome Bool.false_ne_true
      | some code =>
        have hisSome : attempt.input.isSome := by rw [hinput]; rfl
        by_cases hcount : 5 ≤ attempt.failCount.getD 1
        · simp only [if_pos hcount]
          rw [hshift hisSome fun h => absurd h.2 (Nat.not_lt.mpr hcount)]
          exact ih
        · simp only [if_neg hcount]
          by_cases hvalid : validate attempt.now code user.totpSecret = true
          · rw [if_pos hvalid]
            refine ⟨fun _ => ?_, fun _ => rfl⟩
            exact ⟨0, Nat.succ_pos n, attempt, List.getElem?_cons_zero, ⟨code, hinput, hvalid⟩,
              Nat.lt_of_not_le hcount, fun j hj => absurd hj (Nat.not_lt_zero j)⟩
          · rw [if_neg hvalid]
            rw [hshift hisSome]
            · exact ih
            · rintro ⟨⟨code', hcode', hvalid'⟩, -⟩
              rw [hinput, Option.some.injEq] at hcode'
              exact hvalid (hcode' ▸ hvalid')

/-! ## The session -/

theorem totpUI_user {user : User} {remoteAddr username : String} {publicKeyAsset : Option String} :
    (totpUI validate db user remoteAddr username publicKeyAsset attempts uuid).1.user? = some v ↔
      user = v ∧ CodeAccepted validate user.totpSecret 5 attempts := by
  have hloop := @totpLoop_fst validate db attempts user remoteAddr username 5
  rw [← hloop]
  unfold totpUI
  rcases totpLoop validate user remoteAddr username db 5 attempts with ⟨_ | _, db'⟩
  · simp [Handled.user?]
  · simp [Handled.user?]

/-- The session of the first user of the part before the `@` is started, when the second factor is
passed. -/
theorem startedUser_eq_some :
    startedUser validate db sess attempts uuid = some v ↔
      FirstNamed db.toDatabase ((Text.split sess.user '@').headD "") v ∧
        SecondFactor validate sess attempts v := by
  rw [← findByUsername_eq_ok]
  unfold startedUser sessionHandler SecondFactor
  dsimp only
  cases hfind : UserRepository.findByUsername db.toDatabase
      ((Text.split sess.user '@').headD "") with
  | error e => simp [Handled.user?]
  | ok user =>
    simp only [Except.ok.injEq]
    by_cases hkey : sess.publicKey = true
    · simp only [hkey, Bool.true_and, Bool.not_true, Bool.and_false, Bool.false_eq_true, if_false,
        if_true]
      cases hcomment : sess.publicKeyComment with
      | none => simp [Handled.user?]
      | some comment =>
        by_cases heq : comment = user.username
        · subst heq
          simp only [Option.isNone_some, bne_self_eq_false, Bool.false_eq_true, if_false,
            Handled.user?, Option.some.injEq]
          constructor
          · rintro rfl
            exact ⟨rfl, rfl⟩
          · intro h
            exact h.1
        · have hne : (some comment != some user.username) = true := by simpa using heq
          simp only [Option.isNone_some, hne, Bool.false_eq_true, if_false, if_true, Handled.user?,
            Option.some.injEq]
          constructor
          · intro h
            cases h
          · rintro ⟨rfl, h⟩
            exact absurd h heq
    · simp only [hkey, Bool.false_and, Bool.false_eq_true, if_false, Bool.not_false, Bool.and_true]
      by_cases hsecret : user.totpSecret = "" ∨ user.totpSecret = "-"
      · have hskip : (user.totpSecret != "" && user.totpSecret != "-") = false := by
          rcases hsecret with h | h <;> simp [h]
        simp only [hskip, Bool.false_eq_true, if_false, Handled.user?, Option.some.injEq]
        constructor
        · rintro rfl
          exact ⟨rfl, or_assoc.mp (.inl hsecret)⟩
        · intro h
          exact h.1
      · have hask : (user.totpSecret != "" && user.totpSecret != "-") = true := by
          simpa [not_or] using hsecret
        simp only [hask, if_true, totpUI_user]
        refine and_congr_right fun h => ?_
        subst h
        rw [← or_assoc, or_iff_right hsecret]

/-! ## One identity -/

/-- The part before the first `@` has none. -/
theorem not_mem_head_split (name : String) : '@' ∉ ((Text.split name '@').headD "").toList := by
  cases hsplit : Text.split name '@' with
  | nil => exact absurd hsplit (Text.split_ne_nil name '@')
  | cons part parts => exact Text.not_mem_of_mem_split (hsplit ▸ List.mem_cons_self)

/-- The session is that of the verified user unless the two functions read two users from the name. -/
theorem oneIdentity_iff :
    OneIdentity encoderMatch validate db sess pass attempts uuid ↔
      ¬ TwoReadings encoderMatch validate db sess pass attempts := by
  unfold OneIdentity TwoReadings
  simp only [verifiedUser_eq_some, startedUser_eq_some]
  constructor
  · rintro hone ⟨hat, ⟨u, hu, hpass⟩, v, hv, hfactor⟩
    have huv : u = v := hone u v ⟨hu, hpass⟩ ⟨hv, hfactor⟩
    -- the names of the two users differ in the `@`
    have hname : sess.user = (Text.split sess.user '@').headD "" :=
      hu.2.1.symm.trans ((congrArg User.username huv).trans hv.2.1)
    have hnot := not_mem_head_split sess.user
    rw [← hname] at hnot
    exact hnot hat
  · intro htwo u v hu hv
    by_cases hat : '@' ∈ sess.user.toList
    · exact absurd ⟨hat, ⟨u, hu⟩, v, hv⟩ htwo
    · have hpart : (Text.split sess.user '@').headD "" = sess.user := by
        rw [Text.split_of_not_mem hat]
        rfl
      rw [hpart] at hv
      exact hu.1.unique hv.1

/-- A user whose name begins with the name of another one. -/
def mailUsers : AccountDatabase :=
  { users := ⟨[{ id := "u1", username := "li", password := "p1" },
      { id := "u2", username := "li@example.com", password := "p2" }], by decide⟩ }

/-- The password of one user opens the session of the other. -/
theorem not_oneIdentity_mailUsers :
    ¬ OneIdentity (fun hash pass => hash == pass) (fun _ _ _ => false) mailUsers
      ⟨"li@example.com", "192.0.2.7:52814", false, none⟩ "p2" [] "log1" := by
  intro hone
  have huser := hone { id := "u2", username := "li@example.com", password := "p2" }
    { id := "u1", username := "li", password := "p1" } (by decide) (by decide)
  exact absurd huser (by decide)

end Sshd

end NextDBM
