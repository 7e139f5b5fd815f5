import NextDBM.Sessions.Lifecycle

/-!
# Proofs: reviewing every session

The ids that wait before the index `i` are `i` many up to 100, and from then on as many as there are
indices since the last multiple of 100; so a batch has at most 101 ids. Every way through the loop ends
with a batch that takes the last id.
-/

namespace NextDBM

open Relational

namespace SessionService

variable {answer : Nat → Option String} {total i : Nat} {r : Review} {sessionIds : List String}
  {sessions : List Session}

/-- Whatever the answer is, the batch is recorded. -/
theorem batches_passOn : (passOn answer r sessionIds).batches = r.batches ++ [sessionIds] := by
  unfold passOn
  split
  · rfl
  · rfl

theorem err_passOn (h : ∀ k, answer k = none) (herr : r.err = none) :
    (passOn answer r sessionIds).err = none := by
  rw [passOn, h]
  exact herr

/-- The number of the ids that wait before an index. -/
def Waiting (i : Nat) (sessionIds : List String) : Prop :=
  sessionIds.length = if i ≤ 100 then i else (i - 1) % 100

/-- After a multiple of 100 nothing waits. -/
theorem waiting_nil (hfrom : 100 ≤ i) (hmod : i % 100 = 0) : Waiting (i + 1) [] := by
  rw [Waiting, if_neg (by omega), List.length_nil]
  omega

theorem Waiting.next (h : Waiting i sessionIds) (hnot : ¬ (100 ≤ i ∧ i % 100 = 0)) (id : String) :
    Waiting (i + 1) (sessionIds ++ [id]) := by
  rw [Waiting] at h ⊢
  rw [List.length_append, List.length_singleton, h]
  by_cases hle : i ≤ 100
  · rw [if_pos hle, if_pos (by omega)]
  · rw [if_neg hle, if_neg (by omega)]
    omega

theorem Waiting.length_le (h : Waiting i sessionIds) : sessionIds.length ≤ 100 := by
  rw [h]
  split
  · assumption
  · omega

/-- A batch of the loop is neither empty nor too long. -/
theorem Waiting.bounded (h : Waiting i sessionIds) (id : String) :
    sessionIds ++ [id] ≠ [] ∧ (sessionIds ++ [id]).length ≤ 101 := by
  have hlen := h.length_le
  refine ⟨by simp, ?_⟩
  rw [List.length_append, List.length_singleton]
  omega

/-- The batches of the loop. -/
theorem reviewLoop_bounded (hwaiting : Waiting i sessionIds)
    (hr : ∀ batch ∈ r.batches, batch ≠ [] ∧ batch.length ≤ 101) :
    ∀ batch ∈ (reviewLoop answer total r i sessionIds sessions).batches,
      batch ≠ [] ∧ batch.length ≤ 101 := by
  induction sessions generalizing r i sessionIds with
  | nil => exact hr
  | cons s sessions ih =>
    have hpass : ∀ batch ∈ (passOn answer r (sessionIds ++ [s.id])).batches,
        batch ≠ [] ∧ batch.length ≤ 101 := by
      rw [batches_passOn]
      intro batch hbatch
      rcases List.mem_append.mp hbatch with hold | hnew
      · exact hr batch hold
      · rw [List.mem_singleton.mp hnew]
        exact hwaiting.bounded s.id
    rw [reviewLoop]
    dsimp only
    split
    · next hflush =>
      split
      · exact hpass
      · exact ih (waiting_nil hflush.1 hflush.2) hpass
    · next hflush =>
      have hnext := hwaiting.next hflush s.id
      split
      · split
        · exact hpass
        · exact ih hnext hpass
      · exact ih hnext hr

/-- Without an error the batches are the ids that wait and those that are to come. -/
theorem reviewLoop_flatten (h : ∀ k, answer k = none) (herr : r.err = none)
    (htotal : i + sessions.length = total) (hne : sessions ≠ []) :
    (reviewLoop answer total r i sessionIds sessions).batches.flatten =
      r.batches.flatten ++ (sessionIds ++ sessions.map Session.id) := by
  induction sessions generalizing r i sessionIds with
  | nil => exact absurd rfl hne
  | cons s sessions ih =>
    have hpassed : (passOn answer r (sessionIds ++ [s.id])).err = none := err_passOn h herr
    have hflat : (passOn answer r (sessionIds ++ [s.id])).batches.flatten =
        r.batches.flatten ++ (sessionIds ++ [s.id]) := by
      rw [batches_passOn, List.flatten_append, List.flatten_singleton]
    rw [List.length_cons] at htotal
    rw [reviewLoop]
    dsimp only
    rw [hpassed, Option.isSome_none, if_neg Bool.false_ne_true, if_neg Bool.false_ne_true]
    cases sessions with
    | nil =>
      rw [List.length_nil] at htotal
      rw [if_pos (by omega : i + 1 = total)]
      split
      · exact hflat
      · exact hflat
    | cons t rest =>
      rw [List.length_cons] at htotal
      have hlen : i + 1 + (t :: rest).length = total := by
        rw [List.length_cons]
        omega
      rw [if_neg (by omega : ¬ i + 1 = total)]
      split
      · rw [ih hpassed hlen (List.cons_ne_nil t rest), hflat]
        simp
      · rw [ih herr hlen (List.cons_ne_nil t rest)]
        simp

end SessionService

/-- In batches that are a list without repetition put together, every id is in one batch. -/
theorem inOneBatch_of_nodup {batches : List (List String)} {id : String} (h : batches.flatten.Nodup)
    (hid : id ∈ batches.flatten) : InOneBatch batches id := by
  obtain ⟨batch, hbatch, hmem⟩ := List.mem_flatten.mp hid
  obtain ⟨k, hk, rfl⟩ := List.mem_iff_getElem.mp hbatch
  refine ⟨k, ⟨_, List.getElem?_eq_getElem hk, hmem⟩, ?_⟩
  rintro j ⟨other, hother, hmem'⟩
  obtain ⟨hj, rfl⟩ := List.getElem?_eq_some_iff.mp hother
  have hdisjoint := (List.nodup_flatten.mp h).2
  by_contra hne
  rcases Nat.lt_or_gt_of_ne hne with hlt | hlt
  · exact List.pairwise_iff_getElem.mp hdisjoint j k hj hk hlt hmem' hmem
  · exact List.pairwise_iff_getElem.mp hdisjoint k j hk hj hlt hmem hmem'

namespace SessionService

/-- When no update fails, the batches are the ids of the sessions that are not reviewed. -/
theorem flatten_reviewedAll (db : Database) (h : ∀ k, answer k = none) :
    (reviewedAll none answer db).batches.flatten =
      (SessionRepository.findAllUnReviewed db).map Session.id := by
  by_cases hne : SessionRepository.findAllUnReviewed db = []
  · rw [reviewedAll, hne]
    rfl
  · exact reviewLoop_flatten h rfl (Nat.zero_add _) hne

/-- Two sessions that are not reviewed, and one that is. -/
def threeSessions : Database :=
  { sessions := ⟨[{ id := "s1" }, { id := "s2", reviewed := true }, { id := "s3" }], by decide⟩ }

/-- The updates of the batches, one after the other. -/
def reviewBatches (db : Database) (batches : List (List String)) : Database :=
  batches.foldl (fun db ids => SessionRepository.updateReadByIds db true ids) db

theorem db_passOn {db : Database} (h : ∀ k, answer k = none) (hr : r.db = reviewBatches db r.batches) :
    (passOn answer r sessionIds).db = reviewBatches db (passOn answer r sessionIds).batches := by
  rw [batches_passOn, reviewBatches, List.foldl_append, passOn, h, hr]
  rfl

theorem reviewLoop_db {db : Database} (h : ∀ k, answer k = none)
    (hr : r.db = reviewBatches db r.batches) :
    (reviewLoop answer total r i sessionIds sessions).db =
      reviewBatches db (reviewLoop answer total r i sessionIds sessions).batches := by
  induction sessions generalizing r i sessionIds with
  | nil => exact hr
  | cons s sessions ih =>
    have hpass := @db_passOn answer r (sessionIds ++ [s.id]) db h hr
    rw [reviewLoop]
    dsimp only
    split
    · split
      · exact hpass
      · exact ih hpass
    · split
      · split
        · exact hpass
        · exact ih hpass
      · exact ih hr

/-- A session that the updates leave unreviewed was so before and is in no batch. -/
theorem mem_reviewBatches {db : Database} {batches : List (List String)} {s : Session}
    (hs : s ∈ (reviewBatches db batches).sessions) (hreviewed : s.reviewed = false) :
    s ∈ db.sessions ∧ s.id ∉ batches.flatten := by
  induction batches generalizing db with
  | nil => exact ⟨hs, List.not_mem_nil⟩
  | cons ids batches ih =>
    obtain ⟨hs, hlater⟩ := ih hs
    change s ∈ db.sessions.modify (SessionRepository.setReviewed true ids)
      (SessionRepository.setReviewed_id true ids) at hs
    obtain ⟨s₀, hs₀, rfl⟩ := Table.mem_modify.mp hs
    have hnot : s₀.id ∉ ids := by
      intro hid
      rw [SessionRepository.setReviewed] at hreviewed
      dsimp only at hreviewed
      rw [if_pos hid] at hreviewed
      cases hreviewed
    have heq : SessionRepository.setReviewed true ids s₀ = s₀ := by
      rw [SessionRepository.setReviewed, if_neg hnot]
    rw [heq] at hlater ⊢
    refine ⟨hs₀, ?_⟩
    rw [List.flatten_cons, List.mem_append]
    exact not_or.mpr ⟨hnot, hlater⟩

/-- When no update fails, no session is left unreviewed. -/
theorem findAllUnReviewed_reviewedAll (db : Database) (h : ∀ k, answer k = none) :
    SessionRepository.findAllUnReviewed (reviewedAll none answer db).db = [] := by
  have hdb : (reviewedAll none answer db).db =
      reviewBatches db (reviewedAll none answer db).batches := reviewLoop_db h rfl
  refine List.eq_nil_iff_forall_not_mem.mpr fun s hs => ?_
  obtain ⟨hmem, hreviewed⟩ := Table.mem_select.mp hs
  rw [Bool.not_eq_true'] at hreviewed
  rw [hdb] at hmem
  obtain ⟨hbefore, hnot⟩ := mem_reviewBatches hmem hreviewed
  rw [flatten_reviewedAll db h] at hnot
  have hfound : s ∈ SessionRepository.findAllUnReviewed db :=
    Table.mem_select.mpr ⟨hbefore, by rw [hreviewed]; rfl⟩
  exact hnot (List.mem_map_of_mem hfound)

end SessionService

end NextDBM
