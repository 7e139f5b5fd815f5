import NextDBM.Library.Tables

/-!
# Tables that are maps

A table whose primary key is a code of what a row is about (its natural key) is a partial map from
natural keys to rows, as long as the code is injective on the natural keys in use. Replacing rows
(delete what stands under the keys of the new rows, then insert them) overrides the map.
-/

namespace Relational.Table

variable {α κ τ : Type*} {key : α → κ} {n : ℕ} {t t' : Table α key} {new : List α} {b : α}

section Insert

variable [DecidableEq κ]

/-- A batched insert that goes through adds every row. -/
theorem mem_of_insertStatements_true {room : ℕ} {committed working : Table α key} {as : List α}
    (h : insertStatements n committed working room as = (t', true)) :
    b ∈ t' ↔ b ∈ as ∨ b ∈ working := by
  induction as generalizing committed working room with
  | nil =>
    cases h
    simp
  | cons a as ih =>
    rw [insertStatements] at h
    split at h
    · next working' hinsert =>
      have hb : b ∈ as ∨ b ∈ working' ↔ b ∈ a :: as ∨ b ∈ working := by
        rw [mem_of_insert hinsert, List.mem_cons]
        tauto
      split at h
      · exact (ih h).trans hb
      · exact (ih h).trans hb
    · cases h

/-- A batched insert goes through exactly when the new keys are distinct and free. -/
theorem insertStatements_eq_true {room : ℕ} {committed working : Table α key} {as : List α} :
    (insertStatements n committed working room as).2 = true ↔
      (as.map key).Nodup ∧ ∀ a ∈ as, ∀ b ∈ working, key b ≠ key a := by
  induction as generalizing committed working room with
  | nil => simp [insertStatements]
  | cons a as ih =>
    rw [insertStatements]
    split
    · next working' hinsert =>
      have hfree : ∀ b ∈ working, key b ≠ key a := by
        intro b hb hkey
        have hnone := insert_eq_none.mpr ⟨b, hb, hkey⟩
        rw [hnone] at hinsert
        cases hinsert
      have hrest : ((as.map key).Nodup ∧ ∀ a ∈ as, ∀ b ∈ working', key b ≠ key a) ↔
          ((a :: as).map key).Nodup ∧ ∀ c ∈ a :: as, ∀ b ∈ working, key b ≠ key c := by
        rw [List.map_cons, List.nodup_cons]
        constructor
        · rintro ⟨hnodup, hworking'⟩
          refine ⟨⟨fun hmem => ?_, hnodup⟩, fun c hc b hb => ?_⟩
          · obtain ⟨c, hc, hkey⟩ := List.mem_map.mp hmem
            exact hworking' c hc a ((mem_of_insert hinsert).mpr (.inl rfl)) hkey.symm
          · rcases List.mem_cons.mp hc with rfl | hc
            · exact hfree b hb
            · exact hworking' c hc b ((mem_of_insert hinsert).mpr (.inr hb))
        · rintro ⟨⟨hnotMem, hnodup⟩, hworking⟩
          refine ⟨hnodup, fun c hc b hb => ?_⟩
          rcases (mem_of_insert hinsert).mp hb with rfl | hb
          · exact fun hkey => hnotMem (List.mem_map.mpr ⟨c, hc, hkey.symm⟩)
          · exact hworking c (List.mem_cons_of_mem a hc) b hb
      split
      · exact ih.trans hrest
      · exact ih.trans hrest
    · next hinsert =>
      obtain ⟨b, hb, hkey⟩ := insert_eq_none.mp hinsert
      constructor
      · intro h
        cases h
      · rintro ⟨-, hfree⟩
        exact absurd hkey (hfree a List.mem_cons_self b hb)

/-- Delete the rows under the keys of the new rows, one by one, then insert the new rows. -/
def replaceInBatches (t : Table α key) (n : ℕ) (new : List α) : Table α key × Bool :=
  (new.foldl (fun t a => t.deleteWhere fun r => decide (key r = key a)) t).insertInBatches n new

theorem mem_deleteKeys : b ∈ new.foldl (fun t a => t.deleteWhere fun r => decide (key r = key a)) t ↔
    b ∈ t ∧ ∀ a ∈ new, key b ≠ key a := by
  induction new generalizing t with
  | nil => simp
  | cons a new ih =>
    rw [List.foldl_cons, ih, mem_deleteWhere, decide_eq_false_iff_not]
    constructor
    · rintro ⟨⟨hb, ha⟩, hnew⟩
      refine ⟨hb, fun c hc => ?_⟩
      rcases List.mem_cons.mp hc with rfl | hc
      · exact ha
      · exact hnew c hc
    · rintro ⟨hb, hnew⟩
      exact ⟨⟨hb, hnew a List.mem_cons_self⟩, fun c hc => hnew c (List.mem_cons_of_mem a hc)⟩

/-- A replacement that goes through: the new rows, and the old ones under other keys. -/
theorem mem_of_replaceInBatches (h : t.replaceInBatches n new = (t', true)) :
    b ∈ t' ↔ b ∈ new ∨ b ∈ t ∧ ∀ a ∈ new, key b ≠ key a := by
  rw [mem_of_insertStatements_true h, mem_deleteKeys]

/-- A replacement goes through exactly when no two of the new rows have the same key. -/
theorem replaceInBatches_eq_true :
    (t.replaceInBatches n new).2 = true ↔ (new.map key).Nodup := by
  rw [replaceInBatches, insertInBatches, insertStatements_eq_true]
  refine ⟨And.left, fun h => ⟨h, fun a ha b hb => ?_⟩⟩
  exact (mem_deleteKeys.mp hb).2 a ha

end Insert

section Coded

variable (nat : α → τ) (code : τ → κ) (S : Set τ)

/-- Every row has its natural key in `S`, and the code of it as primary key. -/
def Coded (t : Table α key) : Prop := ∀ a ∈ t, nat a ∈ S ∧ key a = code (nat a)

variable {nat code S}

theorem coded_empty : Coded nat code S (∅ : Table α key) := fun _ h => absurd h List.not_mem_nil

/-- In a coded table there is at most one row for each natural key. -/
theorem Coded.eq_of_nat {a : α} (ht : Coded nat code S t) (ha : a ∈ t) (hb : b ∈ t)
    (h : nat a = nat b) : a = b := by
  apply eq_of_key ha hb
  rw [(ht a ha).2, (ht b hb).2, h]

theorem Coded.deleteWhere (ht : Coded nat code S t) (p : α → Bool) :
    Coded nat code S (t.deleteWhere p) :=
  fun a ha => ht a (mem_deleteWhere.mp ha).1

variable [DecidableEq κ]

theorem Coded.replaceInBatches (ht : Coded nat code S t)
    (hnew : ∀ a ∈ new, nat a ∈ S ∧ key a = code (nat a))
    (h : t.replaceInBatches n new = (t', true)) : Coded nat code S t' := by
  intro a ha
  rcases (mem_of_replaceInBatches h).mp ha with ha | ⟨ha, -⟩
  · exact hnew a ha
  · exact ht a ha

/-- **Override**: after a replacement the rows about `k` are the new ones, if there are any, and the
old ones otherwise. -/
theorem Coded.mem_replaceInBatches (hcode : Set.InjOn code S) (ht : Coded nat code S t)
    (hnew : ∀ a ∈ new, nat a ∈ S ∧ key a = code (nat a))
    (h : t.replaceInBatches n new = (t', true)) :
    b ∈ t' ↔ b ∈ new ∨ b ∈ t ∧ ∀ a ∈ new, nat b ≠ nat a := by
  rw [mem_of_replaceInBatches h]
  refine or_congr_right (and_congr_right fun hb => forall₂_congr fun a ha => not_congr ?_)
  rw [(ht b hb).2, (hnew a ha).2]
  exact hcode.eq_iff (ht b hb).1 (hnew a ha).1

end Coded

end Relational.Table
