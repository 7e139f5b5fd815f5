import Mathlib.Data.List.GetD
import Mathlib.Data.List.Lex
import Mathlib.Order.PiLex
import NextDBM.Library.Text

/-!
# Orders of lists

A list of any length is a sequence with a default element after its end. Sequences are compared at the
first place where they differ, so lists are compared from their first elements on.

Texts are compared character by character. When the separator is smaller than every character of the
pieces, two joined texts are ordered as the first pieces in which they differ.
-/

namespace PaddedOrder

variable {α β : Type} {z : α} {xs ys : List α}

/-- The list, with `z` after its end. -/
def padded (z : α) (xs : List α) : Lex (ℕ → α) := toLex fun i => xs.getD i z

theorem padded_apply (z : α) (xs : List α) (i : ℕ) : padded z xs i = xs.getD i z := rfl

theorem padded_zero : padded z xs 0 = xs.headD z := by cases xs <;> rfl

theorem padded_succ (i : ℕ) : padded z xs (i + 1) = padded z xs.tail i := by cases xs <;> rfl

theorem padded_eq_iff :
    padded z xs = padded z ys ↔ xs.headD z = ys.headD z ∧ padded z xs.tail = padded z ys.tail := by
  constructor
  · intro h
    have happly (i : ℕ) : padded z xs i = padded z ys i := congrFun h i
    refine ⟨?_, funext fun i => ?_⟩
    · rw [← padded_zero, ← padded_zero, happly]
    · rw [← padded_succ, ← padded_succ, happly]
  · rintro ⟨hhead, htail⟩
    have happly (i : ℕ) : padded z xs.tail i = padded z ys.tail i := congrFun htail i
    funext i
    cases i with
    | zero => rw [padded_zero, padded_zero, hhead]
    | succ i => rw [padded_succ, padded_succ, happly]

/-- Defaults at the end make no difference. -/
theorem padded_append_replicate (z : α) (xs : List α) (n : ℕ) :
    padded z (xs ++ List.replicate n z) = padded z xs := by
  induction xs with
  | nil =>
    funext i
    rw [List.nil_append, padded_apply, padded_apply, List.getD_nil]
    by_cases hi : i < n
    · rw [List.getD_eq_getElem _ _ (by simpa using hi), List.getElem_replicate]
    · rw [List.getD_eq_default _ _ (by simpa using hi)]
  | cons x xs ih => exact padded_eq_iff.mpr ⟨rfl, ih⟩

theorem padded_map_apply (f : α → β) (xs : List α) (i : ℕ) :
    padded (f z) (xs.map f) i = f (padded z xs i) := by
  rw [padded_apply, padded_apply, List.getD_map]

theorem padded_map_eq_iff {f : α → β} (hf : Function.Injective f) :
    padded (f z) (xs.map f) = padded (f z) (ys.map f) ↔ padded z xs = padded z ys := by
  constructor
  · intro h
    funext i
    refine hf ?_
    have happly : padded (f z) (xs.map f) i = padded (f z) (ys.map f) i := congrFun h i
    rwa [padded_map_apply, padded_map_apply] at happly
  · intro h
    have happly (i : ℕ) : padded z xs i = padded z ys i := congrFun h i
    funext i
    rw [padded_map_apply, padded_map_apply, happly]

section Order

variable [LinearOrder α] [LinearOrder β]

theorem padded_lt_iff : padded z xs < padded z ys ↔
    xs.headD z < ys.headD z ∨ xs.headD z = ys.headD z ∧ padded z xs.tail < padded z ys.tail := by
  constructor
  · rintro ⟨i, hsame, hless⟩
    cases i with
    | zero =>
      rw [padded_zero, padded_zero] at hless
      exact .inl hless
    | succ i =>
      have hhead := hsame 0 (Nat.succ_pos i)
      rw [padded_zero, padded_zero] at hhead
      rw [padded_succ, padded_succ] at hless
      refine .inr ⟨hhead, i, fun j hj => ?_, hless⟩
      rw [← padded_succ, ← padded_succ]
      exact hsame (j + 1) (Nat.succ_lt_succ hj)
  · rintro (hless | ⟨hhead, i, hsame, hless⟩)
    · refine ⟨0, fun j hj => absurd hj (Nat.not_lt_zero j), ?_⟩
      rw [padded_zero, padded_zero]
      exact hless
    · refine ⟨i + 1, fun j hj => ?_, ?_⟩
      · cases j with
        | zero => rw [padded_zero, padded_zero, hhead]
        | succ j =>
          rw [padded_succ, padded_succ]
          exact hsame j (Nat.lt_of_succ_lt_succ hj)
      · rw [padded_succ, padded_succ]
        exact hless

/-- A strictly monotone map keeps the order. -/
theorem padded_map_lt_iff {f : α → β} (hf : StrictMono f) :
    padded (f z) (xs.map f) < padded (f z) (ys.map f) ↔ padded z xs < padded z ys := by
  have happly (zs : List α) (i : ℕ) := padded_map_apply (z := z) f zs i
  constructor
  · rintro ⟨i, hsame, hless⟩
    rw [happly, happly] at hless
    refine ⟨i, fun j hj => hf.injective ?_, hf.lt_iff_lt.mp hless⟩
    rw [← happly, ← happly]
    exact hsame j hj
  · rintro ⟨i, hsame, hless⟩
    refine ⟨i, fun j hj => ?_, ?_⟩
    · rw [happly, happly]
      exact congrArg f (hsame j hj)
    · rw [happly, happly]
      exact hf hless

/-! ## Comparisons -/

/-- The number says how the first of two elements is ordered to the second: -1, 0 or 1. -/
structure Compares (r : Int) (x y : α) : Prop where
  less : r = -1 ↔ x < y
  same : r = 0 ↔ x = y
  greater : r = 1 ↔ y < x

theorem compares_self (x : α) : Compares 0 x x :=
  ⟨iff_of_false (by decide) (lt_irrefl x), iff_of_true rfl rfl, iff_of_false (by decide) (lt_irrefl x)⟩

variable {r s : Int} {x y : α}

theorem Compares.neg (h : Compares r x y) (h' : Compares s y x) : r = -s := by
  rcases lt_trichotomy x y with hxy | hxy | hxy
  · rw [h.less.mpr hxy, h'.greater.mpr hxy]
  · rw [h.same.mpr hxy, h'.same.mpr hxy.symm]
    rfl
  · rw [h.greater.mpr hxy, h'.less.mpr hxy]
    rfl

theorem Compares.unique (h : Compares r x y) (h' : Compares s x y) : r = s := by
  rcases lt_trichotomy x y with hxy | hxy | hxy
  · rw [h.less.mpr hxy, h'.less.mpr hxy]
  · rw [h.same.mpr hxy, h'.same.mpr hxy]
  · rw [h.greater.mpr hxy, h'.greater.mpr hxy]

theorem Compares.le_iff (h : Compares r x y) : r ≤ 0 ↔ x ≤ y := by
  rcases lt_trichotomy x y with hxy | hxy | hxy
  · rw [h.less.mpr hxy]
    exact iff_of_true (by decide) hxy.le
  · rw [h.same.mpr hxy]
    exact iff_of_true (le_refl 0) hxy.le
  · rw [h.greater.mpr hxy]
    exact iff_of_false (by decide) hxy.not_ge

/-- The first elements decide, or else the rest does. -/
theorem Compares.cons (h : Compares r (padded z xs.tail) (padded z ys.tail)) :
    Compares (if xs.headD z < ys.headD z then -1 else if ys.headD z < xs.headD z then 1 else r)
      (padded z xs) (padded z ys) := by
  rcases lt_trichotomy (xs.headD z) (ys.headD z) with hhead | hhead | hhead
  · rw [if_pos hhead]
    have hless := padded_lt_iff.mpr (.inl hhead)
    exact ⟨iff_of_true rfl hless, iff_of_false (by decide) hless.ne, iff_of_false (by decide) hless.asymm⟩
  · have hlt : ¬ xs.headD z < ys.headD z := hhead.not_lt
    have hgt : ¬ ys.headD z < xs.headD z := hhead.not_gt
    rw [if_neg hlt, if_neg hgt]
    constructor
    · refine h.less.trans (Iff.trans ?_ padded_lt_iff.symm)
      exact ⟨fun htail => .inr ⟨hhead, htail⟩, fun hcases => (hcases.resolve_left hlt).2⟩
    · refine h.same.trans (Iff.trans ?_ padded_eq_iff.symm)
      exact ⟨fun htail => ⟨hhead, htail⟩, fun hboth => hboth.2⟩
    · refine h.greater.trans (Iff.trans ?_ padded_lt_iff.symm)
      exact ⟨fun htail => .inr ⟨hhead.symm, htail⟩, fun hcases => (hcases.resolve_left hgt).2⟩
  · rw [if_neg hhead.asymm, if_pos hhead]
    have hless := padded_lt_iff.mpr (.inl hhead)
    exact ⟨iff_of_false (by decide) hless.asymm, iff_of_false (by decide) hless.ne', iff_of_true rfl hless⟩

end Order

end PaddedOrder

/-! ## Joined texts -/

namespace Text

variable {sep : Char} {d p q : String} {ps qs : List String}

/-- What follows the first piece. -/
def afterFirst (sep : Char) (d : String) : List String → List Char
  | [] => []
  | ps => sep :: (join d ps).toList

theorem toList_join_cons (hd : d.toList = [sep]) (p : String) (ps : List String) :
    (join d (p :: ps)).toList = p.toList ++ afterFirst sep d ps := by
  cases ps with
  | nil => simp [join, afterFirst]
  | cons q qs => simp [join, afterFirst, String.toList_append, hd]

/-- Different pieces decide, whatever follows them. -/
theorem append_lt_append_iff {xs ys : List Char} (hx : ∀ ch ∈ xs, sep < ch)
    (hy : ∀ ch ∈ ys, sep < ch) (hne : xs ≠ ys) :
    xs ++ afterFirst sep d ps < ys ++ afterFirst sep d qs ↔ xs < ys := by
  induction xs generalizing ys with
  | nil =>
    cases ys with
    | nil => exact absurd rfl hne
    | cons y ys =>
      have hlt : sep < y := hy y List.mem_cons_self
      have hshort : ([] : List Char) < y :: ys := List.nil_lt_cons _ _
      refine iff_of_true ?_ hshort
      cases ps with
      | nil => exact List.nil_lt_cons _ _
      | cons p ps => exact List.cons_lt_cons_iff.mpr (.inl hlt)
  | cons x xs ih =>
    have hx' : sep < x := hx x List.mem_cons_self
    cases ys with
    | nil =>
      refine iff_of_false ?_ (List.not_lt_nil _)
      cases qs with
      | nil => exact List.not_lt_nil _
      | cons q qs =>
        intro h
        rcases List.cons_lt_cons_iff.mp h with h | ⟨rfl, -⟩
        · exact absurd h (lt_asymm hx')
        · exact lt_irrefl _ hx'
    | cons y ys =>
      rw [List.cons_append, List.cons_append, List.cons_lt_cons_iff, List.cons_lt_cons_iff]
      by_cases hxy : x = y
      · subst hxy
        have hrest := ih (fun ch h => hx ch (List.mem_cons_of_mem _ h))
          (fun ch h => hy ch (List.mem_cons_of_mem _ h)) fun heq => hne (by rw [heq])
        rw [hrest]
      · simp [hxy]

theorem join_lt_join_of_ne (hd : d.toList = [sep]) (hp : ∀ ch ∈ p.toList, sep < ch)
    (hq : ∀ ch ∈ q.toList, sep < ch) (hne : p ≠ q) :
    join d (p :: ps) < join d (q :: qs) ↔ p < q := by
  show (join d (p :: ps)).toList < (join d (q :: qs)).toList ↔ p.toList < q.toList
  rw [toList_join_cons hd, toList_join_cons hd]
  exact append_lt_append_iff hp hq fun heq => hne (String.toList_inj.mp heq)

theorem append_lt_append_left {xs ys zs : List Char} : xs ++ ys < xs ++ zs ↔ ys < zs := by
  induction xs with
  | nil => rfl
  | cons x xs ih => simpa [List.cons_lt_cons_iff] using ih

/-- After an equal piece the rests decide, and a text that has ended comes first. -/
theorem join_lt_join_same (hd : d.toList = [sep]) :
    join d (p :: ps) < join d (p :: qs) ↔
      (ps = [] ∧ qs ≠ []) ∨ (ps ≠ [] ∧ qs ≠ [] ∧ join d ps < join d qs) := by
  show (join d (p :: ps)).toList < (join d (p :: qs)).toList ↔ _
  rw [toList_join_cons hd, toList_join_cons hd, append_lt_append_left]
  cases ps with
  | nil =>
    cases qs with
    | nil => simp [afterFirst]
    | cons q qs => simp [afterFirst]
  | cons p ps =>
    cases qs with
    | nil => simp [afterFirst]
    | cons q qs =>
      rw [afterFirst, afterFirst, List.cons_lt_cons_iff]
      · simp only [lt_irrefl, true_and, false_or, List.cons_ne_nil, false_and, ne_eq,
          not_false_eq_true]
        rfl
      · exact fun h => nomatch h
      · exact fun h => nomatch h

end Text
