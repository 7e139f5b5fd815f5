import Mathlib.Data.List.Nodup
import Mathlib.Order.Lattice

/-!
# Loops that keep the last match

A loop that overwrites its value at every element that matches ends with the value of the last such
element. A match may also fail, which ends the loop with an error; nested loops are one loop over the
elements of all of them.
-/

namespace LastMatch

variable {α β γ ε : Type}

/-- A fold that overwrites its value at every match ends with the last match. -/
theorem foldl_last_match (p : α → Bool) (f : α → β) (d : β) (xs : List α) :
    xs.foldl (fun acc x => if p x then f x else acc) d = ((xs.reverse.find? p).map f).getD d := by
  induction xs generalizing d with
  | nil => rfl
  | cons x xs ih =>
    rw [List.foldl_cons, ih, List.reverse_cons, List.find?_append]
    cases hrest : xs.reverse.find? p with
    | some y => rfl
    | none =>
      by_cases hx : p x = true
      · simp [hx]
      · simp [hx]

/-- When every match gives the same value, it is enough that there is one. -/
theorem foldl_any (p : α → Bool) (c d : β) (xs : List α) :
    xs.foldl (fun acc x => if p x then c else acc) d = if xs.any p then c else d := by
  induction xs generalizing d with
  | nil => rfl
  | cons x xs ih =>
    rw [List.foldl_cons, ih, List.any_cons]
    by_cases hx : p x = true
    · simp [hx]
    · simp [hx]

/-- The body of a loop whose test may fail. -/
def overwrite (hit : α → Except ε Bool) (f : α → β) (acc : β) (x : α) : Except ε β :=
  (hit x).map fun b => if b then f x else acc

variable {hit : α → Except ε Bool} {f : α → β}

/-- The test, where it succeeds. -/
def holds (hit : α → Except ε Bool) (x : α) : Bool := (hit x).toOption.getD false

/-- The loop returns a value when no test fails, and then the value of the last match. -/
theorem foldlM_overwrite_eq_ok {xs : List α} {d b : β} :
    xs.foldlM (overwrite hit f) d = .ok b ↔
      (∀ x ∈ xs, ∃ t, hit x = .ok t) ∧
        ((xs.reverse.find? (holds hit)).map f).getD d = b := by
  rw [← foldl_last_match]
  induction xs generalizing d with
  | nil =>
    constructor
    · intro h
      exact ⟨fun x hx => absurd hx List.not_mem_nil, Except.ok.inj h⟩
    · intro h
      exact congrArg Except.ok h.2
  | cons x xs ih =>
    rw [List.foldlM_cons, List.foldl_cons]
    cases hx : hit x with
    | error err =>
      have hbody : overwrite hit f d x = .error err := by rw [overwrite, hx]; rfl
      rw [hbody]
      constructor
      · intro h
        cases h
      · intro h
        obtain ⟨t, ht⟩ := h.1 x List.mem_cons_self
        exact nomatch hx.symm.trans ht
    | ok t =>
      have hbody : overwrite hit f d x = .ok (if t then f x else d) := by rw [overwrite, hx]; rfl
      have hholds : holds hit x = t := by rw [holds, hx]; rfl
      rw [hbody, hholds]
      refine ih.trans (and_congr_left' ⟨fun h y hy => ?_, fun h y hy => ?_⟩)
      · rcases List.mem_cons.mp hy with rfl | hy
        · exact ⟨t, hx⟩
        · exact h y hy
      · exact h y (List.mem_cons_of_mem x hy)

/-- Nested loops are one loop over the elements of all of them. -/
theorem foldlM_flatMap {m : Type → Type} [Monad m] [LawfulMonad m] (g : γ → List α)
    (body : β → α → m β) (d : β) (xs : List γ) :
    (xs.flatMap g).foldlM body d = xs.foldlM (fun acc x => (g x).foldlM body acc) d := by
  induction xs generalizing d with
  | nil => rfl
  | cons x xs ih =>
    rw [List.flatMap_cons, List.foldlM_append, List.foldlM_cons]
    exact congrArg _ (funext fun acc => ih acc)

/-- A loop that fails fails with the error of one of its tests. -/
theorem exists_of_foldlM_overwrite_eq_error {xs : List α} {d : β} {err : ε}
    (h : xs.foldlM (overwrite hit f) d = .error err) : ∃ x ∈ xs, hit x = .error err := by
  induction xs generalizing d with
  | nil => cases h
  | cons x xs ih =>
    rw [List.foldlM_cons] at h
    cases hx : hit x with
    | error e =>
      have hbody : overwrite hit f d x = .error e := by rw [overwrite, hx]; rfl
      rw [hbody] at h
      obtain rfl := Except.error.inj h
      exact ⟨x, List.mem_cons_self, hx⟩
    | ok t =>
      have hbody : overwrite hit f d x = .ok (if t then f x else d) := by rw [overwrite, hx]; rfl
      rw [hbody] at h
      obtain ⟨y, hy, herr⟩ := ih h
      exact ⟨y, List.mem_cons_of_mem x hy, herr⟩

/-! ## The last match of a ranked list -/

/-- The last match of nested loops belongs to the last outer element that has a match. -/
theorem find?_reverse_flatMap {g : γ → List α} {outer : α → γ} (h : ∀ x, ∀ y ∈ g x, outer y = x)
    (p : α → Bool) (xs : List γ) :
    ((xs.flatMap g).reverse.find? p).map outer = xs.reverse.find? fun x => (g x).any p := by
  induction xs with
  | nil => rfl
  | cons x xs ih =>
    rw [List.flatMap_cons, List.reverse_append, List.find?_append, Option.map_or, ih,
      List.reverse_cons, List.find?_append]
    congr 1
    cases hlast : (g x).reverse.find? p with
    | none =>
      have hnone : (g x).any p = false := by
        rw [List.any_eq_false]
        intro y hy
        exact List.find?_eq_none.mp hlast y (List.mem_reverse.mpr hy)
      simp [hnone]
    | some y =>
      have hy : y ∈ g x := List.mem_reverse.mp (List.mem_of_find?_eq_some hlast)
      have hany : (g x).any p = true := List.any_eq_true.mpr ⟨y, hy, List.find?_some hlast⟩
      simp [hany, h x y hy]

section Ranked

variable {κ : Type} [LinearOrder κ] {rank : α → κ} {xs : List α} {p : α → Bool} {x : α}

/-- Elements of a list of strictly decreasing ranks are told apart by their ranks. -/
theorem eq_of_rank_eq (hxs : xs.Pairwise fun x y => rank y < rank x) {y : α} (hx : x ∈ xs)
    (hy : y ∈ xs) (h : rank x = rank y) : x = y := by
  have hnodup : (xs.map rank).Nodup :=
    List.pairwise_map.mpr (hxs.imp fun hlt => (ne_of_lt hlt).symm)
  exact List.inj_on_of_nodup_map hnodup hx hy h

/-- The last match of a list of strictly decreasing ranks has the least rank of the matches. -/
theorem least_of_find?_reverse (hxs : xs.Pairwise fun x y => rank y < rank x)
    (h : xs.reverse.find? p = some x) {y : α} (hy : y ∈ xs) (hp : p y = true) :
    rank x ≤ rank y := by
  obtain ⟨-, later, earlier, hsplit, hlater⟩ := List.find?_eq_some_iff_append.mp h
  have heq : xs = earlier.reverse ++ x :: later.reverse := by
    rw [← List.reverse_reverse xs, hsplit]
    simp
  rw [heq] at hxs hy
  obtain ⟨-, -, hcross⟩ := List.pairwise_append.mp hxs
  rcases List.mem_append.mp hy with hy | hy
  · exact le_of_lt (hcross y hy x List.mem_cons_self)
  · rcases List.mem_cons.mp hy with rfl | hy
    · exact le_refl _
    · have hnot := hlater y (List.mem_reverse.mp hy)
      rw [hp] at hnot
      exact absurd hnot (by decide)

theorem find?_reverse_eq_some_iff (hxs : xs.Pairwise fun x y => rank y < rank x) :
    xs.reverse.find? p = some x ↔
      x ∈ xs ∧ p x = true ∧ ∀ y ∈ xs, p y = true → rank x ≤ rank y := by
  constructor
  · intro h
    exact ⟨List.mem_reverse.mp (List.mem_of_find?_eq_some h), List.find?_some h,
      fun y hy hp => least_of_find?_reverse hxs h hy hp⟩
  · rintro ⟨hx, hp, hleast⟩
    cases hlast : xs.reverse.find? p with
    | none => exact absurd hp (List.find?_eq_none.mp hlast x (List.mem_reverse.mpr hx))
    | some y =>
      have hy : y ∈ xs := List.mem_reverse.mp (List.mem_of_find?_eq_some hlast)
      have hle : rank y ≤ rank x := least_of_find?_reverse hxs hlast hx hp
      have hge : rank x ≤ rank y := hleast y hy (List.find?_some hlast)
      rw [eq_of_rank_eq hxs hx hy (le_antisymm hge hle)]

end Ranked

end LastMatch
