import Mathlib.Data.List.Pairwise
import Mathlib.Order.Nat

/-!
# Maximal runs of a predicate on the numbers below a bound

`closeRuns p n` lists the maximal runs `[a, b)` of numbers below `n` that satisfy `p`, the last one
first. It is the run-length loop in its simplest form: a number that satisfies `p` lengthens the run
that ends just before it, or begins a run of its own.
-/

namespace MaximalRuns

variable {p : Nat → Bool} {n : Nat}

/-- The maximal runs below `n`, the last one first. -/
def closeRuns (p : Nat → Bool) : Nat → List (Nat × Nat)
  | 0 => []
  | n + 1 =>
    if p n then
      match closeRuns p n with
      | (a, b) :: rs => if b = n then (a, n + 1) :: rs else (n, n + 1) :: (a, b) :: rs
      | [] => [(n, n + 1)]
    else closeRuns p n

/-- `[r.1, r.2)` is a maximal run of `p` below `n`. -/
structure IsRun (p : Nat → Bool) (n : Nat) (r : Nat × Nat) : Prop where
  nonempty : r.1 < r.2
  le : r.2 ≤ n
  all : ∀ i, r.1 ≤ i → i < r.2 → p i
  left : ∀ i, i + 1 = r.1 → p i = false
  right : r.2 < n → p r.2 = false

theorem IsRun.succ_of_not {r : Nat × Nat} (h : IsRun p n r) (hp : p n = false) :
    IsRun p (n + 1) r := by
  refine ⟨h.nonempty, Nat.le_succ_of_le h.le, h.all, h.left, fun _ => ?_⟩
  rcases Nat.lt_or_eq_of_le h.le with hlt | heq
  · exact h.right hlt
  · exact heq ▸ hp

theorem IsRun.succ_of_lt {r : Nat × Nat} (h : IsRun p n r) (hr : r.2 < n) :
    IsRun p (n + 1) r :=
  ⟨h.nonempty, Nat.le_succ_of_le h.le, h.all, h.left, fun _ => h.right hr⟩

/-- A run that ends at `n` grows when `n` satisfies `p`. -/
theorem IsRun.grow {a : Nat} (h : IsRun p n (a, n)) (hp : p n) : IsRun p (n + 1) (a, n + 1) := by
  refine ⟨Nat.lt_succ_of_lt h.nonempty, le_rfl, ?_, h.left, ?_⟩
  · intro i ha hi
    rcases Nat.lt_succ_iff_lt_or_eq.mp hi with hlt | rfl
    · exact h.all i ha hlt
    · exact hp
  · intro hlt
    exact absurd hlt (lt_irrefl _)

theorem isRun_singleton (hp : p n) (hleft : ∀ i, i + 1 = n → p i = false) :
    IsRun p (n + 1) (n, n + 1) := by
  refine ⟨Nat.lt_succ_self n, le_rfl, ?_, hleft, ?_⟩
  · intro i hn hi
    have heq : i = n := by simp only at hn hi; omega
    exact heq ▸ hp
  · intro hlt
    exact absurd hlt (lt_irrefl _)

/-- What the loop keeps: it lists maximal runs, each ending before the one listed before it begins,
and every number that satisfies `p` is in one of them. -/
structure Runs (p : Nat → Bool) (n : Nat) (rs : List (Nat × Nat)) : Prop where
  isRun : ∀ r ∈ rs, IsRun p n r
  sorted : rs.Pairwise fun r r' => r'.2 < r.1
  cover : ∀ i < n, p i → ∃ r ∈ rs, r.1 ≤ i ∧ i < r.2

/-- A number that does not satisfy the predicate changes nothing. -/
theorem Runs.skip {rs : List (Nat × Nat)} (h : Runs p n rs) (hp : p n = false) :
    Runs p (n + 1) rs := by
  refine ⟨fun r hr => (h.isRun r hr).succ_of_not hp, h.sorted, ?_⟩
  intro i hi hpi
  rcases Nat.lt_succ_iff_lt_or_eq.mp hi with hlt | rfl
  · exact h.cover i hlt hpi
  · exact absurd hpi (by simp [hp])

/-- A number that satisfies the predicate begins a run when no run ends just before it. -/
theorem Runs.start {rs : List (Nat × Nat)} (h : Runs p n rs) (hp : p n)
    (hall : ∀ r ∈ rs, r.2 < n) : Runs p (n + 1) ((n, n + 1) :: rs) := by
  refine ⟨?_, List.pairwise_cons.mpr ⟨hall, h.sorted⟩, ?_⟩
  · intro r hr
    rcases List.mem_cons.mp hr with rfl | hr
    · refine isRun_singleton hp fun i hi => Bool.eq_false_iff.mpr fun hpi => ?_
      obtain ⟨r, hr, hle, hri⟩ := h.cover i (by omega) hpi
      have hend : r.2 < n := hall r hr
      omega
    · exact (h.isRun r hr).succ_of_lt (hall r hr)
  · intro i hi hpi
    rcases Nat.lt_succ_iff_lt_or_eq.mp hi with hlt | rfl
    · obtain ⟨r, hr, hle, hri⟩ := h.cover i hlt hpi
      exact ⟨r, List.mem_cons_of_mem _ hr, hle, hri⟩
    · exact ⟨_, List.mem_cons_self, le_rfl, hi⟩

/-- The runs after the head of the list end before the bound. -/
theorem Runs.tail_lt {r₀ : Nat × Nat} {rs : List (Nat × Nat)} (h : Runs p n (r₀ :: rs)) :
    ∀ r ∈ rs, r.2 < n := by
  intro r hr
  have hbefore : r.2 < r₀.1 := (List.pairwise_cons.mp h.sorted).1 r hr
  have hhead : IsRun p n r₀ := h.isRun r₀ List.mem_cons_self
  have hne := hhead.nonempty
  have hle := hhead.le
  omega

/-- A number that satisfies the predicate lengthens the run that ends just before it. -/
theorem Runs.grow {a : Nat} {rs : List (Nat × Nat)} (h : Runs p n ((a, n) :: rs)) (hp : p n) :
    Runs p (n + 1) ((a, n + 1) :: rs) := by
  have hhead : IsRun p n (a, n) := h.isRun _ List.mem_cons_self
  obtain ⟨hbefore, hsorted⟩ := List.pairwise_cons.mp h.sorted
  refine ⟨?_, List.pairwise_cons.mpr ⟨hbefore, hsorted⟩, ?_⟩
  · intro r hr
    rcases List.mem_cons.mp hr with rfl | hr
    · exact hhead.grow hp
    · exact (h.isRun r (List.mem_cons_of_mem _ hr)).succ_of_lt (h.tail_lt r hr)
  · intro i hi hpi
    rcases Nat.lt_succ_iff_lt_or_eq.mp hi with hlt | rfl
    · obtain ⟨r, hr, hle, hri⟩ := h.cover i hlt hpi
      rcases List.mem_cons.mp hr with rfl | hr
      · exact ⟨_, List.mem_cons_self, hle, hi⟩
      · exact ⟨r, List.mem_cons_of_mem _ hr, hle, hri⟩
    · exact ⟨_, List.mem_cons_self, Nat.le_of_lt hhead.nonempty, hi⟩

theorem runs_closeRuns (p : Nat → Bool) (n : Nat) : Runs p n (closeRuns p n) := by
  induction n with
  | zero =>
    exact ⟨fun r hr => absurd hr List.not_mem_nil, List.Pairwise.nil,
      fun i hi => absurd hi (Nat.not_lt_zero i)⟩
  | succ n ih =>
    rw [closeRuns]
    by_cases hp : p n
    · rw [if_pos hp]
      cases hrs : closeRuns p n with
      | nil => exact (hrs ▸ ih).start hp fun r hr => absurd hr List.not_mem_nil
      | cons head rs =>
        obtain ⟨a, b⟩ := head
        rw [hrs] at ih
        have hle : b ≤ n := (ih.isRun _ List.mem_cons_self).le
        by_cases hb : b = n
        · subst hb
          simp only [if_true]
          exact ih.grow hp
        · simp only [if_neg hb]
          refine ih.start hp fun r hr => ?_
          rcases List.mem_cons.mp hr with rfl | hr
          · exact lt_of_le_of_ne hle hb
          · exact ih.tail_lt r hr
    · rw [if_neg hp]
      exact ih.skip (Bool.eq_false_iff.mpr hp)

/-! ## The cases of one step -/

theorem closeRuns_skip (hp : p n = false) : closeRuns p (n + 1) = closeRuns p n := by
  rw [closeRuns, if_neg (by simp [hp])]

/-- The listed runs end before `n` when the number before `n` does not satisfy the predicate. -/
theorem end_lt (hprev : ∀ i, i + 1 = n → p i = false) : ∀ r ∈ closeRuns p n, r.2 < n := by
  intro r hr
  have hrun : IsRun p n r := (runs_closeRuns p n).isRun r hr
  by_contra hnot
  have hle := hrun.le
  have hne := hrun.nonempty
  have hlast : p (r.2 - 1) = true := hrun.all (r.2 - 1) (by omega) (by omega)
  rw [hprev (r.2 - 1) (by omega)] at hlast
  exact Bool.false_ne_true hlast

theorem closeRuns_start (hp : p n) (hprev : ∀ i, i + 1 = n → p i = false) :
    closeRuns p (n + 1) = (n, n + 1) :: closeRuns p n := by
  have hend := end_lt hprev
  rw [closeRuns, if_pos hp]
  cases hrs : closeRuns p n with
  | nil => rfl
  | cons head rs =>
    have hlt : head.2 < n := hend head (hrs ▸ List.mem_cons_self)
    simp only [if_neg (Nat.ne_of_lt hlt)]

/-- When the number before satisfies the predicate too, the run that ends there grows. -/
theorem closeRuns_grow (hp : p (n + 1)) (hprev : p n) :
    ∃ a rs, closeRuns p (n + 1) = (a, n + 1) :: rs ∧
      closeRuns p (n + 2) = (a, n + 2) :: rs := by
  obtain ⟨r, hr, -, hlt⟩ := (runs_closeRuns p (n + 1)).cover n (Nat.lt_succ_self n) hprev
  have hle : r.2 ≤ n + 1 := ((runs_closeRuns p (n + 1)).isRun r hr).le
  cases hrs : closeRuns p (n + 1) with
  | nil => exact absurd (hrs ▸ hr) List.not_mem_nil
  | cons head rs =>
    obtain ⟨a, b⟩ := head
    have htail := (hrs ▸ runs_closeRuns p (n + 1) : Runs p (n + 1) ((a, b) :: rs)).tail_lt
    -- the run with `n` in it is the head, since the others end earlier
    have hb : b = n + 1 := by
      rcases List.mem_cons.mp (hrs ▸ hr) with rfl | hr
      · simp only at hle hlt
        omega
      · have hend := htail r hr
        omega
    subst hb
    refine ⟨a, rs, rfl, ?_⟩
    rw [closeRuns, if_pos hp, hrs]
    simp only [if_true]

end MaximalRuns
