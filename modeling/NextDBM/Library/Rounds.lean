import Mathlib.Tactic.ByContra

/-!
# Loops that need not end

A round of a loop goes on with a new state or leaves the loop with a result, and its environment may
differ from round to round. `after body s n` is where the loop is after `n` rounds. The loop ends when
it has been left after some number of them.
-/

namespace Rounds

variable {σ β : Type*} {body : Nat → σ → σ ⊕ β} {s s' : σ} {b : β} {m n : Nat}

/-- The loop after `n` rounds: still in it with a state, or left with a result. -/
def after (body : Nat → σ → σ ⊕ β) (s : σ) : Nat → σ ⊕ β
  | 0 => .inl s
  | n + 1 =>
    match after body s n with
    | .inl s' => body n s'
    | .inr b => .inr b

/-- The loop is left after some number of rounds. -/
def Ends (body : Nat → σ → σ ⊕ β) (s : σ) : Prop := ∃ n b, after body s n = .inr b

theorem after_succ_of_inl (h : after body s n = .inl s') : after body s (n + 1) = body n s' := by
  rw [after, h]

theorem after_succ_of_inr (h : after body s n = .inr b) : after body s (n + 1) = .inr b := by
  rw [after, h]

/-- A loop that has been left stays left. -/
theorem after_of_le (h : after body s m = .inr b) (hle : m ≤ n) : after body s n = .inr b := by
  induction hle with
  | refl => exact h
  | step _ ih => exact after_succ_of_inr ih

/-- **Invariant rule**: what every round that goes on preserves holds as long as the loop goes on. -/
theorem after_invariant {I : σ → Prop} (hs : I s)
    (hbody : ∀ i s₁ s₂, I s₁ → body i s₁ = .inl s₂ → I s₂) (h : after body s n = .inl s') :
    I s' := by
  induction n generalizing s' with
  | zero =>
    obtain rfl := Sum.inl.inj h
    exact hs
  | succ n ih =>
    cases hn : after body s n with
    | inl s₁ =>
      rw [after_succ_of_inl hn] at h
      exact hbody n s₁ s' (ih hn) h
    | inr b =>
      rw [after_succ_of_inr hn] at h
      cases h

/-- A round that leaves the loop from every state of the invariant is the last one at the latest. -/
theorem left_of_round {I : σ → Prop} (hs : I s)
    (hbody : ∀ i s₁ s₂, I s₁ → body i s₁ = .inl s₂ → I s₂)
    (hlast : ∀ s₁, I s₁ → ∃ b, body n s₁ = .inr b) : ∃ b, after body s (n + 1) = .inr b := by
  cases hn : after body s n with
  | inl s₁ =>
    rw [after_succ_of_inl hn]
    exact hlast s₁ (after_invariant hs hbody hn)
  | inr b => exact ⟨b, after_succ_of_inr hn⟩

/-- A loop all of whose rounds go on in the same state is never left. -/
theorem after_of_goesOn (h : ∀ i, body i s = .inl s) (n : Nat) : after body s n = .inl s := by
  induction n with
  | zero => rfl
  | succ n ih => rw [after_succ_of_inl ih, h n]

theorem not_ends_of_goesOn (h : ∀ i, body i s = .inl s) : ¬ Ends body s := by
  rintro ⟨n, b, hn⟩
  rw [after_of_goesOn h n] at hn
  cases hn

/-- A loop without a state ends if and only if one of its rounds leaves it. -/
theorem ends_iff {body : Nat → Unit → Unit ⊕ β} :
    Ends body () ↔ ∃ i b, body i () = .inr b := by
  constructor
  · intro hends
    by_contra hnone
    refine not_ends_of_goesOn (fun i => ?_) hends
    cases hi : body i () with
    | inl u => rfl
    | inr b => exact absurd ⟨i, b, hi⟩ hnone
  · rintro ⟨i, b, hi⟩
    obtain ⟨b', hb'⟩ := left_of_round (n := i) (I := fun _ => True) trivial
      (fun _ _ _ _ _ => trivial) fun _ _ => ⟨b, hi⟩
    exact ⟨i + 1, b', hb'⟩

end Rounds
