import Mathlib.Logic.Relation

/-!
# Runs of a partial transition function

A system is given by a step function `S → A → Option S`: `none` means that the action is not
enabled. A run is a list of actions executed from left to right (`exec`), and `Reaches step ok` is
reachability by steps whose action satisfies the guard `ok` in the state where it is taken. The rule
`Reaches.invariant` is the only induction over runs that a development needs: it reduces a property
of every reachable state to one lemma about a single step.
-/

namespace Transition

variable {S A : Type*} {step : S → A → Option S} {ok : S → A → Prop} {s t u : S} {a : A}

/-- Execute a list of actions from left to right; `none` when one of them is not enabled. -/
def exec (step : S → A → Option S) : S → List A → Option S
  | s, [] => some s
  | s, a :: as => (step s a).bind fun s' => exec step s' as

/-- One step, by some action that the guard admits. -/
def StepBy (step : S → A → Option S) (ok : S → A → Prop) (s t : S) : Prop :=
  ∃ a, ok s a ∧ step s a = some t

/-- Reachability by guarded steps. -/
def Reaches (step : S → A → Option S) (ok : S → A → Prop) : S → S → Prop :=
  Relation.ReflTransGen (StepBy step ok)

/-- The guard that admits every action. -/
def Any (_ : S) (_ : A) : Prop := True

theorem Reaches.refl (s : S) : Reaches step ok s s := Relation.ReflTransGen.refl

/-- Put one guarded step in front of a run. -/
theorem Reaches.head (hok : ok s a) (hstep : step s a = some t) (h : Reaches step ok t u) :
    Reaches step ok s u :=
  Relation.ReflTransGen.head ⟨a, hok, hstep⟩ h

/-- **Invariant rule**: what one guarded step preserves holds in every state of a guarded run. -/
theorem Reaches.invariant {I : S → Prop}
    (hstep : ∀ s a t, I s → ok s a → step s a = some t → I t)
    (h : Reaches step ok s t) (hs : I s) : I t := by
  induction h with
  | refl => exact hs
  | tail _ hlast ih =>
    obtain ⟨a, hok, hst⟩ := hlast
    exact hstep _ a _ ih hok hst

/-- Every action of a list meets the guard in the state where it is executed. -/
def AllOk (step : S → A → Option S) (ok : S → A → Prop) : S → List A → Prop
  | _, [] => True
  | s, a :: as => ok s a ∧ ∀ t, step s a = some t → AllOk step ok t as

theorem allOk_cons_iff {as : List A} (h : step s a = some t) :
    AllOk step ok s (a :: as) ↔ ok s a ∧ AllOk step ok t as := by
  show (ok s a ∧ ∀ u, step s a = some u → AllOk step ok u as) ↔ _
  rw [h]
  constructor
  · exact fun hall => ⟨hall.1, hall.2 t rfl⟩
  · rintro ⟨hok, hrest⟩
    refine ⟨hok, fun u hu => ?_⟩
    obtain rfl := Option.some.inj hu
    exact hrest

/-- Whether a list of actions meets a decidable guard is found by executing it. -/
instance AllOk.decidable [∀ s a, Decidable (ok s a)] :
    ∀ (s : S) (as : List A), Decidable (AllOk step ok s as)
  | _, [] => isTrue trivial
  | s, a :: as =>
    match h : step s a with
    | none => decidable_of_iff (ok s a)
        ⟨fun hok => ⟨hok, fun t ht => by rw [h] at ht; cases ht⟩, fun hall => hall.1⟩
    | some t =>
      have := AllOk.decidable t as
      decidable_of_iff (ok s a ∧ AllOk step ok t as) (allOk_cons_iff h).symm

theorem allOk_any (s : S) (as : List A) : AllOk step Any s as := by
  induction as generalizing s with
  | nil => trivial
  | cons a as ih => exact ⟨trivial, fun t _ => ih t⟩

/-- An executed list of actions that meet the guard is a guarded run. -/
theorem reaches_of_exec {as : List A} (h : exec step s as = some t) (hok : AllOk step ok s as) :
    Reaches step ok s t := by
  induction as generalizing s with
  | nil =>
    simp only [exec, Option.some.injEq] at h
    exact h ▸ Reaches.refl s
  | cons a as ih =>
    obtain ⟨s', hs', hrest⟩ := Option.bind_eq_some_iff.mp h
    exact Reaches.head hok.1 hs' (ih hrest (hok.2 s' hs'))

/-- **Termination**: when every step decreases a measure, a state is reached in which no action is
enabled. -/
theorem exists_terminal (measure : S → Nat)
    (hstep : ∀ s a t, step s a = some t → measure t < measure s) (s : S) :
    ∃ t, Reaches step Any s t ∧ ∀ a, step t a = none := by
  induction hn : measure s using Nat.strongRecOn generalizing s with
  | _ n ih =>
    by_cases henabled : ∃ a t, step s a = some t
    · obtain ⟨a, t, hst⟩ := henabled
      have hlt : measure t < n := hn ▸ hstep s a t hst
      obtain ⟨u, hreach, hterminal⟩ := ih (measure t) hlt t rfl
      exact ⟨u, Reaches.head trivial hst hreach, hterminal⟩
    · refine ⟨s, Reaches.refl s, fun a => ?_⟩
      cases h : step s a with
      | none => rfl
      | some t => exact absurd ⟨a, t, h⟩ henabled

end Transition
