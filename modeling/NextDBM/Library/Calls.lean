import Mathlib.Data.List.Forall2
import Mathlib.Logic.Basic

/-!
# Programs that call their environment

A handler is a program that makes calls and goes on with their answers. The answers are not in its
hands: `Runs p es o` says that `p` can make the calls of the trace `es`, with the answers recorded
there, and end with `o`. A property of a handler for every outcome of every call is a property of all
its runs. Programs are put together by `bind`, and a run of a sequence splits where its second part
begins.
-/

namespace Calls

/-- How a call ends. -/
inductive Outcome (α : Type)
  | returned (a : α)
  /-- The call returns an error, whose text is given. -/
  | failed (text : String)
  | panicked
  deriving DecidableEq, Repr

namespace Outcome

/-- The call returned without an error. -/
def succeeded {α : Type} : Outcome α → Bool
  | returned _ => true
  | failed _ => false
  | panicked => false

/-- The call returned an error. -/
def Failed {α : Type} (r : Outcome α) : Prop := ∃ text, r = failed text

protected def bind {α β : Type} (r : Outcome α) (f : α → Outcome β) : Outcome β :=
  match r with
  | returned a => f a
  | failed text => failed text
  | panicked => panicked

instance : Monad Outcome where
  pure := returned
  bind := Outcome.bind

/-- `if err != nil { return …, fmt.Errorf(context+"%v", err) }`. -/
def orError {α : Type} (context : String) : Except String α → Outcome α
  | .ok a => returned a
  | .error err => failed (context ++ err)

theorem failed_bind {α β : Type} {r : Outcome α} {f : α → Outcome β} :
    Failed (r >>= f) ↔ Failed r ∨ ∃ a, r = returned a ∧ Failed (f a) := by
  cases r with
  | returned a =>
    constructor
    · exact fun h => .inr ⟨a, rfl, h⟩
    · rintro (⟨text, h⟩ | ⟨a', h, hf⟩)
      · cases h
      · cases h
        exact hf
  | failed text => exact ⟨fun _ => .inl ⟨text, rfl⟩, fun _ => ⟨text, rfl⟩⟩
  | panicked =>
    constructor
    · rintro ⟨text, h⟩
      cases h
    · rintro (⟨text, h⟩ | ⟨a, h, -⟩)
      · cases h
      · cases h

theorem bind_eq_returned {α β : Type} {r : Outcome α} {f : α → Outcome β} {b : β} :
    r >>= f = returned b ↔ ∃ a, r = returned a ∧ f a = returned b := by
  cases r with
  | returned a =>
    constructor
    · exact fun h => ⟨a, rfl, h⟩
    · rintro ⟨a', ha, h⟩
      cases ha
      exact h
  | failed text => exact iff_of_false (fun h => by cases h) fun ⟨_, h, _⟩ => by cases h
  | panicked => exact iff_of_false (fun h => by cases h) fun ⟨_, h, _⟩ => by cases h

theorem failed_orError {α : Type} {context : String} {x : Except String α} :
    Failed (orError context x) ↔ ∃ err, x = .error err := by
  cases x with
  | ok a =>
    constructor
    · rintro ⟨text, h⟩
      cases h
    · rintro ⟨err, h⟩
      cases h
  | error err => exact ⟨fun _ => ⟨err, rfl⟩, fun _ => ⟨_, rfl⟩⟩

theorem not_failed_returned {α : Type} {a : α} : ¬ Failed (returned a) := by
  rintro ⟨text, h⟩
  cases h

theorem bind_pure_eq_panicked {α β : Type} {r : Outcome α} {g : α → β} :
    (r >>= fun a => pure (g a)) = panicked ↔ r = panicked := by
  cases r with
  | returned a => exact iff_of_false (fun h => by cases h) (fun h => by cases h)
  | failed text => exact iff_of_false (fun h => by cases h) (fun h => by cases h)
  | panicked => exact iff_of_true rfl rfl

/-- A loop whose body fails on the bad elements and goes on with the others. -/
theorem foldlM_cases {α σ : Type} {f : σ → α → Outcome σ} {bad : α → Prop}
    (hbad : ∀ s a, bad a → Failed (f s a)) (hgood : ∀ s a, ¬ bad a → ∃ s', f s a = returned s')
    (xs : List α) (s : σ) :
    (Failed (xs.foldlM f s) ∧ ∃ a ∈ xs, bad a) ∨
      (∃ s', xs.foldlM f s = returned s') ∧ ∀ a ∈ xs, ¬ bad a := by
  induction xs generalizing s with
  | nil => exact .inr ⟨⟨s, rfl⟩, fun a ha => absurd ha List.not_mem_nil⟩
  | cons a xs ih =>
    rw [List.foldlM_cons]
    by_cases ha : bad a
    · exact .inl ⟨failed_bind.mpr (.inl (hbad s a ha)), a, List.mem_cons_self, ha⟩
    · obtain ⟨s₁, hs₁⟩ := hgood s a ha
      rw [hs₁]
      rcases ih s₁ with ⟨hfailed, b, hb, hbad⟩ | ⟨hreturned, hrest⟩
      · exact .inl ⟨hfailed, b, List.mem_cons_of_mem a hb, hbad⟩
      · exact .inr ⟨hreturned, List.forall_mem_cons.mpr ⟨ha, hrest⟩⟩

/-- A loop that collects what its body returns. -/
theorem foldlM_append_eq {α β : Type} {f : α → Outcome β} {xs : List α} {bs bs' : List β} :
    xs.foldlM (fun bs a => do let b ← f a; pure (bs ++ [b])) bs = returned bs' ↔
      ∃ added, bs' = bs ++ added ∧ List.Forall₂ (fun a b => f a = returned b) xs added := by
  induction xs generalizing bs with
  | nil =>
    constructor
    · intro h
      cases h
      exact ⟨[], (List.append_nil _).symm, .nil⟩
    · rintro ⟨added, rfl, h⟩
      cases h
      exact congrArg returned (List.append_nil bs).symm
  | cons a xs ih =>
    rw [List.foldlM_cons]
    constructor
    · intro h
      cases hfa : f a with
      | returned b =>
        rw [hfa] at h
        obtain ⟨added, hadded, hxs⟩ := ih.mp h
        exact ⟨b :: added, by rw [hadded, List.append_assoc, List.singleton_append], .cons hfa hxs⟩
      | failed text => rw [hfa] at h; cases h
      | panicked => rw [hfa] at h; cases h
    · rintro ⟨added, rfl, h⟩
      cases h with
      | @cons _ b _ added hfa hxs =>
        rw [hfa]
        exact ih.mpr ⟨added, by rw [List.append_assoc, List.singleton_append], hxs⟩

/-- A loop whose body never returns an error returns none. -/
theorem not_failed_foldlM {α σ : Type} {f : σ → α → Outcome σ} (hf : ∀ s a, ¬ Failed (f s a))
    (xs : List α) (s : σ) : ¬ Failed (xs.foldlM f s) := by
  induction xs generalizing s with
  | nil => exact not_failed_returned
  | cons a xs ih =>
    rw [List.foldlM_cons, failed_bind]
    rintro (h | ⟨s', -, h⟩)
    · exact hf s a h
    · exact ih s' h

theorem returned_ne_panicked {α : Type} {a : α} : returned a ≠ panicked := by simp

theorem failed_ne_panicked {α : Type} {text : String} : (failed text : Outcome α) ≠ panicked := by
  simp

end Outcome

/-- A program that calls `C`, is answered by `R`, and ends with a value or leaves early with an
`X`. -/
inductive Prog (C : Type) (R : C → Type) (X α : Type) : Type
  | done (a : α)
  | stop (x : X)
  | call (c : C) (k : R c → Prog C R X α)

/-- A call and its answer. -/
abbrev Event {C : Type} (R : C → Type) : Type := (c : C) × R c

variable {C : Type} {R : C → Type} {X Y α β : Type}

namespace Prog

protected def bind : Prog C R X α → (α → Prog C R X β) → Prog C R X β
  | done a, f => f a
  | stop x, _ => stop x
  | call c k, f => call c fun r => (k r).bind f

instance : Monad (Prog C R X) where
  pure := done
  bind := Prog.bind

/-- Make one call and return its answer. -/
def ask (c : C) : Prog C R X (R c) := call c done

/-- Go on with `h` where the program leaves early. -/
def handle : Prog C R X α → (X → Prog C R Y α) → Prog C R Y α
  | done a, _ => done a
  | stop x, h => h x
  | call c k, h => call c fun r => (k r).handle h

/-- Do `f` for every element in order, as long as none leaves early. -/
def each (f : β → Prog C R X Unit) : List β → Prog C R X Unit
  | [] => done ()
  | b :: bs => do
    f b
    each f bs

/-- Run with the answers of one host. -/
def exec (host : (c : C) → R c) : Prog C R X α → List (Event R) × Except X α
  | done a => ([], .ok a)
  | stop x => ([], .error x)
  | call c k =>
    let (es, o) := (k (host c)).exec host
    (⟨c, host c⟩ :: es, o)

/-- Every call that the program can make is in `P`. -/
def Only (P : C → Prop) : Prog C R X α → Prop
  | done _ => True
  | stop _ => True
  | call c k => P c ∧ ∀ r, (k r).Only P

end Prog

open Prog

/-- The program can make these calls, with these answers, and end so. -/
inductive Runs : Prog C R X α → List (Event R) → Except X α → Prop
  | done (a : α) : Runs (done a) [] (.ok a)
  | stop (x : X) : Runs (stop x) [] (.error x)
  | call {c : C} {k : R c → Prog C R X α} {es : List (Event R)} {o : Except X α} (r : R c)
      (h : Runs (k r) es o) : Runs (call c k) (⟨c, r⟩ :: es) o

variable {p : Prog C R X α} {f : α → Prog C R X β} {es : List (Event R)} {c : C} {x : X} {a : α}

@[simp] theorem runs_done {o : Except X α} :
    Runs (Prog.done a : Prog C R X α) es o ↔ es = [] ∧ o = .ok a := by
  constructor
  · intro h
    cases h
    exact ⟨rfl, rfl⟩
  · rintro ⟨rfl, rfl⟩
    exact .done a

@[simp] theorem runs_pure {o : Except X α} :
    Runs (pure a : Prog C R X α) es o ↔ es = [] ∧ o = .ok a := runs_done

@[simp] theorem runs_stop {o : Except X α} :
    Runs (Prog.stop x : Prog C R X α) es o ↔ es = [] ∧ o = .error x := by
  constructor
  · intro h
    cases h
    exact ⟨rfl, rfl⟩
  · rintro ⟨rfl, rfl⟩
    exact .stop x

/-- A run of a call is an answer and a run of what follows. -/
theorem runs_call {k : R c → Prog C R X α} {o : Except X α} :
    Runs (Prog.call c k) es o ↔ ∃ r es', es = ⟨c, r⟩ :: es' ∧ Runs (k r) es' o := by
  constructor
  · intro h
    cases h with
    | call r h => exact ⟨r, _, rfl, h⟩
  · rintro ⟨r, es', rfl, h⟩
    exact .call r h

@[simp] theorem runs_ask {o : Except X (R c)} :
    Runs (ask c) es o ↔ ∃ r, es = [⟨c, r⟩] ∧ o = .ok r := by
  rw [ask, runs_call]
  constructor
  · rintro ⟨r, es', rfl, h⟩
    obtain ⟨rfl, rfl⟩ := runs_done.mp h
    exact ⟨r, rfl, rfl⟩
  · rintro ⟨r, rfl, rfl⟩
    exact ⟨r, [], rfl, .done r⟩

/-- The first call of a sequence. -/
theorem runs_ask_bind {k : R c → Prog C R X β} {o : Except X β} :
    Runs (ask c >>= k) es o ↔ ∃ r es', es = ⟨c, r⟩ :: es' ∧ Runs (k r) es' o :=
  runs_call

/-- A run of a sequence leaves early in its first part, or splits where its second part begins. -/
theorem runs_bind {o : Except X β} :
    Runs (p >>= f) es o ↔
      (∃ x, Runs p es (.error x) ∧ o = .error x) ∨
      ∃ a es₁ es₂, es = es₁ ++ es₂ ∧ Runs p es₁ (.ok a) ∧ Runs (f a) es₂ o := by
  induction p generalizing es with
  | done a =>
    constructor
    · intro h
      exact .inr ⟨a, [], es, rfl, .done a, h⟩
    · rintro (⟨x, h, -⟩ | ⟨a', es₁, es₂, rfl, h, hf⟩)
      · cases h
      · cases h
        exact hf
  | stop x =>
    constructor
    · intro h
      obtain ⟨rfl, rfl⟩ := runs_stop.mp h
      exact .inl ⟨x, .stop x, rfl⟩
    · rintro (⟨x', h, rfl⟩ | ⟨a', es₁, es₂, rfl, h, hf⟩)
      · cases h
        exact .stop x
      · cases h
  | call c k ih =>
    constructor
    · intro h
      obtain ⟨r, es', rfl, hk⟩ := runs_call.mp h
      rcases (ih r).mp hk with ⟨x, hx, rfl⟩ | ⟨a, es₁, es₂, rfl, h₁, h₂⟩
      · exact .inl ⟨x, .call r hx, rfl⟩
      · exact .inr ⟨a, ⟨c, r⟩ :: es₁, es₂, rfl, .call r h₁, h₂⟩
    · rintro (⟨x, h, rfl⟩ | ⟨a, es₁, es₂, rfl, h, hf⟩)
      · obtain ⟨r, es', rfl, hk⟩ := runs_call.mp h
        exact .call r ((ih r).mpr (.inl ⟨x, hk, rfl⟩))
      · obtain ⟨r, es', rfl, hk⟩ := runs_call.mp h
        exact .call r ((ih r).mpr (.inr ⟨a, es', es₂, rfl, hk, hf⟩))

/-- A handled program ends as it does, or goes on where it leaves early. -/
theorem runs_handle {h : X → Prog C R Y α} {o : Except Y α} :
    Runs (p.handle h) es o ↔
      (∃ a, Runs p es (.ok a) ∧ o = .ok a) ∨
      ∃ x es₁ es₂, es = es₁ ++ es₂ ∧ Runs p es₁ (.error x) ∧ Runs (h x) es₂ o := by
  induction p generalizing es with
  | done a =>
    constructor
    · intro hr
      obtain ⟨rfl, rfl⟩ := runs_done.mp hr
      exact .inl ⟨a, .done a, rfl⟩
    · rintro (⟨a', hr, rfl⟩ | ⟨x, es₁, es₂, rfl, hr, hh⟩)
      · cases hr
        exact .done a
      · cases hr
  | stop x =>
    constructor
    · intro hr
      exact .inr ⟨x, [], es, rfl, .stop x, hr⟩
    · rintro (⟨a', hr, -⟩ | ⟨x', es₁, es₂, rfl, hr, hh⟩)
      · cases hr
      · cases hr
        exact hh
  | call c k ih =>
    constructor
    · intro hr
      obtain ⟨r, es', rfl, hk⟩ := runs_call.mp hr
      rcases (ih r).mp hk with ⟨a, ha, rfl⟩ | ⟨x, es₁, es₂, rfl, h₁, h₂⟩
      · exact .inl ⟨a, .call r ha, rfl⟩
      · exact .inr ⟨x, ⟨c, r⟩ :: es₁, es₂, rfl, .call r h₁, h₂⟩
    · rintro (⟨a, hr, rfl⟩ | ⟨x, es₁, es₂, rfl, hr, hh⟩)
      · obtain ⟨r, es', rfl, hk⟩ := runs_call.mp hr
        exact .call r ((ih r).mpr (.inl ⟨a, hk, rfl⟩))
      · obtain ⟨r, es', rfl, hk⟩ := runs_call.mp hr
        exact .call r ((ih r).mpr (.inr ⟨x, es', es₂, rfl, hk, hh⟩))

/-- What a host answers is a run. -/
theorem runs_exec (host : (c : C) → R c) (p : Prog C R X α) :
    Runs p (p.exec host).1 (p.exec host).2 := by
  induction p with
  | done a => exact .done a
  | stop x => exact .stop x
  | call c k ih => exact .call (host c) (ih (host c))

/-! ## Calls that may fail -/

section Fallible
variable {A : C → Type} {es : List (Event fun c => Outcome (A c))} {onPanic : X} {onError : String → X}

/-- Make a call and look at its error; a panic in it leaves the program. -/
def attempt (onPanic : X) (c : C) : Prog C (fun c => Outcome (A c)) X (Except String (A c)) :=
  .call c fun
    | .returned a => .done (.ok a)
    | .failed e => .done (.error e)
    | .panicked => .stop onPanic

/-- Make a call; an error or a panic of it leaves the program. -/
def obtained (onPanic : X) (onError : String → X) (c : C) :
    Prog C (fun c => Outcome (A c)) X (A c) :=
  .call c fun
    | .returned a => .done a
    | .failed e => .stop (onError e)
    | .panicked => .stop onPanic

theorem runs_attempt_bind {k : Except String (A c) → Prog C (fun c => Outcome (A c)) X β}
    {o : Except X β} :
    Runs (attempt onPanic c >>= k) es o ↔
      (∃ a es', es = ⟨c, .returned a⟩ :: es' ∧ Runs (k (.ok a)) es' o) ∨
      (∃ e es', es = ⟨c, .failed e⟩ :: es' ∧ Runs (k (.error e)) es' o) ∨
      es = [⟨c, .panicked⟩] ∧ o = .error onPanic := by
  constructor
  · intro h
    obtain ⟨r, es', rfl, hk⟩ := runs_call.mp h
    cases r with
    | returned a => exact .inl ⟨a, es', rfl, hk⟩
    | failed e => exact .inr (.inl ⟨e, es', rfl, hk⟩)
    | panicked =>
      obtain ⟨rfl, rfl⟩ := runs_stop.mp hk
      exact .inr (.inr ⟨rfl, rfl⟩)
  · rintro (⟨a, es', rfl, hk⟩ | ⟨e, es', rfl, hk⟩ | ⟨rfl, rfl⟩)
    · exact runs_call.mpr ⟨Outcome.returned a, es', rfl, hk⟩
    · exact runs_call.mpr ⟨Outcome.failed e, es', rfl, hk⟩
    · exact runs_call.mpr ⟨Outcome.panicked, [], rfl, .stop onPanic⟩

theorem runs_obtained_bind {k : A c → Prog C (fun c => Outcome (A c)) X β} {o : Except X β} :
    Runs (obtained onPanic onError c >>= k) es o ↔
      (∃ a es', es = ⟨c, .returned a⟩ :: es' ∧ Runs (k a) es' o) ∨
      (∃ e, es = [⟨c, .failed e⟩] ∧ o = .error (onError e)) ∨
      es = [⟨c, .panicked⟩] ∧ o = .error onPanic := by
  constructor
  · intro h
    obtain ⟨r, es', rfl, hk⟩ := runs_call.mp h
    cases r with
    | returned a => exact .inl ⟨a, es', rfl, hk⟩
    | failed e =>
      obtain ⟨rfl, rfl⟩ := runs_stop.mp hk
      exact .inr (.inl ⟨e, rfl, rfl⟩)
    | panicked =>
      obtain ⟨rfl, rfl⟩ := runs_stop.mp hk
      exact .inr (.inr ⟨rfl, rfl⟩)
  · rintro (⟨a, es', rfl, hk⟩ | ⟨e, rfl, rfl⟩ | ⟨rfl, rfl⟩)
    · exact runs_call.mpr ⟨Outcome.returned a, es', rfl, hk⟩
    · exact runs_call.mpr ⟨Outcome.failed e, [], rfl, .stop (onError e)⟩
    · exact runs_call.mpr ⟨Outcome.panicked, [], rfl, .stop onPanic⟩

end Fallible

section Only
variable {P : C → Prop}

theorem only_bind (hp : p.Only P) (hf : ∀ a, (f a).Only P) : (p >>= f).Only P := by
  induction p with
  | done a => exact hf a
  | stop x => trivial
  | call c k ih => exact ⟨hp.1, fun r => ih r (hp.2 r)⟩

theorem only_ask (h : P c) : (ask c : Prog C R X (R c)).Only P := ⟨h, fun _ => trivial⟩

theorem only_each {g : β → Prog C R X Unit} (h : ∀ b, (g b).Only P) (bs : List β) :
    (each g bs).Only P := by
  induction bs with
  | nil => trivial
  | cons b bs ih => exact only_bind (h b) fun _ => ih

/-- A run of a program makes no calls but those that the program can make. -/
theorem Runs.only {o : Except X α} (h : Runs p es o) (hp : p.Only P) : ∀ e ∈ es, P e.1 := by
  induction h with
  | done a => exact fun e he => absurd he List.not_mem_nil
  | stop x => exact fun e he => absurd he List.not_mem_nil
  | call r h ih =>
    intro e he
    rcases List.mem_cons.mp he with rfl | he
    · exact hp.1
    · exact ih (hp.2 r) e he

end Only

end Calls
