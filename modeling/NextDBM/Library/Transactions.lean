import Mathlib.Data.List.Forall2

/-!
# Transactions beside a memory

A service works on a database inside transactions and writes to a memory (a cache) that the database
knows nothing of. The database may fail at any statement, the commit included: `served` says how many
more statements it serves, `none` that it does not fail. A transaction whose body stops with an error
is rolled back: the database is as it was before, the memory keeps what the body wrote to it.
-/

namespace Transaction

/-- What a service works on. -/
structure World (D M : Type) where
  db : D
  memory : M
  /-- How many more statements the database serves before it fails. -/
  served : Option Nat := none

/-- The database serves at least `n` more statements. -/
def Serves (served : Option Nat) (n : Nat) : Prop := ∀ m ∈ served, n ≤ m

instance (served : Option Nat) (n : Nat) : Decidable (Serves served n) :=
  inferInstanceAs (Decidable (∀ m ∈ served, n ≤ m))

theorem serves_none (n : Nat) : Serves none n := fun _ h => nomatch h

theorem serves_zero (served : Option Nat) : Serves served 0 := fun m _ => Nat.zero_le m

theorem serves_one {served : Option Nat} : Serves served 1 ↔ served ≠ some 0 := by
  cases served with
  | none => exact ⟨fun _ => nofun, fun _ => serves_none 1⟩
  | some m =>
    have hiff : Serves (some m) 1 ↔ 1 ≤ m := by simp [Serves]
    rw [hiff, ne_eq, Option.some.injEq]
    omega

theorem Serves.mono {served : Option Nat} {m n : Nat} (h : Serves served n) (hle : m ≤ n) :
    Serves served m := fun k hk => Nat.le_trans hle (h k hk)

/-- What is left after `n` statements. -/
def spend (n : Nat) (served : Option Nat) : Option Nat := served.map (· - n)

@[simp] theorem spend_none (n : Nat) : spend n none = none := rfl

@[simp] theorem spend_spend (m n : Nat) (served : Option Nat) :
    spend n (spend m served) = spend (m + n) served := by
  cases served with
  | none => rfl
  | some k => simp [spend, Nat.sub_sub]

/-- Serving one run of statements after another. -/
theorem serves_add {served : Option Nat} {m n : Nat} :
    Serves served (m + n) ↔ Serves served m ∧ Serves (spend m served) n := by
  cases served with
  | none => exact ⟨fun _ => ⟨serves_none m, serves_none n⟩, fun _ => serves_none (m + n)⟩
  | some k =>
    simp only [Serves, spend, Option.mem_def, Option.some.injEq, forall_eq', Option.map_some]
    omega

/-- A piece of work: it stops with an error or returns a value, and leaves the world changed. -/
def Work (D M E α : Type) : Type := World D M → Except E α × World D M

variable {D M E α β : Type} {w w' : World D M}

namespace Work

protected def pure (a : α) : Work D M E α := fun w => (.ok a, w)

protected def bind (x : Work D M E α) (f : α → Work D M E β) : Work D M E β := fun w =>
  match x w with
  | (.ok a, w') => f a w'
  | (.error e, w') => (.error e, w')

instance : Monad (Work D M E) where
  pure := Work.pure
  bind := Work.bind

theorem bind_run_ok {x : Work D M E α} {f : α → Work D M E β} {a : α} (h : x w = (.ok a, w')) :
    (x >>= f) w = f a w' := by
  show (match x w with
    | (.ok a, w') => f a w'
    | (.error e, w') => (.error e, w')) = f a w'
  rw [h]

theorem bind_run_error {x : Work D M E α} {f : α → Work D M E β} {e : E}
    (h : x w = (.error e, w')) : (x >>= f) w = (.error e, w') := by
  show (match x w with
    | (.ok a, w') => f a w'
    | (.error e, w') => (.error e, w')) = (.error e, w')
  rw [h]

/-- A sequence returns when both parts do. -/
theorem bind_ok {x : Work D M E α} {f : α → Work D M E β} {b : β} :
    (x >>= f) w = (.ok b, w') ↔ ∃ a w₁, x w = (.ok a, w₁) ∧ f a w₁ = (.ok b, w') := by
  rcases h : x w with ⟨r, w₁⟩
  cases r with
  | ok a =>
    rw [bind_run_ok h]
    constructor
    · exact fun h' => ⟨a, w₁, rfl, h'⟩
    · rintro ⟨a', w₂, heq, h'⟩
      cases heq
      exact h'
  | error e =>
    rw [bind_run_error h]
    constructor
    · intro h'
      cases h'
    · rintro ⟨a', w₂, heq, -⟩
      cases heq

/-- A sequence stops in its first part or in its second. -/
theorem bind_error {x : Work D M E α} {f : α → Work D M E β} {e : E} :
    (x >>= f) w = (.error e, w') ↔
      x w = (.error e, w') ∨ ∃ a w₁, x w = (.ok a, w₁) ∧ f a w₁ = (.error e, w') := by
  rcases h : x w with ⟨r, w₁⟩
  cases r with
  | ok a =>
    rw [bind_run_ok h]
    constructor
    · exact fun h' => .inr ⟨a, w₁, rfl, h'⟩
    · rintro (heq | ⟨a', w₂, heq, h'⟩)
      · cases heq
      · cases heq
        exact h'
  | error e' =>
    rw [bind_run_error h]
    constructor
    · intro h'
      cases h'
      exact .inl rfl
    · rintro (heq | ⟨a', w₂, heq, -⟩)
      · cases heq
        rfl
      · cases heq

/-- The work of a loop over a list, which stops at the first error. -/
def each (f : α → Work D M E Unit) : List α → Work D M E Unit
  | [] => pure ()
  | a :: as => do
    f a
    each f as

/-- Stop with an error. -/
def fail (e : E) : Work D M E α := fun w => (.error e, w)

/-- A computation that does not touch the database. -/
def ofExcept (x : Except E α) : Work D M E α := fun w => (x, w)

/-- One statement of the database, which answers `fault` when it does not serve it. -/
def statement (fault : E) (f : D → Except E (α × D)) : Work D M E α := fun w =>
  match w.served with
  | some 0 => (.error fault, w)
  | served =>
    match f w.db with
    | .ok (a, db) => (.ok a, { w with db, served := spend 1 served })
    | .error e => (.error e, { w with served := spend 1 served })

/-- A write to the memory. -/
def touch (g : M → M) : Work D M E Unit := fun w => (.ok (), { w with memory := g w.memory })

/-- Work whose error is dropped. -/
def ignore (x : Work D M E α) : Work D M E Unit := fun w => (.ok (), (x w).2)

/-- Run the body in a transaction; the commit is a statement of its own. -/
def transaction (fault : E) (body : Work D M E α) : Work D M E α := fun w =>
  match body w with
  | (.ok a, w') =>
    if w'.served = some 0 then (.error fault, { w' with db := w.db })
    else (.ok a, { w' with served := spend 1 w'.served })
  | (.error e, w') => (.error e, { w' with db := w.db })

theorem touch_run (g : M → M) (w : World D M) :
    (touch g : Work D M E Unit) w = (.ok (), { w with memory := g w.memory }) := rfl

section Rules

variable {fault e : E} {f : D → Except E (α × D)} {body : Work D M E α} {a : α}

theorem ofExcept_eq_ok {x : Except E α} : ofExcept x w = (.ok a, w') ↔ x = .ok a ∧ w' = w := by
  unfold ofExcept
  constructor
  · intro h
    cases h
    exact ⟨rfl, rfl⟩
  · rintro ⟨rfl, rfl⟩
    rfl

/-- A statement returns when the database serves it and it does not fail by itself. -/
theorem statement_eq_ok : statement fault f w = (.ok a, w') ↔ Serves w.served 1 ∧
    ∃ db, f w.db = .ok (a, db) ∧ w' = { w with db, served := spend 1 w.served } := by
  unfold statement
  split
  · next hserved =>
    rw [hserved]
    constructor
    · intro h
      cases h
    · rintro ⟨hserves, -⟩
      exact absurd hserves (by decide)
  · next hserved =>
    have hserves : Serves w.served 1 := serves_one.mpr hserved
    split
    · next a' db hf =>
      constructor
      · intro h
        cases h
        exact ⟨hserves, db, hf, rfl⟩
      · rintro ⟨-, db', hf', rfl⟩
        rw [hf] at hf'
        cases hf'
        rfl
    · next hf =>
      constructor
      · intro h
        cases h
      · rintro ⟨-, db', hf', -⟩
        rw [hf] at hf'
        cases hf'

/-- A statement that returns did what it does without faults. -/
theorem statement_ok (h : statement fault f w = (.ok a, w')) :
    f w.db = .ok (a, w'.db) ∧ w'.memory = w.memory := by
  obtain ⟨-, db, hf, rfl⟩ := statement_eq_ok.mp h
  exact ⟨hf, rfl⟩

/-- A statement that fails changes nothing. -/
theorem statement_error (h : statement fault f w = (.error e, w')) :
    w'.db = w.db ∧ w'.memory = w.memory := by
  unfold statement at h
  split at h
  · cases h
    exact ⟨rfl, rfl⟩
  · split at h
    · cases h
    · cases h
      exact ⟨rfl, rfl⟩

/-- A statement fails when it is not served or fails by itself. -/
theorem statement_error_cases (h : statement fault f w = (.error e, w')) :
    ¬ Serves w.served 1 ∨ f w.db = .error e := by
  cases hf : f w.db with
  | ok r =>
    obtain ⟨a, db⟩ := r
    refine .inl fun hserves => ?_
    have hok : statement fault f w = (.ok a, { w with db, served := spend 1 w.served }) :=
      statement_eq_ok.mpr ⟨hserves, db, hf, rfl⟩
    rw [hok] at h
    cases h
  | error e' =>
    by_cases hserves : Serves w.served 1
    · refine .inr ?_
      unfold statement at h
      split at h
      · next hserved => exact absurd hserved (serves_one.mp hserves)
      · rw [hf] at h
        cases h
        rfl
    · exact .inl hserves

/-- A statement goes through, or it fails and changes nothing. -/
theorem statement_cases (fault : E) (f : D → Except E (α × D)) (w : World D M) :
    (∃ a db, Serves w.served 1 ∧ f w.db = .ok (a, db) ∧
      statement fault f w = (.ok a, { w with db, served := spend 1 w.served })) ∨
    ∃ e w', statement fault f w = (.error e, w') ∧ w'.db = w.db ∧ w'.memory = w.memory ∧
      (¬ Serves w.served 1 ∨ f w.db = .error e) := by
  rcases hrun : statement fault f w with ⟨r, w'⟩
  cases r with
  | ok a =>
    obtain ⟨hserves, db, hf, rfl⟩ := statement_eq_ok.mp hrun
    exact .inl ⟨a, db, hserves, hf, rfl⟩
  | error e =>
    obtain ⟨hdb, hmemory⟩ := statement_error hrun
    exact .inr ⟨e, w', rfl, hdb, hmemory, statement_error_cases hrun⟩

/-- **Rollback**: a transaction that fails leaves the database as it was. -/
theorem transaction_error (h : transaction fault body w = (.error e, w')) : w'.db = w.db := by
  unfold transaction at h
  split at h
  · split at h
    · cases h
      rfl
    · cases h
  · cases h
    rfl

/-- The memory is not rolled back. -/
theorem transaction_memory (w : World D M) :
    (transaction fault body w).2.memory = (body w).2.memory := by
  unfold transaction
  rcases hbody : body w with ⟨r, w₁⟩
  cases r with
  | ok a =>
    by_cases hserved : w₁.served = some 0
    · simp only [if_pos hserved]
    · simp only [if_neg hserved]
  | error e => rfl

/-- A transaction returns when its body does and the commit is served. -/
theorem transaction_eq_ok : transaction fault body w = (.ok a, w') ↔
    ∃ w₁, body w = (.ok a, w₁) ∧ Serves w₁.served 1 ∧
      w' = { w₁ with served := spend 1 w₁.served } := by
  unfold transaction
  rcases hbody : body w with ⟨r, w₁⟩
  cases r with
  | ok a' =>
    by_cases hserved : w₁.served = some 0
    · simp only [hserved, if_true]
      constructor
      · intro h
        cases h
      · rintro ⟨w₂, hbody', hserves, -⟩
        cases hbody'
        exact absurd hserved (serves_one.mp hserves)
    · simp only [if_neg hserved]
      constructor
      · intro h
        cases h
        exact ⟨w₁, rfl, serves_one.mpr hserved, rfl⟩
      · rintro ⟨w₂, hbody', -, rfl⟩
        cases hbody'
        rfl
  | error e' =>
    constructor
    · intro h
      cases h
    · rintro ⟨w₂, hbody', -⟩
      cases hbody'

/-- A transaction fails when its body does or the commit is not served. -/
theorem transaction_failed (h : transaction fault body w = (.error e, w')) :
    (∃ w₁, body w = (.error e, w₁) ∧ w'.memory = w₁.memory) ∨
      ∃ a w₁, body w = (.ok a, w₁) ∧ ¬ Serves w₁.served 1 ∧ w'.memory = w₁.memory := by
  have hmemory : w'.memory = (body w).2.memory := by
    have hkeep : (transaction fault body w).2.memory = (body w).2.memory := transaction_memory w
    rw [← hkeep, h]
  rcases hbody : body w with ⟨r, w₁⟩
  rw [hbody] at hmemory
  cases r with
  | ok a =>
    refine .inr ⟨a, w₁, rfl, fun hserves => ?_, hmemory⟩
    have hok : transaction fault body w = (.ok a, { w₁ with served := spend 1 w₁.served }) :=
      transaction_eq_ok.mpr ⟨w₁, hbody, hserves, rfl⟩
    rw [hok] at h
    cases h
  | error e' =>
    unfold transaction at h
    rw [hbody] at h
    cases h
    exact .inl ⟨w₁, rfl, hmemory⟩

/-- A loop keeps what every round keeps, also when it stops with an error. -/
theorem each_keeps {I : World D M → Prop} {g : α → Work D M E Unit} {as : List α}
    (hround : ∀ a ∈ as, ∀ w, I w → I (g a w).2) (hw : I w) : I (each g as w).2 := by
  induction as generalizing w with
  | nil => exact hw
  | cons a as ih =>
    have hfirst := hround a List.mem_cons_self w hw
    have hrest := fun w => ih (w := w) fun b hb => hround b (List.mem_cons_of_mem a hb)
    show I ((g a >>= fun _ => each g as) w).2
    rcases hg : g a w with ⟨r, w₁⟩
    rw [hg] at hfirst
    cases r with
    | ok u =>
      rw [bind_run_ok hg]
      exact hrest w₁ hfirst
    | error e =>
      rw [bind_run_error hg]
      exact hfirst

/-- A loop goes through when every round does. -/
theorem each_run {I : List α → World D M → Prop} {g : α → Work D M E Unit} {as : List α}
    (hround : ∀ a as w, I (a :: as) w → ∃ w', g a w = (.ok (), w') ∧ I as w') (hw : I as w) :
    ∃ w', each g as w = (.ok (), w') ∧ I [] w' := by
  induction as generalizing w with
  | nil => exact ⟨w, rfl, hw⟩
  | cons a as ih =>
    obtain ⟨w₁, hone, hw₁⟩ := hround a as w hw
    obtain ⟨w', hrest, hw'⟩ := ih hw₁
    exact ⟨w', (bind_run_ok hone).trans hrest, hw'⟩

/-- A loop that returns keeps what every round that returns keeps. -/
theorem each_ok_keeps {I : World D M → Prop} {g : α → Work D M E Unit} {as : List α}
    (hround : ∀ a ∈ as, ∀ w w', I w → g a w = (.ok (), w') → I w') (hw : I w)
    (h : each g as w = (.ok (), w')) : I w' := by
  induction as generalizing w with
  | nil =>
    cases h
    exact hw
  | cons a as ih =>
    obtain ⟨_, w₁, hone, hrest⟩ := bind_ok.mp h
    exact ih (fun b hb => hround b (List.mem_cons_of_mem a hb))
      (hround a List.mem_cons_self w w₁ hw hone) hrest

/-- The work that stops with an error leaves the database as it was. -/
def Restores (x : Work D M E α) : Prop := ∀ w e w', x w = (.error e, w') → w'.db = w.db

namespace Restores

variable {fault : E}

theorem pure (a : α) : Restores (Pure.pure a : Work D M E α) := fun _ _ _ h => (by cases h)

theorem statement (f : D → Except E (α × D)) : Restores (Work.statement (M := M) fault f) :=
  fun _ _ _ h => (statement_error h).1

theorem transaction (body : Work D M E α) : Restores (Work.transaction fault body) :=
  fun _ _ _ h => transaction_error h

theorem ofExcept_bind (x : Except E α) {f : α → Work D M E β} (hf : ∀ a, Restores (f a)) :
    Restores (ofExcept x >>= f) := by
  intro w e w' h
  rcases bind_error.mp h with hx | ⟨a, w₁, hx, hrest⟩
  · unfold ofExcept at hx
    cases hx
    rfl
  · obtain ⟨-, rfl⟩ := ofExcept_eq_ok.mp hx
    exact hf a w₁ e w' hrest

end Restores

/-- The rounds of a loop, from the row `as` starts with: those before it are rewritten already. -/
theorem each_rewrites_from {rows : D → List α} {R : α → α → Prop} {I : D → Prop}
    {g : α → Work D M E Unit} {as done done' : List α} {r : Except E Unit}
    (hok : ∀ a w w' xs ys, I w.db → rows w.db = xs ++ a :: ys → g a w = (.ok (), w') →
      I w'.db ∧ ∃ a', R a a' ∧ rows w'.db = xs ++ a' :: ys)
    (herror : ∀ a, Restores (g a))
    (h : each g as w = (r, w')) (hw : I w.db) (hdone : List.Forall₂ R done done')
    (hrows : rows w.db = done' ++ as) :
    I w'.db ∧ ∃ now todo now', done ++ as = now ++ todo ∧ List.Forall₂ R now now' ∧
      rows w'.db = now' ++ todo ∧ (r = .ok () → todo = []) := by
  induction as generalizing w done done' with
  | nil =>
    cases h
    exact ⟨hw, done, [], done', rfl, hdone, hrows, fun _ => rfl⟩
  | cons a as ih =>
    rcases hg : g a w with ⟨s, w₁⟩
    cases s with
    | error e =>
      have hstop : each g (a :: as) w = (.error e, w₁) := bind_run_error hg
      rw [hstop] at h
      cases h
      rw [herror a w e w' hg]
      exact ⟨hw, done, a :: as, done', rfl, hdone, hrows, fun h => (by cases h)⟩
    | ok u =>
      have hgo : each g (a :: as) w = each g as w₁ := bind_run_ok hg
      rw [hgo] at h
      obtain ⟨hw₁, a', ha', hrows₁⟩ := hok a w w₁ done' as hw hrows hg
      have hdone₁ : List.Forall₂ R (done ++ [a]) (done' ++ [a']) :=
        List.rel_append hdone (.cons ha' .nil)
      have hrows₂ : rows w₁.db = (done' ++ [a']) ++ as := by
        rw [hrows₁, List.append_assoc, List.singleton_append]
      have hrest := ih h hw₁ hdone₁ hrows₂
      rw [List.append_assoc, List.singleton_append] at hrest
      exact hrest

/-- **Loop rule**: a loop over the rows of a table that rewrites each of them where it stands. When it
stops with an error, the rows from the one it stopped at are as they were. -/
theorem each_rewrites (rows : D → List α) (R : α → α → Prop) (I : D → Prop)
    {g : α → Work D M E Unit} {r : Except E Unit}
    (hok : ∀ a w w' xs ys, I w.db → rows w.db = xs ++ a :: ys → g a w = (.ok (), w') →
      I w'.db ∧ ∃ a', R a a' ∧ rows w'.db = xs ++ a' :: ys)
    (herror : ∀ a, Restores (g a))
    (h : each g (rows w.db) w = (r, w')) (hw : I w.db) :
    I w'.db ∧ ∃ done todo done', rows w.db = done ++ todo ∧ List.Forall₂ R done done' ∧
      rows w'.db = done' ++ todo ∧ (r = .ok () → todo = []) :=
  each_rewrites_from hok herror h hw .nil rfl

theorem exists_of_forall₂ {R : α → β → Prop} {as : List α} {bs : List β} {b : β}
    (h : List.Forall₂ R as bs) (hb : b ∈ bs) : ∃ a ∈ as, R a b := by
  induction h with
  | nil => exact absurd hb List.not_mem_nil
  | cons hab _ ih =>
    rcases List.mem_cons.mp hb with rfl | hb
    · exact ⟨_, List.mem_cons_self, hab⟩
    · obtain ⟨a, ha, hrel⟩ := ih hb
      exact ⟨a, List.mem_cons_of_mem _ ha, hrel⟩

/-- Every row after such a loop is a row from before it, rewritten or not. -/
theorem mem_of_each_rewrites (rows : D → List α) (R : α → α → Prop) (I : D → Prop)
    {g : α → Work D M E Unit} {r : Except E Unit} {b : α}
    (hok : ∀ a w w' xs ys, I w.db → rows w.db = xs ++ a :: ys → g a w = (.ok (), w') →
      I w'.db ∧ ∃ a', R a a' ∧ rows w'.db = xs ++ a' :: ys)
    (herror : ∀ a, Restores (g a))
    (h : each g (rows w.db) w = (r, w')) (hw : I w.db) (hb : b ∈ rows w'.db) :
    ∃ a ∈ rows w.db, b = a ∨ R a b := by
  obtain ⟨-, done, todo, done', hbefore, hdone, hafter, -⟩ :=
    each_rewrites rows R I hok herror h hw
  rw [hafter] at hb
  rw [hbefore]
  rcases List.mem_append.mp hb with hb | hb
  · obtain ⟨a, ha, hrel⟩ := exists_of_forall₂ hdone hb
    exact ⟨a, List.mem_append_left _ ha, .inr hrel⟩
  · exact ⟨b, List.mem_append_right _ hb, .inl rfl⟩

/-- A loop of statements that returns has folded their effects over the database. -/
theorem each_statement_ok {g : D → α → D} {as : List α}
    (h : each (fun a => statement fault fun db => .ok ((), g db a)) as w = (.ok (), w')) :
    w'.db = as.foldl g w.db := by
  induction as generalizing w with
  | nil =>
    cases h
    rfl
  | cons a as ih =>
    obtain ⟨u, w₁, hfirst, hrest⟩ := bind_ok.mp h
    have hdb : g w.db a = w₁.db := (Prod.mk.inj (Except.ok.inj (statement_ok hfirst).1)).2
    rw [ih hrest, ← hdb, List.foldl_cons]

/-- Without faults a statement is its effect on the database. -/
theorem statement_run {db : D} (h : f w.db = .ok (a, db)) (hw : w.served = none) :
    statement fault f w = (.ok a, { w with db }) := by
  refine statement_eq_ok.mpr ⟨hw ▸ serves_none 1, db, h, ?_⟩
  rw [hw, spend_none]

theorem each_statement_run {g : D → α → D} (as : List α) (hw : w.served = none) :
    each (fun a => statement fault fun db => .ok ((), g db a)) as w =
      (.ok (), { w with db := as.foldl g w.db }) := by
  induction as generalizing w with
  | nil => rfl
  | cons a as ih =>
    have hfirst : statement fault (fun db => .ok ((), g db a)) w =
        (.ok (), { w with db := g w.db a }) := statement_run rfl hw
    exact (bind_run_ok hfirst).trans (ih hw)

/-- Without faults a transaction commits what its body returns with. -/
theorem transaction_run (h : body w = (.ok a, w')) (hw : w'.served = none) :
    transaction fault body w = (.ok a, w') := by
  refine transaction_eq_ok.mpr ⟨w', h, hw ▸ serves_none 1, ?_⟩
  obtain ⟨db, memory, served⟩ := w'
  obtain rfl : served = none := hw
  rfl

end Rules

/-! ## What any piece of work keeps -/

/-- The work keeps a property of the database, however it ends. -/
def Keeps (I : D → Prop) (x : Work D M E α) : Prop := ∀ w, I w.db → I (x w).2.db

namespace Keeps

variable {I : D → Prop} {fault e : E} {x : Work D M E α}

theorem pure (a : α) : Keeps I (Pure.pure a : Work D M E α) := fun _ hw => hw

theorem fail (e : E) : Keeps I (Work.fail e : Work D M E α) := fun _ hw => hw

theorem touch (g : M → M) : Keeps I (Work.touch g : Work D M E Unit) := fun _ hw => hw

theorem ignore (hx : Keeps I x) : Keeps I x.ignore := hx

theorem bind {f : α → Work D M E β} (hx : Keeps I x) (hf : ∀ a, Keeps I (f a)) :
    Keeps I (x >>= f) := by
  intro w hw
  have hfirst := hx w hw
  rcases h : x w with ⟨r, w₁⟩
  rw [h] at hfirst
  cases r with
  | ok a =>
    rw [bind_run_ok h]
    exact hf a w₁ hfirst
  | error e =>
    rw [bind_run_error h]
    exact hfirst

theorem statement {f : D → Except E (α × D)} (hf : ∀ db a db', I db → f db = .ok (a, db') → I db') :
    Keeps I (Work.statement (M := M) fault f) := by
  intro w hw
  rcases h : Work.statement fault f w with ⟨r, w'⟩
  cases r with
  | ok a => exact hf w.db a w'.db hw (statement_ok h).1
  | error e =>
    show I w'.db
    rw [(statement_error h).1]
    exact hw

theorem transaction (hx : Keeps I x) : Keeps I (Work.transaction fault x) := by
  intro w hw
  rcases h : Work.transaction fault x w with ⟨r, w'⟩
  cases r with
  | ok a =>
    obtain ⟨w₁, hbody, -, rfl⟩ := transaction_eq_ok.mp h
    have hkept := hx w hw
    rw [hbody] at hkept
    exact hkept
  | error e =>
    show I w'.db
    rw [transaction_error h]
    exact hw

theorem each {g : α → Work D M E Unit} {as : List α} (hg : ∀ a ∈ as, Keeps I (g a)) :
    Keeps I (Work.each g as) :=
  fun _ hw => each_keeps (I := fun w => I w.db) hg hw

end Keeps

/-! ## What work keeps and returns -/

/-- The work keeps a property of the world, however it ends, and what it returns has another. -/
def Leaves (I : World D M → Prop) (P : α → Prop) (x : Work D M E α) : Prop :=
  ∀ w, I w → I (x w).2 ∧ ∀ a, (x w).1 = .ok a → P a

namespace Leaves

variable {I : World D M → Prop} {P : α → Prop} {Q : β → Prop} {x : Work D M E α}

theorem pure {a : α} (ha : P a) : Leaves I P (Pure.pure a : Work D M E α) := fun _ hw =>
  ⟨hw, fun b hb => by
    cases hb
    exact ha⟩

theorem mono {P' : α → Prop} (hx : Leaves I P x) (h : ∀ a, P a → P' a) : Leaves I P' x :=
  fun w hw => ⟨(hx w hw).1, fun a ha => h a ((hx w hw).2 a ha)⟩

theorem bind {f : α → Work D M E β} (hx : Leaves I P x) (hf : ∀ a, P a → Leaves I Q (f a)) :
    Leaves I Q (x >>= f) := by
  intro w hw
  obtain ⟨hw₁, hP⟩ := hx w hw
  rcases h : x w with ⟨r, w₁⟩
  rw [h] at hw₁ hP
  cases r with
  | ok a =>
    rw [bind_run_ok h]
    exact hf a (hP a rfl) w₁ hw₁
  | error e =>
    rw [bind_run_error h]
    refine ⟨hw₁, fun b hb => ?_⟩
    cases hb

theorem each {g : α → Work D M E Unit} {as : List α}
    (hg : ∀ a ∈ as, Leaves I (fun _ => True) (g a)) : Leaves I (fun _ => True) (Work.each g as) := by
  induction as with
  | nil => exact pure trivial
  | cons a as ih =>
    exact bind (hg a List.mem_cons_self) fun _ _ => ih fun b hb => hg b (List.mem_cons_of_mem a hb)

end Leaves

/-! ## How work ends -/

/-- Work that begins in `I` returns in `P` or stops in `J`. -/
def Ends (I : World D M → Prop) (P : α → World D M → Prop) (J : World D M → Prop)
    (x : Work D M E α) : Prop :=
  ∀ w, I w → (∀ a w', x w = (.ok a, w') → P a w') ∧ ∀ e w', x w = (.error e, w') → J w'

namespace Ends

variable {I J : World D M → Prop} {P : α → World D M → Prop} {Q : β → World D M → Prop}
  {x : Work D M E α}

theorem pure {a : α} (h : ∀ w, I w → P a w) : Ends I P J (Pure.pure a : Work D M E α) := by
  refine fun w hw => ⟨fun b w' hrun => ?_, fun e w' hrun => ?_⟩
  · cases hrun
    exact h w hw
  · cases hrun

theorem bind {f : α → Work D M E β} (hx : Ends I P J x) (hf : ∀ a, Ends (P a) Q J (f a)) :
    Ends I Q J (x >>= f) := by
  refine fun w hw => ⟨fun b w' hrun => ?_, fun e w' hrun => ?_⟩
  · obtain ⟨a, w₁, hfirst, hrest⟩ := bind_ok.mp hrun
    exact (hf a w₁ ((hx w hw).1 a w₁ hfirst)).1 b w' hrest
  · rcases bind_error.mp hrun with hfirst | ⟨a, w₁, hfirst, hrest⟩
    · exact (hx w hw).2 e w' hfirst
    · exact (hf a w₁ ((hx w hw).1 a w₁ hfirst)).2 e w' hrest

theorem each {g : α → Work D M E Unit} {as : List α}
    (hg : ∀ a ∈ as, Ends I (fun _ => I) J (g a)) : Ends I (fun _ => I) J (Work.each g as) := by
  induction as with
  | nil => exact pure fun _ hw => hw
  | cons a as ih =>
    exact bind (hg a List.mem_cons_self) fun _ => ih fun b hb => hg b (List.mem_cons_of_mem a hb)

end Ends

end Work

end Transaction
