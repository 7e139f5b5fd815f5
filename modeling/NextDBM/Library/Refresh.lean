import Mathlib.Data.List.Infix
import NextDBM.Library.Runs

/-!
# Caches that background tasks rebuild

A cache of entries is computed from the rows of a store. Requests change the store by atomic commits
and spawn reloads; a reload clears the cache, reads the rows and adds the entries one by one. The
steps of all requests and reloads interleave in any order.

`converges` is the result: the cache is the one computed from the final store once everything has
finished, provided that every commit that changes the rows has a reload ahead of it (`Ahead`), and
that no reload adds a row it read before such a commit unless a reload is ahead as well.
-/

namespace Refresh

variable {D R K V Op : Type*}

/-! ## Entries -/

/-- What a row does to the cache. -/
inductive Effect (K V : Type*)
  /-- The row has no entry. -/
  | skip
  | put (k : K) (v : V)
  /-- The reload ends the process. -/
  | halt
  deriving DecidableEq

/-- The store's rows, and the effect of each. -/
structure Source (D R K V : Type*) where
  rows : D → List R
  effect : R → Effect K V

section Entries

variable [DecidableEq K] {src : Source D R K V}

/-- Apply a row to a cache; `none` when the process ends. -/
def Source.add (src : Source D R K V) (pool : K → Option V) (r : R) : Option (K → Option V) :=
  match src.effect r with
  | .skip => some pool
  | .put k v => some (Function.update pool k (some v))
  | .halt => none

/-- The cache that one undisturbed reload computes. -/
def Source.build (src : Source D R K V) (rows : List R) : Option (K → Option V) :=
  rows.foldlM src.add fun _ => none

/-- The entry of a key: the last row with that key decides. -/
def Source.value (src : Source D R K V) : List R → K → Option V
  | [], _ => none
  | r :: rest, x =>
    (src.value rest x).or <|
      match src.effect r with
      | .put k v => if x = k then some v else none
      | _ => none

theorem Source.value_append (xs ys : List R) (x : K) :
    src.value (xs ++ ys) x = (src.value ys x).or (src.value xs x) := by
  induction xs with
  | nil => simp [value]
  | cons r xs ih => rw [List.cons_append, value, value, ih, Option.or_assoc]

/-- An entry of a final segment of the rows is the entry of all rows. -/
theorem Source.value_of_suffix {rest rows : List R} (h : rest <:+ rows) {x : K} {v : V}
    (hv : src.value rest x = some v) : src.value rows x = some v := by
  obtain ⟨xs, rfl⟩ := h
  rw [value_append, hv, Option.some_or]

/-- A row that is not about a key does not change the key's entry. -/
theorem Source.value_cons_of_ne {r : R} {rest : List R} {x : K}
    (h : ∀ v, src.effect r ≠ .put x v) : src.value (r :: rest) x = src.value rest x := by
  rw [value]
  cases heffect : src.effect r with
  | skip => simp
  | halt => simp
  | put k v =>
    have hne : x ≠ k := fun hxk => h v (hxk ▸ heffect)
    simp [hne]

theorem Source.value_cons_self {r : R} {rest : List R} {x : K} {v : V}
    (heffect : src.effect r = .put x v) (hrest : src.value rest x = none) :
    src.value (r :: rest) x = some v := by
  rw [value, hrest, heffect]
  simp

theorem Source.add_of_put {pool pool' : K → Option V} {r : R} {x : K} {v : V}
    (hadd : src.add pool r = some pool') (heffect : src.effect r = .put x v) :
    pool' x = some v := by
  rw [add, heffect] at hadd
  obtain rfl := Option.some.inj hadd
  exact Function.update_self ..

/-- A row that is not about a key leaves the key's entry in the cache. -/
theorem Source.add_of_ne {pool pool' : K → Option V} {r : R} {x : K}
    (hadd : src.add pool r = some pool') (h : ∀ v, src.effect r ≠ .put x v) : pool' x = pool x := by
  unfold add at hadd
  split at hadd
  · obtain rfl := Option.some.inj hadd
    rfl
  · next k v heffect =>
    obtain rfl := Option.some.inj hadd
    have hxk : x ≠ k := fun hxk => h v (hxk ▸ heffect)
    exact Function.update_of_ne hxk _ _
  · cases hadd

theorem Source.foldlM_add {rows : List R} {pool pool' : K → Option V} :
    rows.foldlM src.add pool = some pool' ↔
      (∀ r ∈ rows, src.effect r ≠ .halt) ∧ ∀ x, pool' x = (src.value rows x).or (pool x) := by
  induction rows generalizing pool with
  | nil =>
    constructor
    · intro h
      obtain rfl := Option.some.inj h
      exact ⟨fun r hr => absurd hr List.not_mem_nil, fun x => rfl⟩
    · rintro ⟨-, h⟩
      exact congrArg some (funext fun x => (h x).symm)
  | cons r rows ih =>
    rw [List.foldlM_cons]
    simp only [List.forall_mem_cons, value, Option.or_assoc]
    cases heffect : src.effect r with
    | skip =>
      have hadd : src.add pool r = some pool := by rw [add, heffect]
      rw [hadd]
      simpa using ih
    | put k v =>
      have hadd : src.add pool r = some (Function.update pool k (some v)) := by rw [add, heffect]
      have hpool : ∀ x, Function.update pool k (some v) x =
          (if x = k then some v else none).or (pool x) := by
        intro x
        by_cases hx : x = k
        · simp [hx]
        · simp [hx]
      rw [hadd]
      have hrest := @ih (Function.update pool k (some v))
      simpa [hpool] using hrest
    | halt =>
      have hadd : src.add pool r = none := by rw [add, heffect]
      rw [hadd]
      simp

/-- An undisturbed reload gives every key its entry. -/
theorem Source.build_eq_some {rows : List R} {pool : K → Option V} :
    src.build rows = some pool ↔
      (∀ r ∈ rows, src.effect r ≠ .halt) ∧ ∀ x, pool x = src.value rows x := by
  rw [build, foldlM_add]
  simp

end Entries

/-! ## Requests and reloads -/

/-- An instruction of a request. A failing instruction ends the request. -/
inductive Instr (D : Type*)
  /-- Look at the store. -/
  | check (f : D → Bool)
  /-- Change the store in one transaction; `none` when it is rolled back. -/
  | commit (f : D → Option D)
  /-- Spawn a reload. -/
  | spawn

def Instr.isSpawn : Instr D → Bool
  | .spawn => true
  | _ => false

/-- A running request: its remaining instructions, and whether it has changed the rows since it last
spawned a reload. -/
structure Request (D : Type*) where
  prog : List (Instr D)
  changed : Bool := false

/-- The request has still to spawn a reload. -/
def Request.spawns (q : Request D) : Bool := q.prog.any Instr.isSpawn

/-- A reload. -/
inductive Reload (R : Type*)
  | spawned
  /-- The cache is cleared, the rows are not read. -/
  | cleared
  /-- The rows are read, and these are still to be added. -/
  | adding (rest : List R)
  | finished

structure State (D R K V : Type*) where
  db : D
  pool : K → Option V
  requests : List (Request D) := []
  reloads : List (Reload R) := []

inductive Action (Op : Type*)
  /-- A request arrives. -/
  | request (op : Op)
  /-- A request executes its next instruction. -/
  | instr (i : ℕ)
  /-- A reload takes its next step. -/
  | reload (j : ℕ)

/-- The `i`-th request, with the remaining instructions `instr :: rest`, executes `instr`. -/
def instrStep [DecidableEq R] (src : Source D R K V) (s : State D R K V) (i : ℕ) (changed : Bool)
    (rest : List (Instr D)) : Instr D → State D R K V
  | .spawn =>
    { s with
      requests := s.requests.set i { prog := rest }
      reloads := s.reloads ++ [.spawned] }
  | .check f =>
    { s with requests := s.requests.set i { prog := if f s.db then rest else [], changed } }
  | .commit f =>
    match f s.db with
    | some db =>
      { s with
        db
        requests := s.requests.set i
          { prog := rest, changed := changed || decide (src.rows db ≠ src.rows s.db) } }
    | none => { s with requests := s.requests.set i { prog := [], changed } }

/-- The `j`-th reload takes its next step. -/
def reloadStep [DecidableEq K] (src : Source D R K V) (s : State D R K V) (j : ℕ) :
    Reload R → Option (State D R K V)
  | .spawned => some { s with pool := fun _ => none, reloads := s.reloads.set j .cleared }
  | .cleared => some { s with reloads := s.reloads.set j (.adding (src.rows s.db)) }
  | .adding [] => some { s with reloads := s.reloads.set j .finished }
  | .adding (r :: rest) =>
    (src.add s.pool r).map fun pool => { s with pool, reloads := s.reloads.set j (.adding rest) }
  | .finished => none

def step [DecidableEq R] [DecidableEq K] (src : Source D R K V) (program : Op → List (Instr D))
    (s : State D R K V) : Action Op → Option (State D R K V)
  | .request op => some { s with requests := s.requests ++ [{ prog := program op }] }
  | .instr i =>
    match s.requests[i]? with
    | some { prog := instr :: rest, changed } => some (instrStep src s i changed rest instr)
    | _ => none
  | .reload j =>
    match s.reloads[j]? with
    | some reload => reloadStep src s j reload
    | none => none

/-- Every request and every reload has finished. -/
structure Quiescent (s : State D R K V) : Prop where
  requests : ∀ q ∈ s.requests, q.prog = []
  reloads : ∀ r ∈ s.reloads, r = .finished

/-! ## The condition on the interleaving -/

/-- The request has changed the rows and has still to spawn a reload. -/
def Request.Owes (q : Request D) : Prop := q.changed = true ∧ q.spawns = true

/-- A reload will start: one is spawned and has not cleared the cache, or a request other than the
`i`-th owes one. -/
def Ahead (s : State D R K V) (i : ℕ) : Prop :=
  .spawned ∈ s.reloads ∨ ∃ k ≠ i, ∃ q, s.requests[k]? = some q ∧ q.Owes

/-- A reload will start, whichever request owes it. -/
def Pending (s : State D R K V) : Prop :=
  .spawned ∈ s.reloads ∨ ∃ q ∈ s.requests, q.Owes

/-- What an instruction needs: a commit that changes the rows has a reload ahead, spawned later by the
same request or waiting already, or one that has cleared the cache, not read the rows, and left no
entry that the new rows do not have; a request that ends early owes no reload, or another one is
ahead. -/
def InstrSafe [DecidableEq K] (src : Source D R K V) (s : State D R K V) (i : ℕ) (q : Request D)
    (rest : List (Instr D)) : Instr D → Prop
  | .spawn => True
  | .check f => f s.db = false → q.Owes → Ahead s i
  | .commit f =>
    match f s.db with
    | some db =>
      src.rows db ≠ src.rows s.db →
        rest.any Instr.isSpawn = true ∨ Ahead s i ∨
          (.cleared ∈ s.reloads ∧ ∀ x, (s.pool x).isSome → (src.value (src.rows db) x).isSome)
    | none => q.Owes → Ahead s i

/-- The condition on a step: an instruction is safe, and a reload that adds a row has read the rows of
the store as it is, or another reload is to come. -/
def Safe [DecidableEq K] (src : Source D R K V) (s : State D R K V) : Action Op → Prop
  | .request _ => True
  | .instr i =>
    ∀ q instr rest, s.requests[i]? = some q → q.prog = instr :: rest →
      InstrSafe src s i q rest instr
  | .reload j =>
    ∀ r rest, s.reloads[j]? = some (.adding (r :: rest)) →
      (r :: rest) <:+ src.rows s.db ∨ Pending s

/-! ## The invariant -/

/-- A reload that has not read the rows will add what is missing; or one that has read them has still
to add rows with the given property. -/
def Upcoming (src : Source D R K V) (s : State D R K V) (missing : List R → Prop) : Prop :=
  .cleared ∈ s.reloads ∨
    ∃ rest, .adding rest ∈ s.reloads ∧ rest <:+ src.rows s.db ∧ missing rest

/-- Every key has its entry or will be given it by a running reload. -/
structure Covered [DecidableEq K] (src : Source D R K V) (s : State D R K V) : Prop where
  entry : ∀ x, s.pool x = src.value (src.rows s.db) x ∨
    ((src.value (src.rows s.db) x).isSome ∧
      Upcoming src s fun rest => (src.value rest x).isSome)
  halting : ∀ r ∈ src.rows s.db, src.effect r = .halt → Upcoming src s fun rest => r ∈ rest

def Inv [DecidableEq K] (src : Source D R K V) (s : State D R K V) : Prop := Pending s ∨ Covered src s

section Invariant

variable {src : Source D R K V} {program : Op → List (Instr D)} {s t : State D R K V} {i j : ℕ}
  {q q' : Request D} {reload : Reload R}

theorem pending_iff (hi : s.requests[i]? = some q) : Pending s ↔ q.Owes ∨ Ahead s i := by
  constructor
  · rintro (hspawned | ⟨q₀, hq₀, howes⟩)
    · exact .inr (.inl hspawned)
    · obtain ⟨k, hk⟩ := List.mem_iff_getElem?.mp hq₀
      by_cases hki : k = i
      · subst hki
        obtain rfl := Option.some.inj (hk.symm.trans hi)
        exact .inl howes
      · exact .inr (.inr ⟨k, hki, q₀, hk, howes⟩)
  · rintro (howes | hspawned | ⟨k, -, q₀, hk, howes⟩)
    · exact .inr ⟨q, List.mem_of_getElem? hi, howes⟩
    · exact .inl hspawned
    · exact .inr ⟨q₀, List.mem_of_getElem? hk, howes⟩

/-- Replacing a request leaves what is ahead of it. -/
theorem pending_of_ahead (hreq : t.requests = s.requests.set i q') (hrel : t.reloads = s.reloads)
    (h : Ahead s i) : Pending t := by
  rcases h with hspawned | ⟨k, hki, q₀, hk, howes⟩
  · exact .inl (hrel ▸ hspawned)
  · refine .inr ⟨q₀, ?_, howes⟩
    rw [hreq]
    exact List.mem_of_getElem? ((List.getElem?_set_ne (Ne.symm hki)).trans hk)

theorem pending_of_owes (hi : s.requests[i]? = some q) (hreq : t.requests = s.requests.set i q')
    (h : q'.Owes) : Pending t := by
  obtain ⟨hlt, -⟩ := List.getElem?_eq_some_iff.mp hi
  refine .inr ⟨q', ?_, h⟩
  rw [hreq]
  exact List.mem_set hlt q'

/-- An instruction that keeps what its request owes keeps a pending reload. -/
theorem Pending.set (h : Pending s) (hi : s.requests[i]? = some q)
    (hreq : t.requests = s.requests.set i q') (hrel : t.reloads = s.reloads)
    (hkeep : q.Owes → q'.Owes ∨ Ahead s i) : Pending t := by
  rcases (pending_iff hi).mp h with howes | hahead
  · rcases hkeep howes with howes' | hahead
    · exact pending_of_owes hi hreq howes'
    · exact pending_of_ahead hreq hrel hahead
  · exact pending_of_ahead hreq hrel hahead

theorem mem_set_of_ne {old new other : Reload R} (hj : s.reloads[j]? = some old)
    (hmem : other ∈ s.reloads) (hne : other ≠ old) : other ∈ s.reloads.set j new := by
  obtain ⟨k, hk⟩ := List.mem_iff_getElem?.mp hmem
  have hkj : k ≠ j := fun hkj => by
    subst hkj
    exact hne (Option.some.inj (hk.symm.trans hj))
  exact List.mem_of_getElem? ((List.getElem?_set_ne (Ne.symm hkj)).trans hk)

theorem mem_set_self {old new : Reload R} (hj : s.reloads[j]? = some old) :
    new ∈ s.reloads.set j new := by
  obtain ⟨hlt, -⟩ := List.getElem?_eq_some_iff.mp hj
  exact List.mem_set hlt new

/-- A reload that has started leaves a pending one pending. -/
theorem Pending.setReload {old new : Reload R} (h : Pending s) (hj : s.reloads[j]? = some old)
    (hold : old ≠ .spawned) (hreq : t.requests = s.requests)
    (hrel : t.reloads = s.reloads.set j new) : Pending t := by
  rcases h with hspawned | hq
  · refine .inl ?_
    rw [hrel]
    exact mem_set_of_ne hj hspawned hold.symm
  · refine .inr ?_
    rw [hreq]
    exact hq

/-- What a reload had still to add before its step is still to be added by it or by another one. -/
theorem Upcoming.setReload {old new : Reload R} {missing missing' : List R → Prop}
    (h : Upcoming src s missing) (hj : s.reloads[j]? = some old) (hdb : t.db = s.db)
    (hrel : t.reloads = s.reloads.set j new) (hother : ∀ rest, missing rest → missing' rest)
    (hcleared : old = .cleared → Upcoming src t missing')
    (hadding : ∀ rest, old = .adding rest → rest <:+ src.rows s.db → missing rest →
      Upcoming src t missing') : Upcoming src t missing' := by
  rcases h with hmem | ⟨rest, hmem, hsuffix, hmissing⟩
  · by_cases hold : old = .cleared
    · exact hcleared hold
    · refine .inl ?_
      rw [hrel]
      exact mem_set_of_ne hj hmem (Ne.symm hold)
  · by_cases hold : old = .adding rest
    · exact hadding rest hold hsuffix hmissing
    · refine .inr ⟨rest, ?_, hdb ▸ hsuffix, hother rest hmissing⟩
      rw [hrel]
      exact mem_set_of_ne hj hmem (Ne.symm hold)

variable [DecidableEq K]

/-- The requests have no part in `Covered`, and of the store only the rows. -/
theorem Covered.congr (h : Covered src s) (hrows : src.rows t.db = src.rows s.db)
    (hpool : t.pool = s.pool) (hrel : t.reloads = s.reloads) : Covered src t := by
  obtain ⟨hentry, hhalting⟩ := h
  simp only [Upcoming] at hentry hhalting
  refine ⟨?_, ?_⟩
  · simp only [Upcoming, hrows, hpool, hrel]
    exact hentry
  · simp only [Upcoming, hrows, hrel]
    exact hhalting

/-- What a reload preserves when it adds a row it has read from the store as it is. -/
theorem Covered.add {r : R} {rest : List R} {pool : K → Option V} (h : Covered src s)
    (hj : s.reloads[j]? = some (.adding (r :: rest))) (hsuffix : (r :: rest) <:+ src.rows s.db)
    (hadd : src.add s.pool r = some pool) :
    Covered src { s with pool, reloads := s.reloads.set j (.adding rest) } := by
  have hrest : rest <:+ src.rows s.db := (List.suffix_cons r rest).trans hsuffix
  have hmem : Reload.adding rest ∈ s.reloads.set j (.adding rest) := mem_set_self hj
  refine ⟨fun x => ?_, fun r' hr' hhalt => ?_⟩
  · show pool x = src.value (src.rows s.db) x ∨ _
    by_cases hx : ∃ v, src.effect r = .put x v
    · obtain ⟨v, heffect⟩ := hx
      cases hvalue : src.value rest x with
      | none =>
        have hrow : src.value (r :: rest) x = some v := src.value_cons_self heffect hvalue
        rw [src.add_of_put hadd heffect, src.value_of_suffix hsuffix hrow]
        exact .inl rfl
      | some w =>
        have hsome : (src.value rest x).isSome := by rw [hvalue]; rfl
        refine .inr ⟨?_, .inr ⟨rest, hmem, hrest, hsome⟩⟩
        show (src.value (src.rows s.db) x).isSome
        rw [src.value_of_suffix hrest hvalue]
        rfl
    · have hne : ∀ v, src.effect r ≠ .put x v := fun v hv => hx ⟨v, hv⟩
      rw [src.add_of_ne hadd hne]
      rcases h.entry x with heq | ⟨hsome, hup⟩
      · exact .inl heq
      · refine .inr ⟨hsome, hup.setReload hj rfl rfl (fun _ h => h) (fun h => nomatch h) ?_⟩
        intro rest' hold _ hvalue
        obtain rfl := Reload.adding.inj hold
        rw [src.value_cons_of_ne hne] at hvalue
        exact .inr ⟨rest, hmem, hrest, hvalue⟩
  · refine (h.halting r' hr' hhalt).setReload hj rfl rfl (fun _ h => h) (fun h => nomatch h) ?_
    intro rest' hold _ hr'rest
    obtain rfl := Reload.adding.inj hold
    rcases List.mem_cons.mp hr'rest with rfl | hr'rest
    · rw [Source.add, hhalt] at hadd
      cases hadd
    · exact .inr ⟨rest, hmem, hrest, hr'rest⟩

/-- What one step of a reload preserves. -/
theorem inv_reloadStep (h : Inv src s) (hj : s.reloads[j]? = some reload)
    (hsafe : ∀ r rest, reload = .adding (r :: rest) → (r :: rest) <:+ src.rows s.db ∨ Pending s)
    (hstep : reloadStep src s j reload = some t) : Inv src t := by
  cases reload with
  | spawned =>
    obtain rfl := Option.some.inj hstep
    have hcleared : Reload.cleared ∈ s.reloads.set j .cleared := mem_set_self hj
    refine .inr ⟨fun x => ?_, fun r _ _ => .inl hcleared⟩
    cases hvalue : src.value (src.rows s.db) x with
    | none => exact .inl rfl
    | some v => exact .inr ⟨rfl, .inl hcleared⟩
  | cleared =>
    obtain rfl := Option.some.inj hstep
    rcases h with hpending | hcovered
    · exact .inl (hpending.setReload hj (fun h => nomatch h) rfl rfl)
    · have hmem : Reload.adding (src.rows s.db) ∈ s.reloads.set j (.adding (src.rows s.db)) :=
        mem_set_self hj
      refine .inr ⟨fun x => ?_, fun r hr hhalt => ?_⟩
      · rcases hcovered.entry x with heq | ⟨hsome, hup⟩
        · exact .inl heq
        · exact .inr ⟨hsome, hup.setReload hj rfl rfl (fun _ h => h)
            (fun _ => .inr ⟨_, hmem, List.suffix_refl _, hsome⟩) (fun _ h => nomatch h)⟩
      · exact (hcovered.halting r hr hhalt).setReload hj rfl rfl (fun _ h => h)
          (fun _ => .inr ⟨_, hmem, List.suffix_refl _, hr⟩) (fun _ h => nomatch h)
  | adding rows =>
    cases rows with
    | nil =>
      obtain rfl := Option.some.inj hstep
      rcases h with hpending | hcovered
      · exact .inl (hpending.setReload hj (fun h => nomatch h) rfl rfl)
      · refine .inr ⟨fun x => ?_, fun r hr hhalt => ?_⟩
        · rcases hcovered.entry x with heq | ⟨hsome, hup⟩
          · exact .inl heq
          · refine .inr ⟨hsome, hup.setReload hj rfl rfl (fun _ h => h) (fun h => nomatch h) ?_⟩
            intro rest hold _ hvalue
            obtain rfl := Reload.adding.inj hold
            cases hvalue
        · refine (hcovered.halting r hr hhalt).setReload hj rfl rfl (fun _ h => h)
            (fun h => nomatch h) ?_
          intro rest hold _ hmem
          obtain rfl := Reload.adding.inj hold
          exact absurd hmem List.not_mem_nil
    | cons r rest =>
      obtain ⟨pool, hadd, rfl⟩ := Option.map_eq_some_iff.mp hstep
      rcases h with hpending | hcovered
      · exact .inl (hpending.setReload hj (fun h => nomatch h) rfl rfl)
      · rcases hsafe r rest rfl with hsuffix | hpending
        · exact .inr (hcovered.add hj hsuffix hadd)
        · exact .inl (hpending.setReload hj (fun h => nomatch h) rfl rfl)
  | finished => cases hstep

/-- A state in which nothing runs, with the cache of its store. -/
theorem inv_of_build {pool : K → Option V} (hpool : src.build (src.rows s.db) = some pool)
    (hs : s.pool = pool) : Inv src s := by
  obtain ⟨hhalt, hvalue⟩ := src.build_eq_some.mp hpool
  refine .inr ⟨fun x => .inl ?_, fun r hr h => absurd h (hhalt r hr)⟩
  rw [hs, hvalue x]

/-- When everything has finished the cache is that of the store. -/
theorem Inv.build (h : Inv src s) (hq : Quiescent s) : src.build (src.rows s.db) = some s.pool := by
  have hup : ∀ missing, ¬ Upcoming src s missing := by
    rintro missing (hcleared | ⟨rest, hadding, -⟩)
    · exact nomatch hq.reloads _ hcleared
    · exact nomatch hq.reloads _ hadding
  rcases h with (hspawned | ⟨q, hmem, howes⟩) | ⟨hentry, hhalting⟩
  · exact nomatch hq.reloads _ hspawned
  · have hspawns := howes.2
    rw [Request.spawns, hq.requests q hmem] at hspawns
    cases hspawns
  · refine src.build_eq_some.mpr ⟨fun r hr h => hup _ (hhalting r hr h), fun x => ?_⟩
    rcases hentry x with heq | ⟨-, h⟩
    · exact heq
    · exact absurd h (hup _)

variable [DecidableEq R]

/-- What one instruction preserves. -/
theorem inv_instrStep {instr : Instr D} {rest : List (Instr D)} (h : Inv src s)
    (hi : s.requests[i]? = some q) (hprog : q.prog = instr :: rest)
    (hsafe : InstrSafe src s i q rest instr) : Inv src (instrStep src s i q.changed rest instr) := by
  cases instr with
  | spawn => exact .inl (.inl (List.mem_append_right _ (List.mem_singleton_self _)))
  | check f =>
    rcases h with hpending | hcovered
    · refine .inl (hpending.set hi rfl rfl fun howes => ?_)
      cases hf : f s.db with
      | true =>
        have hspawns : rest.any Instr.isSpawn = true := by
          simpa [Request.spawns, hprog, Instr.isSpawn] using howes.2
        exact .inl ⟨howes.1, hspawns⟩
      | false => exact .inr (hsafe hf howes)
    · exact .inr (hcovered.congr rfl rfl rfl)
  | commit f =>
    simp only [InstrSafe] at hsafe
    simp only [instrStep]
    cases hf : f s.db with
    | none =>
      simp only [hf] at hsafe
      rcases h with hpending | hcovered
      · exact .inl (hpending.set hi rfl rfl fun howes => .inr (hsafe howes))
      · exact .inr (hcovered.congr rfl rfl rfl)
    | some db =>
      simp only [hf] at hsafe
      by_cases hrows : src.rows db = src.rows s.db
      · rcases h with hpending | hcovered
        · refine .inl (hpending.set hi rfl rfl fun howes => .inl ⟨?_, ?_⟩)
          · simp [howes.1]
          · show rest.any Instr.isSpawn = true
            simpa [Request.spawns, hprog, Instr.isSpawn] using howes.2
        · exact .inr (hcovered.congr hrows rfl rfl)
      · rcases hsafe hrows with hspawn | hahead | ⟨hcleared, hpool⟩
        · refine .inl (pending_of_owes hi rfl ⟨?_, hspawn⟩)
          simp [hrows]
        · exact .inl (pending_of_ahead rfl rfl hahead)
        · refine .inr ⟨fun x => ?_, fun r _ _ => .inl hcleared⟩
          cases hvalue : src.value (src.rows db) x with
          | some v => exact .inr ⟨by simp, .inl hcleared⟩
          | none =>
            have hnone : ¬ (s.pool x).isSome := fun hsome => by
              have := hpool x hsome
              rw [hvalue] at this
              cases this
            exact .inl (Option.not_isSome_iff_eq_none.mp hnone)

/-! ## The result -/

/-- **Step lemma**: a safe step keeps the invariant. -/
theorem inv_step {a : Action Op} (h : Inv src s) (hsafe : Safe src s a)
    (hstep : step src program s a = some t) : Inv src t := by
  cases a with
  | request op =>
    obtain rfl := Option.some.inj hstep
    rcases h with (hspawned | ⟨q, hq, howes⟩) | hcovered
    · exact .inl (.inl hspawned)
    · exact .inl (.inr ⟨q, List.mem_append_left _ hq, howes⟩)
    · exact .inr (hcovered.congr rfl rfl rfl)
  | instr i =>
    simp only [step] at hstep
    split at hstep
    · next instr rest changed hi =>
      obtain rfl := Option.some.inj hstep
      exact inv_instrStep h hi rfl (hsafe _ instr rest hi rfl)
    · cases hstep
  | reload j =>
    simp only [step] at hstep
    split at hstep
    · next reload hj =>
      refine inv_reloadStep h hj ?_ hstep
      rintro r rest rfl
      exact hsafe r rest hj
    · cases hstep

/-- **Convergence**: after a run of safe steps from a state whose cache is that of its store, once
every request and every reload has finished, the cache is that of the final store. -/
theorem converges (h : Transition.Reaches (step src program) (Safe src) s t) (hs : Inv src s)
    (hq : Quiescent t) : src.build (src.rows t.db) = some t.pool :=
  Inv.build (h.invariant (fun _ _ _ hinv hok hst => inv_step hinv hok hst) hs) hq

end Invariant

end Refresh
