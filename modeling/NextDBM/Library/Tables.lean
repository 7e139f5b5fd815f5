import Mathlib.Data.List.MinMax
import Mathlib.Data.List.Nodup
import Mathlib.Data.List.Sort

/-!
# Keyed tables

A table of a relational database: a list of rows no two of which have the same primary key. The key
constraint is a field of the structure, so every operation below comes with the proof that it keeps
the constraint: an insert that would break it is refused, an update may not touch the key.

A query that asks for the first row of a filter orders by the primary key, as an object-relational
mapper's `First` does; it is the row of smallest key among the matching ones.
-/

namespace Relational

/-- Rows with pairwise distinct primary keys. -/
structure Table (α : Type*) {κ : Type*} (key : α → κ) where
  /-- The rows, in no particular order. -/
  rows : List α
  /-- The primary key identifies a row. -/
  nodup : (rows.map key).Nodup

namespace Table

variable {α κ : Type*} {key : α → κ}

instance : Membership α (Table α key) := ⟨fun t a => a ∈ t.rows⟩

theorem mem_def {t : Table α key} {a : α} : a ∈ t ↔ a ∈ t.rows := Iff.rfl

@[ext] theorem ext {t u : Table α key} (h : t.rows = u.rows) : t = u := by
  cases t; cases u; cases h; rfl

/-- The table without rows. -/
def empty : Table α key := ⟨[], List.nodup_nil⟩

/-- A table of one row. -/
def single (a : α) : Table α key := ⟨[a], List.nodup_singleton _⟩

instance : EmptyCollection (Table α key) := ⟨empty⟩

instance : Inhabited (Table α key) := ⟨empty⟩

@[simp] theorem rows_empty : (∅ : Table α key).rows = [] := rfl

instance {t : Table α key} {p : α → Prop} [DecidablePred p] : Decidable (∃ a ∈ t, p a) :=
  inferInstanceAs (Decidable (∃ a ∈ t.rows, p a))

instance {t : Table α key} {p : α → Prop} [DecidablePred p] : Decidable (∀ a ∈ t, p a) :=
  inferInstanceAs (Decidable (∀ a ∈ t.rows, p a))

/-- Two rows of a table with the same key are the same row. -/
theorem eq_of_key {t : Table α key} {a b : α} (ha : a ∈ t) (hb : b ∈ t) (h : key a = key b) :
    a = b :=
  List.inj_on_of_nodup_map t.nodup ha hb h

/-! ## Queries -/

/-- The rows that satisfy a condition, in table order. -/
def select (t : Table α key) (p : α → Bool) : List α := t.rows.filter p

@[simp] theorem mem_select {t : Table α key} {p : α → Bool} {a : α} :
    a ∈ t.select p ↔ a ∈ t ∧ p a = true := by
  simp [select, mem_def]

section First

variable [LinearOrder κ]

/-- The matching row with the smallest primary key. -/
def first (t : Table α key) (p : α → Bool) : Option α := (t.select p).argmin key

/-- `first` returns a matching row, and no matching row has a smaller key. -/
theorem first_eq_some {t : Table α key} {p : α → Bool} {a : α} :
    t.first p = some a ↔ a ∈ t ∧ p a = true ∧ ∀ b ∈ t, p b = true → key a ≤ key b := by
  constructor
  · intro h
    obtain ⟨ha, hp⟩ := mem_select.mp (List.argmin_mem h)
    exact ⟨ha, hp, fun b hb hpb => List.le_of_mem_argmin (mem_select.mpr ⟨hb, hpb⟩) h⟩
  · rintro ⟨ha, hp, hle⟩
    cases hf : t.first p with
    | none =>
      have hnil : t.select p = [] := List.argmin_eq_none.mp hf
      exact absurd (mem_select.mpr ⟨ha, hp⟩) (by rw [hnil]; exact List.not_mem_nil)
    | some b =>
      obtain ⟨hb, hpb⟩ := mem_select.mp (List.argmin_mem hf)
      have hba : key b ≤ key a := List.le_of_mem_argmin (mem_select.mpr ⟨ha, hp⟩) hf
      rw [eq_of_key hb ha (le_antisymm hba (hle b hb hpb))]

/-- `first` finds nothing exactly when no row matches. -/
theorem first_eq_none {t : Table α key} {p : α → Bool} :
    t.first p = none ↔ ∀ a ∈ t, ¬ p a = true := by
  rw [first, List.argmin_eq_none, select, List.filter_eq_nil_iff]
  rfl

theorem first_isSome {t : Table α key} {p : α → Bool} :
    (t.first p).isSome ↔ ∃ a ∈ t, p a = true := by
  rw [← not_iff_not, Option.not_isSome_iff_eq_none, first_eq_none]
  simp

/-- The matching row with the largest primary key. -/
def last (t : Table α key) (p : α → Bool) : Option α := (t.select p).argmax key

theorem last_eq_some {t : Table α key} {p : α → Bool} {a : α} :
    t.last p = some a ↔ a ∈ t ∧ p a = true ∧ ∀ b ∈ t, p b = true → key b ≤ key a := by
  constructor
  · intro h
    obtain ⟨ha, hp⟩ := mem_select.mp (List.argmax_mem h)
    exact ⟨ha, hp, fun b hb hpb => List.le_of_mem_argmax (mem_select.mpr ⟨hb, hpb⟩) h⟩
  · rintro ⟨ha, hp, hle⟩
    cases hl : t.last p with
    | none =>
      have hnil : t.select p = [] := List.argmax_eq_none.mp hl
      exact absurd (mem_select.mpr ⟨ha, hp⟩) (by rw [hnil]; exact List.not_mem_nil)
    | some b =>
      obtain ⟨hb, hpb⟩ := mem_select.mp (List.argmax_mem hl)
      have hab : key a ≤ key b := List.le_of_mem_argmax (mem_select.mpr ⟨ha, hp⟩) hl
      rw [eq_of_key hb ha (le_antisymm (hle b hb hpb) hab)]

theorem last_eq_none {t : Table α key} {p : α → Bool} :
    t.last p = none ↔ ∀ a ∈ t, ¬ p a = true := by
  rw [last, List.argmax_eq_none, select, List.filter_eq_nil_iff]
  rfl

/-- The rows in ascending order of their keys. -/
def sorted (t : Table α key) : List α := t.rows.insertionSort fun a b => key a ≤ key b

theorem mem_sorted {t : Table α key} {a : α} : a ∈ t.sorted ↔ a ∈ t :=
  List.mem_insertionSort _

theorem pairwise_sorted (t : Table α key) : t.sorted.Pairwise fun a b => key a ≤ key b :=
  List.pairwise_insertionSort (fun a b => key a ≤ key b) t.rows

/-- In a list whose rows are related in their order, the first match is related to every match. -/
theorem rel_of_find?_eq_some {r : α → α → Prop} (hrefl : ∀ a, r a a) {xs : List α}
    (hxs : xs.Pairwise r) {p : α → Bool} {a b : α} (h : xs.find? p = some a) (hb : b ∈ xs)
    (hpb : p b = true) : r a b := by
  induction xs with
  | nil => exact absurd hb List.not_mem_nil
  | cons x xs ih =>
    obtain ⟨hx, hrest⟩ := List.pairwise_cons.mp hxs
    rw [List.find?_cons] at h
    split at h
    · obtain rfl := Option.some.inj h
      rcases List.mem_cons.mp hb with rfl | hb
      · exact hrefl b
      · exact hx b hb
    · next hpx =>
      rcases List.mem_cons.mp hb with rfl | hb
      · exact absurd hpb (by simp [hpx])
      · exact ih hrest h hb

/-- The first match in ascending order is the match of smallest key. -/
theorem find?_sorted (t : Table α key) (p : α → Bool) : t.sorted.find? p = t.first p := by
  cases h : t.sorted.find? p with
  | some a =>
    refine (first_eq_some.mpr ⟨mem_sorted.mp (List.mem_of_find?_eq_some h), List.find?_some h,
      fun b hb hpb => ?_⟩).symm
    exact rel_of_find?_eq_some (r := fun a b => key a ≤ key b) (fun _ => le_rfl)
      t.pairwise_sorted h (mem_sorted.mpr hb) hpb
  | none =>
    exact (first_eq_none.mpr fun a ha => List.find?_eq_none.mp h a (mem_sorted.mpr ha)).symm

/-- The last match in ascending order is the match of largest key. -/
theorem find?_reverse_sorted (t : Table α key) (p : α → Bool) :
    t.sorted.reverse.find? p = t.last p := by
  cases h : t.sorted.reverse.find? p with
  | some a =>
    have ha := List.mem_reverse.mp (List.mem_of_find?_eq_some h)
    refine (last_eq_some.mpr ⟨mem_sorted.mp ha, List.find?_some h, fun b hb hpb => ?_⟩).symm
    have hpair : t.sorted.reverse.Pairwise fun a b => key b ≤ key a :=
      List.pairwise_reverse.mpr t.pairwise_sorted
    exact rel_of_find?_eq_some (r := fun a b => key b ≤ key a) (fun _ => le_rfl) hpair h
      (List.mem_reverse.mpr (mem_sorted.mpr hb)) hpb
  | none =>
    refine (last_eq_none.mpr fun a ha => ?_).symm
    exact List.find?_eq_none.mp h a (List.mem_reverse.mpr (mem_sorted.mpr ha))

/-- The row with a given primary key. -/
def findById (t : Table α key) (k : κ) : Option α := t.first fun a => decide (key a = k)

theorem findById_eq_some {t : Table α key} {k : κ} {a : α} :
    t.findById k = some a ↔ a ∈ t ∧ key a = k := by
  rw [findById, first_eq_some]
  constructor
  · rintro ⟨ha, hp, -⟩
    exact ⟨ha, of_decide_eq_true hp⟩
  · rintro ⟨ha, rfl⟩
    refine ⟨ha, decide_eq_true rfl, fun b _ hb => ?_⟩
    exact le_of_eq (of_decide_eq_true hb).symm

theorem findById_eq_none {t : Table α key} {k : κ} :
    t.findById k = none ↔ ∀ a ∈ t, key a ≠ k := by
  rw [findById, first_eq_none]
  simp

end First

/-! ## Writes -/

/-- Delete the rows that satisfy a condition. -/
def deleteWhere (t : Table α key) (p : α → Bool) : Table α key :=
  ⟨t.rows.filter fun a => !p a, t.nodup.sublist (List.filter_sublist.map key)⟩

@[simp] theorem mem_deleteWhere {t : Table α key} {p : α → Bool} {a : α} :
    a ∈ t.deleteWhere p ↔ a ∈ t ∧ p a = false := by
  simp [deleteWhere, mem_def]

/-- Where no row satisfies the condition, none is deleted. -/
theorem deleteWhere_eq_self {t : Table α key} {p : α → Bool} (h : ∀ a ∈ t, p a = false) :
    t.deleteWhere p = t := by
  refine ext (List.filter_eq_self.mpr fun a ha => ?_)
  rw [h a ha, Bool.not_false]

/-- Rewrite every row with a function that keeps the key. -/
def modify (t : Table α key) (f : α → α) (hf : ∀ a, key (f a) = key a) : Table α key :=
  ⟨t.rows.map f, by
    have h : (t.rows.map f).map key = t.rows.map key := by
      rw [List.map_map]
      exact List.map_congr_left fun a _ => hf a
    exact h ▸ t.nodup⟩

@[simp] theorem mem_modify {t : Table α key} {f : α → α} {hf : ∀ a, key (f a) = key a} {a : α} :
    a ∈ t.modify f hf ↔ ∃ b ∈ t, f b = a := by
  simp [modify, mem_def]

section ById

variable [DecidableEq κ]

/-- Rewrite the row with a given primary key. -/
def updateById (t : Table α key) (k : κ) (f : α → α) (hf : ∀ a, key (f a) = key a) : Table α key :=
  t.modify (fun a => if key a = k then f a else a) fun a => by
    split
    · exact hf a
    · rfl

theorem mem_updateById {t : Table α key} {k : κ} {f : α → α} (hf : ∀ a, key (f a) = key a)
    {a : α} (h : a ∈ t.updateById k f hf) : a ∈ t ∨ ∃ b ∈ t, key b = k ∧ f b = a := by
  obtain ⟨b, hb, hba⟩ := mem_modify.mp h
  split at hba
  · next hk => exact .inr ⟨b, hb, hk, hba⟩
  · exact .inl (hba ▸ hb)

/-- The rows with other keys stay. -/
theorem mem_updateById_of_ne {t : Table α key} {a : α} (ha : a ∈ t) {k : κ} (hk : key a ≠ k)
    (f : α → α) (hf : ∀ a, key (f a) = key a) : a ∈ t.updateById k f hf :=
  List.mem_map.mpr ⟨a, ha, if_neg hk⟩

/-- The row with the key of an update is the updated one. -/
theorem exists_of_mem_updateById {t : Table α key} {k : κ} {f : α → α}
    (hf : ∀ a, key (f a) = key a) {a : α} (h : a ∈ t.updateById k f hf) (hk : key a = k) :
    ∃ b ∈ t, key b = k ∧ a = f b := by
  obtain ⟨b, hb, hba⟩ := mem_modify.mp h
  by_cases hbk : key b = k
  · rw [if_pos hbk] at hba
    exact ⟨b, hb, hbk, hba.symm⟩
  · rw [if_neg hbk] at hba
    rw [← hba] at hk
    exact absurd hk hbk

/-- An update that leaves its row as it is changes nothing. -/
theorem updateById_eq_self {t : Table α key} {k : κ} {f : α → α} (hf : ∀ a, key (f a) = key a)
    (h : ∀ a ∈ t, key a = k → f a = a) : t.updateById k f hf = t := by
  refine ext ((List.map_congr_left fun a ha => ?_).trans (List.map_id t.rows))
  split
  · next hk => exact h a ha hk
  · rfl

/-- An update rewrites its row where it stands. -/
theorem rows_updateById {t : Table α key} {xs ys : List α} {a : α} (h : t.rows = xs ++ a :: ys)
    (f : α → α) (hf : ∀ a, key (f a) = key a) :
    (t.updateById (key a) f hf).rows = xs ++ f a :: ys := by
  have hnodup := t.nodup
  rw [h, List.map_append, List.map_cons, List.nodup_append, List.nodup_cons] at hnodup
  obtain ⟨-, ⟨hys, -⟩, hxs⟩ := hnodup
  have hkeep {zs : List α} (hzs : ∀ b ∈ zs, key b ≠ key a) :
      zs.map (fun b => if key b = key a then f b else b) = zs := by
    rw [List.map_congr_left fun b hb => if_neg (hzs b hb), List.map_id']
  show (t.rows.map fun b => if key b = key a then f b else b) = xs ++ f a :: ys
  rw [h, List.map_append, List.map_cons, if_pos rfl, hkeep, hkeep]
  · exact fun b hb heq => hys (heq ▸ List.mem_map_of_mem hb)
  · exact fun b hb heq => hxs _ (List.mem_map_of_mem hb) _ List.mem_cons_self heq

theorem exists_mem_updateById {t : Table α key} {a : α} (ha : a ∈ t) (k : κ) (f : α → α)
    (hf : ∀ a, key (f a) = key a) :
    ∃ b ∈ t.updateById k f hf, key b = key a := by
  refine ⟨_, mem_modify.mpr ⟨a, ha, rfl⟩, ?_⟩
  split
  · exact hf a
  · rfl

/-- Store a row under its key, in place of the one that stood there. -/
def put (t : Table α key) (a : α) : Table α key :=
  ⟨a :: t.rows.filter fun b => !decide (key b = key a), by
    rw [List.map_cons, List.nodup_cons]
    refine ⟨fun h => ?_, t.nodup.sublist (List.filter_sublist.map key)⟩
    obtain ⟨b, hb, hkey⟩ := List.mem_map.mp h
    have hne := (List.mem_filter.mp hb).2
    simp [hkey] at hne⟩

@[simp] theorem mem_put {t : Table α key} {a b : α} :
    b ∈ t.put a ↔ b = a ∨ b ∈ t ∧ key b ≠ key a := by
  simp [put, mem_def]

end ById

section Insert

variable [DecidableEq κ]

/-- Insert a row; refused when its key is taken. -/
def insert (t : Table α key) (a : α) : Option (Table α key) :=
  if h : key a ∈ t.rows.map key then none
  else some ⟨a :: t.rows, List.nodup_cons.mpr ⟨h, t.nodup⟩⟩

theorem insert_eq_none {t : Table α key} {a : α} :
    t.insert a = none ↔ ∃ b ∈ t, key b = key a := by
  rw [insert]
  split
  · next h => simpa [mem_def] using h
  · next h => simpa [mem_def] using h

theorem mem_of_insert {t t' : Table α key} {a b : α} (h : t.insert a = some t') :
    b ∈ t' ↔ b = a ∨ b ∈ t := by
  rw [insert] at h
  split at h
  · exact absurd h (by simp)
  · obtain rfl := Option.some.inj h
    exact List.mem_cons

theorem rows_of_insert {t t' : Table α key} {a : α} (h : t.insert a = some t') :
    t'.rows = a :: t.rows := by
  rw [insert] at h
  split at h
  · cases h
  · obtain rfl := Option.some.inj h
    rfl

/-- Insert several rows in one statement: all of them, or none when a key is taken. -/
def insertAll (t : Table α key) : List α → Option (Table α key)
  | [] => some t
  | a :: as => (t.insert a).bind fun t' => t'.insertAll as

theorem mem_of_insertAll {t t' : Table α key} {as : List α} {b : α} (h : t.insertAll as = some t') :
    b ∈ t' ↔ b ∈ as ∨ b ∈ t := by
  induction as generalizing t with
  | nil =>
    obtain rfl := Option.some.inj h
    simp
  | cons a as ih =>
    obtain ⟨t₁, h₁, h₂⟩ := Option.bind_eq_some_iff.mp h
    rw [ih h₂, mem_of_insert h₁, List.mem_cons]
    tauto

theorem rows_of_insertAll {t t' : Table α key} {as : List α} (h : t.insertAll as = some t') :
    t'.rows = as.reverse ++ t.rows := by
  induction as generalizing t with
  | nil =>
    obtain rfl := Option.some.inj h
    rfl
  | cons a as ih =>
    obtain ⟨t₁, h₁, h₂⟩ := Option.bind_eq_some_iff.mp h
    rw [ih h₂, rows_of_insert h₁, List.reverse_cons, List.append_assoc]
    rfl

/-- Rows with new and distinct keys can be inserted. -/
theorem exists_insertAll {t : Table α key} {as : List α} (hnodup : (as.map key).Nodup)
    (hnew : ∀ a ∈ as, ∀ b ∈ t, key b ≠ key a) : ∃ t', t.insertAll as = some t' := by
  induction as generalizing t with
  | nil => exact ⟨t, rfl⟩
  | cons a as ih =>
    obtain ⟨hfirst, hnodup⟩ := List.nodup_cons.mp hnodup
    cases hinsert : t.insert a with
    | none =>
      obtain ⟨b, hb, heq⟩ := insert_eq_none.mp hinsert
      exact absurd heq (hnew a List.mem_cons_self b hb)
    | some t₁ =>
      have hrest : ∀ c ∈ as, ∀ b ∈ t₁, key b ≠ key c := by
        intro c hc b hb
        rcases (mem_of_insert hinsert).mp hb with rfl | hb
        · exact fun heq => hfirst (heq ▸ List.mem_map_of_mem hc)
        · exact hnew c (List.mem_cons_of_mem a hc) b hb
      obtain ⟨t', ht'⟩ := ih hnodup hrest
      refine ⟨t', ?_⟩
      rw [insertAll, hinsert]
      exact ht'

/-- Rows that are inserted together have distinct keys. -/
theorem nodup_of_insertAll {t t' : Table α key} {as : List α} (h : t.insertAll as = some t') :
    (as.map key).Nodup := by
  have hnodup := t'.nodup
  rw [rows_of_insertAll h, List.map_append, List.map_reverse] at hnodup
  exact List.nodup_reverse.mp (List.nodup_append.mp hnodup).1

/-- Insert rows by statements of at most `n` rows each: `working` holds what the open statement has
inserted so far, `committed` what the statements before it did, `room` is how many rows still fit.
Returns the table after the last statement that went through, and whether all of them did. -/
def insertStatements (n : Nat) (committed working : Table α key) (room : Nat) :
    List α → Table α key × Bool
  | [] => (working, true)
  | a :: as =>
    match working.insert a with
    | some working' =>
      if room = 0 then insertStatements n working working' (n - 1) as
      else insertStatements n committed working' (room - 1) as
    | none => (if room = 0 then working else committed, false)

/-- Insert rows in batches of `n`. -/
def insertInBatches (t : Table α key) (n : Nat) (as : List α) : Table α key × Bool :=
  insertStatements n t t n as

theorem mem_of_insertStatements {n room : Nat} {committed working : Table α key} {as : List α}
    {b : α} (h : b ∈ (insertStatements n committed working room as).1) :
    b ∈ as ∨ b ∈ committed ∨ b ∈ working := by
  induction as generalizing committed working room with
  | nil => exact .inr (.inr h)
  | cons a as ih =>
    rw [insertStatements] at h
    split at h
    · next working' hinsert =>
      have hworking : b ∈ working' → b ∈ a :: as ∨ b ∈ committed ∨ b ∈ working := by
        intro hb
        rcases (mem_of_insert hinsert).mp hb with rfl | hb
        · exact .inl List.mem_cons_self
        · exact .inr (.inr hb)
      split at h
      · rcases ih h with hb | hb | hb
        · exact .inl (List.mem_cons_of_mem _ hb)
        · exact .inr (.inr hb)
        · exact hworking hb
      · rcases ih h with hb | hb | hb
        · exact .inl (List.mem_cons_of_mem _ hb)
        · exact .inr (.inl hb)
        · exact hworking hb
    · by_cases hroom : room = 0
      · rw [if_pos hroom] at h
        exact .inr (.inr h)
      · rw [if_neg hroom] at h
        exact .inr (.inl h)

/-- Every row after a batched insert is one of the new rows or was there before. -/
theorem mem_of_insertInBatches {t : Table α key} {n : Nat} {as : List α} {b : α}
    (h : b ∈ (t.insertInBatches n as).1) : b ∈ as ∨ b ∈ t := by
  rcases mem_of_insertStatements h with hb | hb | hb
  · exact .inl hb
  · exact .inr hb
  · exact .inr hb

end Insert

end Table

/-! ## Joins of lists of rows

The inner and the left outer join of relational queries, as nested loops. A left row without a match
is paired with `none`.
-/

variable {α β : Type*} {xs : List α} {ys : List β} {p : α → β → Bool} {a : α} {b : β}

/-- Every pair of rows that satisfies the join condition. -/
def innerJoin (xs : List α) (ys : List β) (p : α → β → Bool) : List (α × β) :=
  xs.flatMap fun a => (ys.filter (p a)).map fun b => (a, b)

/-- The matches of a row, or one `none` when there is no match. -/
def matchesOrNone : List β → List (Option β)
  | [] => [none]
  | bs => bs.map some

/-- Every left row with each of its matches, or with `none`. -/
def leftJoin (xs : List α) (ys : List β) (p : α → β → Bool) : List (α × Option β) :=
  xs.flatMap fun a => (matchesOrNone (ys.filter (p a))).map fun b => (a, b)

theorem mem_innerJoin : (a, b) ∈ innerJoin xs ys p ↔ a ∈ xs ∧ b ∈ ys ∧ p a b = true := by
  simp only [innerJoin, List.mem_flatMap, List.mem_map, List.mem_filter, Prod.mk.injEq]
  constructor
  · rintro ⟨a', ha, b', ⟨hb, hp⟩, rfl, rfl⟩
    exact ⟨ha, hb, hp⟩
  · rintro ⟨ha, hb, hp⟩
    exact ⟨a, ha, b, ⟨hb, hp⟩, rfl, rfl⟩

theorem some_mem_matchesOrNone {bs : List β} : some b ∈ matchesOrNone bs ↔ b ∈ bs := by
  cases bs with
  | nil => simp [matchesOrNone]
  | cons c cs => simp [matchesOrNone]

theorem some_mem_leftJoin : (a, some b) ∈ leftJoin xs ys p ↔ a ∈ xs ∧ b ∈ ys ∧ p a b = true := by
  simp only [leftJoin, List.mem_flatMap, List.mem_map, Prod.mk.injEq]
  constructor
  · rintro ⟨a', ha, o, ho, rfl, rfl⟩
    obtain ⟨hb, hp⟩ := List.mem_filter.mp (some_mem_matchesOrNone.mp ho)
    exact ⟨ha, hb, hp⟩
  · rintro ⟨ha, hb, hp⟩
    exact ⟨a, ha, some b, some_mem_matchesOrNone.mpr (List.mem_filter.mpr ⟨hb, hp⟩), rfl, rfl⟩

end Relational
