import NextDBM.Library.MySqlEscapes
import NextDBM.Library.MySqlRows

/-!
# Statements that assign

`parseInsertRows` reads an INSERT of rows of literals and `parseUpdateSet` the assignments of an UPDATE.
A text is written for each item; where each of them settles what is read of it (`Settles`), a list is
read as it is meant exactly if its items are.
-/

namespace MySqlText

open ScriptNumber (Numeral asNumeral Stops)

/-! ## Readers -/

section Readers

variable {α β : Type}

/-- One item after another. -/
def pair (a : Bytes → Option (α × Bytes)) (b : Bytes → Option (β × Bytes)) (t : Bytes) :
    Option ((α × β) × Bytes) :=
  (a t).bind fun x => (b x.2).map fun y => ((x.1, y.1), y.2)

/-- An item after something that stands for itself. -/
def after (f : Bytes → Option Bytes) (item : Bytes → Option (α × Bytes)) (t : Bytes) :
    Option (α × Bytes) := (f t).bind item

def commas (item : Bytes → Option (α × Bytes)) (t : Bytes) : Option (List α × Bytes) :=
  commaList item t.length t

end Readers

structure InsertRows where
  database : Bytes
  table : Bytes
  columns : List Bytes
  rows : List (List Literal)
  deriving DecidableEq, Repr

structure UpdateSet where
  database : Bytes
  table : Bytes
  sets : List (Bytes × Literal)
  deriving DecidableEq, Repr

section Reserved

variable (reserved : Bytes → Bool)

/-- A table with its database. -/
def qualified : Bytes → Option ((Bytes × Bytes) × Bytes) :=
  pair (name reserved) (after (punctuation 46) (name reserved))

def insertRows : Bytes → Option (((Bytes × Bytes) × List Bytes × List (List Literal)) × Bytes) :=
  after (keyword (ascii "INSERT")) (after (keyword (ascii "INTO")) (pair (qualified reserved)
    (pair (parenthesized (name reserved))
      (after (keyword (ascii "VALUES")) (commas (parenthesized literal))))))

def parseInsertRows (t : Bytes) : Option InsertRows :=
  (insertRows reserved t).bind fun (((database, table), columns, rows), t) =>
    (punctuation 59 t).bind fun t =>
      if skipSpace t = [] then some { database, table, columns, rows } else none

def assignment : Bytes → Option ((Bytes × Literal) × Bytes) :=
  pair (name reserved) (after (punctuation 61) literal)

def updateSet : Bytes → Option (((Bytes × Bytes) × List (Bytes × Literal)) × Bytes) :=
  after (keyword (ascii "UPDATE")) (pair (qualified reserved)
    (after (keyword (ascii "SET")) (commas (assignment reserved))))

/-- The assignments of an UPDATE, up to its condition. -/
def parseUpdateSet (t : Bytes) : Option UpdateSet :=
  (updateSet reserved t).bind fun (((database, table), sets), t) =>
    (keyword (ascii "WHERE") t).map fun _ => { database, table, sets }

end Reserved

variable {d r s t w : Bytes} {c n : Nat} {reserved : Bytes → Bool}

/-! ## Items -/

/-- The text is read as something that `P` accepts exactly if `good` holds, whatever follows it. -/
structure Settles {α : Type} (E : Bytes → Prop) (item : Bytes → Option (α × Bytes)) (s : Bytes)
    (P : α → Prop) (good : Prop) : Prop where
  reads : good → ∀ ⦃t⦄, E t → ∃ x r, item (s ++ t) = some (x, r) ∧ P x ∧ skipSpace r = skipSpace t
  fails : ¬ good → ∀ ⦃t⦄, E t → ∀ ⦃x r⦄, item (s ++ t) = some (x, r) → ¬ P x

theorem head_of_punctuation (h : punctuation c t ≠ none) : (skipSpace t).head? = some c := by
  unfold punctuation at h
  split at h
  · exact absurd rfl h
  next d t' hskip =>
    split at h
    next hd => rw [hskip, hd, List.head?_cons]
    · exact absurd rfl h

section Readers

variable {α β : Type} {E E' : Bytes → Prop} {a : Bytes → Option (α × Bytes)}
  {b : Bytes → Option (β × Bytes)} {f : Bytes → Option Bytes} {P : α → Prop} {Q : β → Prop}
  {good good' : Prop} {s' z : Bytes}

/-- Spaces before it make no difference. -/
def Spaced {γ : Type} (f : Bytes → Option γ) : Prop := ∀ ⦃r t⦄, skipSpace r = skipSpace t → f r = f t

theorem spaced_punctuation (c : Nat) : Spaced (punctuation c) := by
  intro r t h
  unfold punctuation
  rw [h]

theorem spaced_keyword (w : Bytes) : Spaced (keyword w) := by
  intro r t h
  unfold keyword
  rw [h]

theorem Spaced.after (h : Spaced f) (item : Bytes → Option (α × Bytes)) : Spaced (after f item) := by
  intro r t heq
  unfold MySqlText.after
  rw [h heq]

theorem Spaced.pair (h : Spaced a) (b : Bytes → Option (β × Bytes)) : Spaced (pair a b) := by
  intro r t heq
  unfold MySqlText.pair
  rw [h heq]

theorem spaced_parenthesized (item : Bytes → Option (α × Bytes)) : Spaced (parenthesized item) := by
  intro r t h
  unfold parenthesized
  rw [spaced_punctuation 40 h]

/-- **One item after another is read as both are.** -/
theorem Settles.pair (ha : Settles E a s P good) (hb : Settles E' b s' Q good') (hspaced : Spaced b)
    (hE : ∀ t, E' t → E (s' ++ t)) :
    Settles E' (pair a b) (s ++ s') (fun x => P x.1 ∧ Q x.2) (good ∧ good') where
  reads := by
    rintro ⟨hgood, hgood'⟩ t ht
    obtain ⟨x, r, hread, hx, hr⟩ := ha.reads hgood (hE t ht)
    obtain ⟨y, r', hread', hy, hr'⟩ := hb.reads hgood' ht
    refine ⟨(x, y), r', ?_, ⟨hx, hy⟩, hr'⟩
    rw [List.append_assoc, MySqlText.pair, hread, Option.bind_some, hspaced hr, hread']
    rfl
  fails := by
    rintro hbad t ht ⟨x, y⟩ r h ⟨hx, hy⟩
    rw [List.append_assoc] at h
    obtain ⟨⟨x', r'⟩, hread, hrest⟩ := Option.bind_eq_some_iff.mp h
    obtain ⟨⟨y', r''⟩, hread', heq⟩ := Option.map_eq_some_iff.mp hrest
    obtain ⟨hsame, rfl⟩ := Prod.mk.inj heq
    obtain ⟨rfl, rfl⟩ := Prod.mk.inj hsame
    by_cases hgood : good
    · obtain ⟨x'', r₃, hread₃, -, hr⟩ := ha.reads hgood (hE t ht)
      rw [hread] at hread₃
      obtain ⟨-, rfl⟩ := Prod.mk.inj (Option.some.inj hread₃)
      rw [hspaced hr] at hread'
      exact hb.fails (fun hgood' => hbad ⟨hgood, hgood'⟩) ht hread' hy
    · exact ha.fails hgood (hE t ht) hread hx

theorem Settles.after (h : Settles E a (z ++ s) P good) {p : Bytes}
    (hf : ∀ t, f (p ++ t) = some (z ++ t)) : Settles E (after f a) (p ++ s) P good where
  reads hgood t ht := by
    obtain ⟨x, r, hread, hx, hr⟩ := h.reads hgood ht
    refine ⟨x, r, ?_, hx, hr⟩
    rw [List.append_assoc, MySqlText.after, hf, Option.bind_some, ← List.append_assoc, hread]
  fails hbad t ht x r hread := by
    rw [List.append_assoc, MySqlText.after, hf, Option.bind_some, ← List.append_assoc] at hread
    exact h.fails hbad ht hread

theorem Settles.spaced (h : Settles E a s P good) (hspaced : Spaced a) {z : Bytes}
    (hz : ∀ c ∈ z, isSpace c = true) : Settles E a (z ++ s) P good := by
  have hskip (t : Bytes) : skipSpace (z ++ s ++ t) = skipSpace (s ++ t) := by
    rw [List.append_assoc, skipSpace, List.dropWhile_append_of_pos hz]
    rfl
  constructor
  · intro hgood t ht
    rw [hspaced (hskip t)]
    exact h.reads hgood ht
  · intro hbad t ht
    rw [hspaced (hskip t)]
    exact h.fails hbad ht

end Readers

section Lists

variable {α β : Type} {E : Bytes → Prop} {item : Bytes → Option (α × Bytes)} {text : β → Bytes}
  {P : β → α → Prop} {good : β → Prop} {sep : Bytes} {xs : List β}

/-- What follows a list of items: no comma. -/
def EndsList (E : Bytes → Prop) (t : Bytes) : Prop := E t ∧ punctuation 44 t = none ∧ t ≠ []

/-- The texts of the items, with a comma and `sep` between them. -/
def sepText (sep : Bytes) (text : β → Bytes) (xs : List β) : Bytes :=
  (44 :: sep).intercalate (xs.map text)

theorem sepText_singleton (x : β) : sepText sep text [x] = text x := by simp [sepText]

theorem sepText_cons_cons (x y : β) (xs : List β) :
    sepText sep text (x :: y :: xs) = text x ++ 44 :: (sep ++ sepText sep text (y :: xs)) := by
  simp [sepText, List.intercalate_cons_cons]

variable (sep text) in
theorem length_le_length_sepText (xs : List β) : xs.length ≤ (sepText sep text xs).length + 1 := by
  induction xs with
  | nil => exact Nat.zero_le _
  | cons x xs ih =>
    cases xs with
    | nil => exact Nat.le_add_left 1 _
    | cons y xs =>
      rw [sepText_cons_cons]
      simp only [List.length_append, List.length_cons] at ih ⊢
      omega

variable (hE : ∀ t, E (44 :: t)) (hsep : ∀ t, item (sep ++ t) = item t)
  (hitem : ∀ x ∈ xs, Settles E item (text x) (P x) (good x)) (hne : xs ≠ []) (ht : E t)
  (hend : punctuation 44 t = none)

include hsep in
theorem commaList_sep (n : Nat) (t : Bytes) : commaList item n (sep ++ t) = commaList item n t := by
  cases n with
  | zero => rfl
  | succ n =>
    unfold commaList
    rw [hsep]

/-- The first item of a list is read first. -/
theorem commaList_head {y : α} {ys : List α} (h : commaList item n t = some (y :: ys, r)) :
    ∃ r', item t = some (y, r') := by
  cases n with
  | zero => cases h
  | succ n =>
  obtain ⟨⟨y', r'⟩, hread, hrest⟩ := Option.bind_eq_some_iff.mp h
  have hsame : y' = y := by
    dsimp only at hrest
    split at hrest
    · exact (List.cons.inj (Prod.mk.inj (Option.some.inj hrest)).1).1
    · obtain ⟨⟨ys', r''⟩, -, heq⟩ := Option.map_eq_some_iff.mp hrest
      exact (List.cons.inj (Prod.mk.inj heq).1).1
  exact ⟨r', hsame ▸ hread⟩

include hE hsep hitem hne ht hend in
/-- **A list of good items is read.** -/
theorem commaList_of_good (hgood : ∀ x ∈ xs, good x) (hn : xs.length ≤ n) :
    ∃ ys r, commaList item n (sepText sep text xs ++ t) = some (ys, r) ∧ List.Forall₂ P xs ys ∧
      skipSpace r = skipSpace t := by
  induction xs generalizing n with
  | nil => exact absurd rfl hne
  | cons x xs ih =>
    obtain ⟨hx, hxs⟩ := List.forall_mem_cons.mp hitem
    obtain ⟨hgoodx, hgoodxs⟩ := List.forall_mem_cons.mp hgood
    obtain ⟨n, rfl⟩ : ∃ m, n = m + 1 := Nat.exists_eq_succ_of_ne_zero (by
      rw [List.length_cons] at hn
      omega)
    cases xs with
    | nil =>
      obtain ⟨y, r, hread, hy, hr⟩ := hx.reads hgoodx ht
      refine ⟨[y], r, ?_, .cons hy .nil, hr⟩
      rw [sepText_singleton, commaList, hread, Option.bind_some]
      dsimp only
      rw [spaced_punctuation _ hr, hend]
    | cons x' xs =>
      have hlen : (x' :: xs).length ≤ n := by
        rw [List.length_cons] at hn
        omega
      obtain ⟨ys, r', hlist, hys, hr'⟩ := ih hxs (List.cons_ne_nil x' xs) hgoodxs hlen
      obtain ⟨y, r, hread, hy, hr⟩ :=
        hx.reads hgoodx (hE (sep ++ (sepText sep text (x' :: xs) ++ t)))
      refine ⟨y :: ys, r', ?_, .cons hy hys, hr'⟩
      rw [sepText_cons_cons, List.append_assoc, List.cons_append, List.append_assoc, commaList, hread,
        Option.bind_some]
      dsimp only
      rw [spaced_punctuation _ hr, punctuation_self rfl]
      dsimp only
      rw [commaList_sep hsep, hlist]
      rfl

include hE hsep hitem ht in
/-- **A list with an item that is not good is not read as it is meant.** -/
theorem commaList_of_not_good (hbad : ¬ ∀ x ∈ xs, good x) {ys : List α}
    (h : commaList item n (sepText sep text xs ++ t) = some (ys, r)) : ¬ List.Forall₂ P xs ys := by
  intro hys
  induction xs generalizing n ys with
  | nil => exact hbad fun x hx => absurd hx List.not_mem_nil
  | cons x xs ih =>
    obtain ⟨hx, hxs⟩ := List.forall_mem_cons.mp hitem
    cases hys with
    | @cons _ y _ ys hy hys =>
    cases n with
    | zero => cases h
    | succ n =>
    cases xs with
    | nil =>
      obtain ⟨r', hread⟩ := commaList_head h
      rw [sepText_singleton] at hread
      refine hx.fails (fun hgood => hbad ?_) ht hread hy
      exact List.forall_mem_singleton.mpr hgood
    | cons x' xs =>
      rw [sepText_cons_cons, List.append_assoc, List.cons_append, List.append_assoc] at h
      obtain ⟨⟨y', r'⟩, hread, hrest⟩ := Option.bind_eq_some_iff.mp h
      by_cases hgood : good x
      · obtain ⟨y'', r'', hread', -, hr⟩ :=
          hx.reads hgood (hE (sep ++ (sepText sep text (x' :: xs) ++ t)))
        rw [hread] at hread'
        obtain ⟨rfl, rfl⟩ := Prod.mk.inj (Option.some.inj hread')
        dsimp only at hrest
        rw [spaced_punctuation _ hr, punctuation_self rfl] at hrest
        dsimp only at hrest
        rw [commaList_sep hsep] at hrest
        obtain ⟨⟨ys', r₃⟩, hlist, heq⟩ := Option.map_eq_some_iff.mp hrest
        obtain ⟨hys', rfl⟩ := Prod.mk.inj heq
        obtain ⟨-, rfl⟩ := List.cons.inj hys'
        exact ih hxs (fun hall => hbad (List.forall_mem_cons.mpr ⟨hgood, hall⟩)) hlist hys
      · obtain ⟨r'', hread'⟩ := commaList_head h
        exact hx.fails hgood (hE _) hread' hy

omit hE hsep hitem hne ht hend in
theorem commaList_ne_nil {ys : List α} (h : commaList item n t = some (ys, r)) : ys ≠ [] := by
  cases n with
  | zero => cases h
  | succ n =>
    obtain ⟨⟨y, r'⟩, -, hrest⟩ := Option.bind_eq_some_iff.mp h
    dsimp only at hrest
    split at hrest
    · obtain ⟨rfl, -⟩ := Prod.mk.inj (Option.some.inj hrest)
      exact List.cons_ne_nil y []
    · obtain ⟨⟨ys', r''⟩, -, heq⟩ := Option.map_eq_some_iff.mp hrest
      obtain ⟨rfl, -⟩ := Prod.mk.inj heq
      exact List.cons_ne_nil y ys'

variable (sep) in
include hE hitem in
/-- A list that stands for itself, before what is no comma. -/
theorem commas_settles (hspaced : Spaced item) (hspaces : ∀ c ∈ sep, isSpace c = true) {z : Bytes}
    (hz : ∀ c ∈ z, isSpace c = true) :
    Settles (EndsList E) (commas item) (z ++ sepText sep text xs)
      (List.Forall₂ P xs) (xs ≠ [] ∧ ∀ x ∈ xs, good x) := by
  have hskip {z : Bytes} (hz : ∀ c ∈ z, isSpace c = true) (t : Bytes) : item (z ++ t) = item t := by
    refine hspaced ?_
    rw [skipSpace, List.dropWhile_append_of_pos hz]
    rfl
  have htext (t : Bytes) : commas item (z ++ sepText sep text xs ++ t) =
      commaList item (z ++ sepText sep text xs ++ t).length (sepText sep text xs ++ t) := by
    unfold commas
    rw [List.append_assoc, commaList_sep (hskip hz)]
  constructor
  · rintro ⟨hne, hgood⟩ t ⟨ht, hend, htne⟩
    have hlen : xs.length ≤ (z ++ sepText sep text xs ++ t).length := by
      have hle := length_le_length_sepText text sep xs
      have hpos := List.length_pos_of_ne_nil htne
      simp only [List.length_append]
      omega
    rw [htext]
    exact commaList_of_good hE (hskip hspaces) hitem hne ht hend hgood hlen
  · rintro hbad t ⟨ht, -, -⟩ ys r h hys
    rw [htext] at h
    refine commaList_of_not_good hE (hskip hspaces) hitem ht (fun hgood => hbad ⟨?_, hgood⟩) h hys
    rintro rfl
    cases hys
    exact commaList_ne_nil h rfl

variable (hclose : ∀ t, (skipSpace t).head? = some 41 → item t = none) (hE' : ∀ t, E (41 :: t))

include hE hitem hclose hE' in
/-- A list in parentheses. -/
theorem parenthesized_settles (hspace : ∀ t, item (32 :: t) = item t) :
    Settles (fun _ => True) (parenthesized item) (40 :: (sepText [32] text xs ++ [41]))
      (List.Forall₂ P xs) (∀ x ∈ xs, good x) := by
  have htext (t : Bytes) : 40 :: (sepText [32] text xs ++ [41]) ++ t = 40 :: (sepText [32] text xs ++ 41 :: t) := by
    simp
  have hsep : ∀ t, item ([32] ++ t) = item t := hspace
  constructor
  · intro hgood t _
    by_cases hne : xs = []
    · subst hne
      exact ⟨[], t, rfl, .nil, rfl⟩
    · have hlen : xs.length ≤ (sepText [32] text xs ++ 41 :: t).length := by
        have hle := length_le_length_sepText text [32] xs
        simp only [List.length_append, List.length_cons]
        omega
      obtain ⟨ys, r, hlist, hys, hr⟩ := commaList_of_good hE hsep hitem hne (hE' t) rfl hgood hlen
      have hnot : punctuation 41 (sepText [32] text xs ++ 41 :: t) = none := by
        by_contra hclosed
        have hnil : ys ≠ [] := by
          rintro rfl
          cases hys
          exact hne rfl
        obtain ⟨y, ys', rfl⟩ := List.exists_cons_of_ne_nil hnil
        obtain ⟨r', hread⟩ := commaList_head hlist
        rw [hclose _ (head_of_punctuation hclosed)] at hread
        cases hread
      rw [htext, parenthesized, punctuation_self rfl, Option.bind_some, hnot]
      dsimp only
      rw [hlist, Option.bind_some]
      dsimp only
      rw [spaced_punctuation _ hr, punctuation_self rfl]
      exact ⟨ys, t, rfl, hys, rfl⟩
  · intro hbad t _ ys r h hys
    rw [htext, parenthesized, punctuation_self rfl, Option.bind_some] at h
    split at h
    · obtain ⟨rfl, -⟩ := Prod.mk.inj (Option.some.inj h)
      cases hys
      exact hbad fun x hx => absurd hx List.not_mem_nil
    · obtain ⟨⟨ys', r'⟩, hlist, hrest⟩ := Option.bind_eq_some_iff.mp h
      obtain ⟨r'', -, heq⟩ := Option.map_eq_some_iff.mp hrest
      obtain ⟨rfl, -⟩ := Prod.mk.inj heq
      exact commaList_of_not_good hE hsep hitem (hE' t) hbad hlist hys

end Lists

/-! ## Names -/

/-- What follows a name between backticks. -/
def EndsName (t : Bytes) : Prop := ∃ c t', t = c :: t' ∧ c ≠ backtick

theorem endsName_cons (hc : c ≠ backtick) (t : Bytes) : EndsName (c :: t) := ⟨c, t, rfl, hc⟩

theorem ticked_settles (reserved : Bytes → Bool) (w : Bytes) :
    Settles EndsName (name reserved) (ticked w) (· = w) (backtick ∉ w) where
  reads hw t ht := by
    obtain ⟨c, t', rfl, hc⟩ := ht
    exact ⟨w, c :: t', name_ticked hw hc t', rfl, rfl⟩
  fails hw t ht d r hread := by
    obtain ⟨c, t', rfl, hc⟩ := ht
    exact name_ticked_avoids (not_not.mp hw) hc t' hread

theorem name_close (t : Bytes) (h : (skipSpace t).head? = some 41) : name reserved t = none := by
  unfold name
  cases hskip : skipSpace t with
  | nil => rfl
  | cons c t' =>
    rw [hskip] at h
    obtain rfl := Option.some.inj h
    have hword : ¬ IsWord reserved (word (41 :: t')).1 := fun hword => hword.1 rfl
    dsimp only
    rw [if_neg (by decide), if_neg hword]

/-- A table between backticks, with its database. -/
def qualifiedText (database table : Bytes) : Bytes := ticked database ++ 46 :: ticked table

theorem spaced_name (reserved : Bytes → Bool) : Spaced (name reserved) := by
  intro r t h
  unfold name
  rw [h]

theorem qualified_settles (reserved : Bytes → Bool) (database table : Bytes) :
    Settles EndsName (qualified reserved) (qualifiedText database table)
      (fun x => x.1 = database ∧ x.2 = table) (backtick ∉ database ∧ backtick ∉ table) := by
  have hdot (t : Bytes) : punctuation 46 ([46] ++ t) = some ([] ++ t) := punctuation_self rfl t
  have htable : Settles EndsName (after (punctuation 46) (name reserved)) ([46] ++ ticked table)
      (· = table) (backtick ∉ table) := (ticked_settles reserved table).after hdot
  exact (ticked_settles reserved database).pair htable ((spaced_punctuation 46).after _)
    fun t _ => endsName_cons (by decide) _

/-- A name without delimiters, before an assigned value. -/
theorem bare_settles (reserved : Bytes → Bool) (w : Bytes) :
    Settles (fun t => ∃ t', t = 32 :: 61 :: t') (name reserved) w (· = w) (IsWord reserved w) where
  reads hw t ht := by
    obtain ⟨t', rfl⟩ := ht
    exact ⟨w, _, name_append hw (endsWord_cons rfl _), rfl, rfl⟩
  fails hw t ht d r hread := by
    obtain ⟨t', rfl⟩ := ht
    exact name_bare_avoids hw t' hread

/-! ## Literals -/

/-- What ends a literal in a statement: a comma, a parenthesis, or `WHERE` after a space. -/
def Ends (t : Bytes) : Prop := (∃ t', t = 44 :: t') ∨ (∃ t', t = 41 :: t') ∨ ∃ t', t = 32 :: 87 :: t'

theorem ends_comma (t : Bytes) : Ends (44 :: t) := .inl ⟨t, rfl⟩

theorem ends_close (t : Bytes) : Ends (41 :: t) := .inr (.inl ⟨t, rfl⟩)

theorem Ends.text (ht : Ends t) : EndsText t := by
  rcases ht with ⟨t', rfl⟩ | ⟨t', rfl⟩ | ⟨t', rfl⟩
  · exact ⟨44, t', rfl, rfl⟩
  · exact ⟨41, t', rfl, rfl⟩
  · exact ⟨87, t', rfl, rfl⟩

theorem Ends.follows (ht : Ends t) : Follows t := by
  rcases ht with ⟨t', rfl⟩ | ⟨t', rfl⟩ | ⟨t', rfl⟩
  · exact follows_comma t'
  · exact follows_close t'
  · refine ⟨fun c hc => ?_, rfl⟩
    obtain rfl := Option.some.inj hc
    decide

theorem literal_close (t : Bytes) (h : (skipSpace t).head? = some 41) : literal t = none := by
  unfold literal
  cases hskip : skipSpace t with
  | nil => rfl
  | cons c t' =>
    rw [hskip] at h
    obtain rfl := Option.some.inj h
    rfl

/-- A text between quotes is read as a text. -/
theorem literal_quotedText (s t : Bytes) : ∃ n, literal (quotedText s ++ t) =
    (opened quote n (escapeQuotes s ++ quote :: t)).map fun (d, r) => (Literal.text d, r) := by
  have hsplit : quotedText s ++ t = quote :: (escapeQuotes s ++ quote :: t) := by simp [quotedText]
  have hword (u : Bytes) : ¬ (word (quote :: u)).1 = [78, 85, 76, 76] := fun h => by cases h
  refine ⟨(escapeQuotes s ++ quote :: t).length, ?_⟩
  rw [hsplit, literal, skipSpace_cons rfl, bareLiteral, if_neg (hword _), List.head?_cons,
    Option.any_some, if_pos (show isStringQuote quote = true from rfl), List.length_cons,
    literals_quote rfl]

variable {P : Literal → Prop}

theorem quotedText_settles (hP : ∀ d, P (.text d) ↔ d = s) :
    Settles Ends literal (quotedText s) P (isTame s = true) where
  reads hs t ht := by
    obtain ⟨n, hread⟩ := literal_quotedText s t
    rw [opened_tame ht.text hs] at hread
    exact ⟨.text s, t, hread, (hP s).mpr rfl, rfl⟩
  fails hs t ht x r h hx := by
    obtain ⟨n, hread⟩ := literal_quotedText s t
    rw [hread] at h
    obtain ⟨⟨d, r'⟩, hopened, heq⟩ := Option.map_eq_some_iff.mp h
    obtain ⟨rfl, rfl⟩ := Prod.mk.inj heq
    exact opened_avoids ht.text hs hopened ((hP d).mp hx)

theorem IsRead.settles {y : Option Literal} (h : IsRead literal s y) :
    Settles Ends literal s P (∃ x, y = some x ∧ P x) where
  reads := by
    rintro ⟨x, rfl, hx⟩ t ht
    exact ⟨x, t, h ht.follows, hx, rfl⟩
  fails hbad t ht x r hread hx := by
    rw [h ht.follows] at hread
    obtain ⟨x', rfl, heq⟩ := Option.map_eq_some_iff.mp hread
    obtain ⟨rfl, -⟩ := Prod.mk.inj heq
    exact hbad ⟨x', rfl, hx⟩

/-! ## Numerals with spaces -/

/-- A text without the spaces around it. -/
def trimSpace (t : Bytes) : Bytes := ((skipSpace t).reverse.dropWhile isSpace).reverse

theorem exists_trimSpace (s : Bytes) : ∃ a b, s = a ++ (trimSpace s ++ b) ∧
    (∀ c ∈ a, isSpace c = true) ∧ ∀ c ∈ b, isSpace c = true := by
  have hfront : s.takeWhile isSpace ++ skipSpace s = s := List.takeWhile_append_dropWhile
  have hback : (skipSpace s).reverse.takeWhile isSpace ++ (skipSpace s).reverse.dropWhile isSpace =
      (skipSpace s).reverse := List.takeWhile_append_dropWhile
  refine ⟨s.takeWhile isSpace, ((skipSpace s).reverse.takeWhile isSpace).reverse, ?_,
    fun c hc => List.mem_takeWhile_imp hc, fun c hc => List.mem_takeWhile_imp (List.mem_reverse.mp hc)⟩
  rw [trimSpace, ← List.reverse_append, hback, List.reverse_reverse, hfront]

theorem skipSpace_append (ha : ∀ c ∈ d, isSpace c = true) (t : Bytes) :
    skipSpace (d ++ t) = skipSpace t := by
  rw [skipSpace, List.dropWhile_append_of_pos ha]
  rfl

theorem isScriptSpace_of_isSpace (h : isSpace c = true) : ScriptNumber.isScriptSpace c = true := by
  unfold isSpace at h
  unfold ScriptNumber.isScriptSpace
  simp only [Bool.or_eq_true, Bool.and_eq_true, decide_eq_true_eq] at h ⊢
  omega

theorem Follows.spaced (ht : Follows t) (hd : ∀ c ∈ d, isSpace c = true) : Follows (d ++ t) := by
  refine ⟨fun c hc => ?_, by rw [skipSpace_append hd]; exact ht.quotes⟩
  cases d with
  | nil => exact ht.stops c hc
  | cons e d =>
    obtain rfl := Option.some.inj hc
    have hspace := hd e List.mem_cons_self
    unfold isSpace at hspace
    unfold Stops isWordByte isDigit ScriptNumber.dot ScriptNumber.plus ScriptNumber.minus
    simp only [Bool.or_eq_true, Bool.and_eq_true, decide_eq_true_eq] at hspace
    simp only [Bool.or_eq_false_iff, Bool.and_eq_false_iff, decide_eq_false_iff_not]
    omega

section Numerals

variable {n : Numeral}

/-- A numeral with spaces around it is read as a number. -/
theorem literal_trimSpace (h : asNumeral (trimSpace s) = some n) (ht : Ends t) :
    ∃ r, literal (s ++ t) = some (.number n, r) ∧ skipSpace r = skipSpace t := by
  obtain ⟨a, b, hsplit, ha, hb⟩ := exists_trimSpace s
  have hread := isRead_number h (ht.follows.spaced hb)
  have hskip : skipSpace (s ++ t) = skipSpace (trimSpace s ++ (b ++ t)) := by
    have heq : s ++ t = a ++ (trimSpace s ++ (b ++ t)) := by
      conv_lhs => rw [hsplit]
      rw [List.append_assoc, List.append_assoc]
    rw [heq, skipSpace_append ha]
  refine ⟨b ++ t, ?_, skipSpace_append hb t⟩
  unfold literal at hread ⊢
  rw [hskip, hread]
  rfl

theorem number_ne_nan (h : asNumeral (trimSpace s) = some n) : ScriptNumber.number s ≠ .nan := by
  obtain ⟨a, b, hsplit, ha, hb⟩ := exists_trimSpace s
  have hne : trimSpace s ≠ [] := by
    intro hnil
    rw [hnil] at h
    cases h
  have htrim : ScriptNumber.trim s = trimSpace s := by
    conv_lhs => rw [hsplit]
    refine ScriptNumber.trim_append (fun c hc => isScriptSpace_of_isSpace (ha c hc))
      (fun c hc => isScriptSpace_of_isSpace (hb c hc)) hne fun c hc => ?_
    exact ScriptNumber.not_isScriptSpace_of_isNumeralByte (ScriptNumber.asNumeral_bytes h c hc)
  refine ScriptNumber.number_ne_nan_of_trim (n := n) ?_
  rw [htrim]
  exact h

end Numerals

/-- What begins with a quote is no number. -/
theorem number_quote (h : skipSpace s = c :: d) (hc : isStringQuote c = true) :
    ScriptNumber.number s = .nan := by
  have hsplit : s.takeWhile isSpace ++ skipSpace s = s := List.takeWhile_append_dropWhile
  have hspaces : ∀ e ∈ s.takeWhile isSpace, ScriptNumber.isScriptSpace e = true :=
    fun e he => isScriptSpace_of_isSpace (List.mem_takeWhile_imp he)
  have hquotes := isStringQuote_iff.mp hc
  unfold quote doubleQuote at hquotes
  have hplain : ScriptNumber.isScriptSpace c = false := by
    rcases hquotes with rfl | rfl <;> rfl
  have hnot : ¬ ScriptNumber.isScriptSpace c = true := by
    rw [hplain]
    exact Bool.false_ne_true
  obtain ⟨d', htrim⟩ : ∃ d', ScriptNumber.trim s = c :: d' := by
    rw [← hsplit, h]
    unfold ScriptNumber.trim
    rw [List.dropWhile_append_of_pos hspaces, List.dropWhile_cons_of_neg hnot, List.reverse_cons,
      List.dropWhile_append]
    split
    · rw [List.dropWhile_cons_of_neg hnot]
      exact ⟨[], rfl⟩
    · rw [List.reverse_append]
      exact ⟨_, rfl⟩
  have hbased : ScriptNumber.based (c :: d') = none := by
    unfold ScriptNumber.based
    split
    next heq =>
      have hhead := (List.cons.inj heq).1
      omega
    · rfl
  have hsign : ScriptNumber.sign (c :: d') = (false, c :: d') := by
    rcases hquotes with rfl | rfl <;> rfl
  have hnumeral : asNumeral (c :: d') = none := by
    cases hread : asNumeral (c :: d') with
    | none => rfl
    | some n =>
      have hbyte := ScriptNumber.asNumeral_bytes hread c List.mem_cons_self
      rcases hquotes with rfl | rfl <;> cases hbyte
  unfold ScriptNumber.number
  dsimp only
  rw [htrim, if_neg (List.cons_ne_nil c d'), hbased, hsign, hnumeral]
  dsimp only
  rw [if_neg]
  intro heq
  have hhead : c = 73 := (List.cons.inj heq).1
  omega

/-- A literal that is a text begins with a quote. -/
theorem quote_of_literal (h : literal t = some (.text d, r)) :
    (skipSpace t).head?.any isStringQuote = true := by
  unfold literal bareLiteral numberLiteral at h
  split at h
  · cases h
  · split at h
    next hquote => exact hquote
    · split at h
      · cases h
      · split at h <;> cases h

/-- A text that a script takes for a number, as it is. -/
theorem number_settles (hs : ScriptNumber.number s ≠ .nan) (hnull : ¬ P .null)
    (hP : ∀ n, P (.number n) → ∃ n', asNumeral (trimSpace s) = some n' ∧ P (.number n')) :
    Settles Ends literal s P (∃ n, asNumeral (trimSpace s) = some n ∧ P (.number n)) where
  reads := by
    rintro ⟨n, hn, hPn⟩ t ht
    obtain ⟨r, hread, hr⟩ := literal_trimSpace hn ht
    exact ⟨.number n, r, hread, hPn, hr⟩
  fails := by
    intro hbad t ht x r hread hx
    cases x with
    | null => exact hnull hx
    | number n => exact hbad (hP n hx)
    | text d =>
      have hquote := quote_of_literal hread
      cases hskip : skipSpace s with
      | nil =>
        have hspaces : ∀ c ∈ s, isSpace c = true := fun c hc => by
          have hall := List.dropWhile_eq_nil_iff.mp hskip
          exact hall c hc
        rw [skipSpace_append hspaces, ht.follows.quotes] at hquote
        cases hquote
      | cons c s' =>
        have hsplit : s.takeWhile isSpace ++ skipSpace s = s := List.takeWhile_append_dropWhile
        have hfront : skipSpace (s ++ t) = c :: (s' ++ t) := by
          rw [← hsplit, List.append_assoc, skipSpace_append fun c hc => List.mem_takeWhile_imp hc,
            hskip, List.cons_append, skipSpace_cons (isSpace_of_skipSpace hskip)]
        rw [hfront, List.head?_cons, Option.any_some] at hquote
        exact hs (number_quote hskip hquote)

theorem spaced_literal : Spaced literal := by
  intro r t h
  unfold literal
  rw [h]

/-- The assignment of a literal that is written after ` = `. -/
theorem assignment_settles {good : Prop} (hs : Settles Ends literal s P good) (reserved : Bytes → Bool)
    (w : Bytes) : Settles Ends (assignment reserved) (w ++ (ascii " = " ++ s))
      (fun x => x.1 = w ∧ P x.2) (IsWord reserved w ∧ good) := by
  have hequals (t : Bytes) : punctuation 61 (ascii " = " ++ t) = some ([32] ++ t) := rfl
  have hliteral := (hs.spaced spaced_literal (z := [32]) (by decide)).after hequals
  exact (bare_settles reserved w).pair hliteral ((spaced_punctuation 61).after _)
    fun t _ => ⟨32 :: (s ++ t), rfl⟩

/-! ## Statements -/

section Statements

variable {β : Type} {text : β → Bytes} {good : β → Prop}

theorem keyword_word {w : Bytes} (hne : w ≠ []) (hw : ∀ c ∈ w, isWordByte c = true) (t : Bytes) :
    keyword w (w ++ [32] ++ t) = some ([32] ++ t) := by
  rw [List.append_assoc]
  exact keyword_append hne hw (endsWord_cons rfl t)

/-- Something that is read after a keyword and a space. -/
theorem Settles.keyword {α : Type} {E : Bytes → Prop} {item : Bytes → Option (α × Bytes)} {P : α → Prop}
    {good : Prop} {w : Bytes} (h : Settles E item ([32] ++ s) P good) (hne : w ≠ [])
    (hw : ∀ c ∈ w, isWordByte c = true) :
    Settles E (MySqlText.after (MySqlText.keyword w) item) (w ++ [32] ++ s) P good :=
  h.after (keyword_word hne hw)

/-- An INSERT, up to its semicolon. -/
def insertRowsText (database table : Bytes) (columns : List Bytes) (text : β → Bytes) (rows : List β) :
    Bytes :=
  ascii "INSERT" ++ [32] ++ (ascii "INTO" ++ [32] ++ (qualifiedText database table ++
    ([32] ++ (40 :: (sepText [32] ticked columns ++ [41])) ++
      ([32] ++ (ascii "VALUES" ++ [32] ++ sepText [10] text rows)))))

theorem insertRows_settles (reserved : Bytes → Bool) (database table : Bytes) (columns : List Bytes)
    {rows : List β} {P : β → List Literal → Prop} (hrows : ∀ row ∈ rows,
      Settles (fun _ => True) (parenthesized literal) (text row) (P row) (good row)) :
    Settles (EndsList fun _ => True) (insertRows reserved)
      (insertRowsText database table columns text rows)
      (fun x => (x.1.1 = database ∧ x.1.2 = table) ∧ List.Forall₂ (fun w d => d = w) columns x.2.1 ∧
        List.Forall₂ P rows x.2.2)
      ((backtick ∉ database ∧ backtick ∉ table) ∧ (∀ w ∈ columns, backtick ∉ w) ∧
        rows ≠ [] ∧ ∀ row ∈ rows, good row) := by
  have hspaces : ∀ c ∈ [32], isSpace c = true := by decide
  have hcolumns : Settles (fun _ => True) (parenthesized (name reserved))
      (40 :: (sepText [32] ticked columns ++ [41])) (List.Forall₂ (fun w d => d = w) columns)
      (∀ w ∈ columns, backtick ∉ w) :=
    parenthesized_settles (fun t => endsName_cons (by decide) t) (fun w _ => ticked_settles reserved w)
      name_close (fun t => endsName_cons (by decide) t) fun t => rfl
  have hlist := commas_settles [10] (fun _ => trivial) hrows (spaced_parenthesized literal)
    (by decide) hspaces
  have hvalues := hlist.keyword (w := ascii "VALUES") (by decide) (by decide)
  have hbody := (hcolumns.spaced (spaced_parenthesized _) hspaces).pair
    (hvalues.spaced ((spaced_keyword _).after _) hspaces) ((spaced_keyword _).after _) fun _ _ => trivial
  have htable := (qualified_settles reserved database table).pair hbody
    ((spaced_parenthesized _).pair _) fun t _ => endsName_cons (by decide) _
  have hinto := (htable.spaced (((spaced_name reserved).pair _).pair _) hspaces).keyword
    (w := ascii "INTO") (by decide) (by decide)
  exact (hinto.spaced ((spaced_keyword _).after _) hspaces).keyword (w := ascii "INSERT") (by decide) (by decide)

/-- **What an INSERT is read as.** -/
theorem parseInsertRows_iff (reserved : Bytes → Bool) (database table : Bytes) (columns : List Bytes)
    {rows : List β} {P : β → List Literal → Prop} (hrows : ∀ row ∈ rows,
      Settles (fun _ => True) (parenthesized literal) (text row) (P row) (good row)) :
    (∃ i, parseInsertRows reserved (insertRowsText database table columns text rows ++ [59]) = some i ∧
      i.database = database ∧ i.table = table ∧ i.columns = columns ∧ List.Forall₂ P rows i.rows) ↔
    (backtick ∉ database ∧ backtick ∉ table) ∧ (∀ w ∈ columns, backtick ∉ w) ∧
      rows ≠ [] ∧ ∀ row ∈ rows, good row := by
  have hread := insertRows_settles reserved database table columns hrows
  have hend : EndsList (fun _ => True) [59] := ⟨trivial, rfl, by decide⟩
  have hsame {ds : List Bytes} : List.Forall₂ (fun w d => d = w) columns ds ↔ ds = columns := by
    constructor
    · intro h
      have heq : List.Forall₂ (· = ·) columns ds := h.imp fun _ _ => Eq.symm
      rw [List.forall₂_eq_eq_eq] at heq
      exact heq.symm
    · rintro rfl
      exact List.forall₂_same.mpr fun _ _ => rfl
  constructor
  · rintro ⟨i, hi, hdatabase, htable, hcolumns, hvalues⟩
    obtain ⟨⟨⟨⟨database', table'⟩, columns', rows'⟩, r⟩, hx, hrest⟩ := Option.bind_eq_some_iff.mp hi
    obtain ⟨r', -, hlast⟩ := Option.bind_eq_some_iff.mp hrest
    split at hlast
    · obtain rfl := Option.some.inj hlast
      by_contra hbad
      exact hread.fails hbad hend hx ⟨⟨hdatabase, htable⟩, hsame.mpr hcolumns, hvalues⟩
    · cases hlast
  · intro hgood
    obtain ⟨⟨⟨database', table'⟩, columns', rows'⟩, r, hx, ⟨⟨hdatabase, htable⟩, hcolumns, hvalues⟩, hr⟩ :=
      hread.reads hgood hend
    have hsemicolon : punctuation 59 r = some [] := spaced_punctuation 59 hr
    refine ⟨⟨database', table', columns', rows'⟩, ?_, hdatabase, htable, hsame.mp hcolumns, hvalues⟩
    rw [parseInsertRows, hx, Option.bind_some]
    dsimp only
    rw [hsemicolon]
    rfl

/-- An UPDATE, up to its condition. -/
def updateSetText (database table : Bytes) (text : β → Bytes) (sets : List β) : Bytes :=
  ascii "UPDATE" ++ [32] ++ (qualifiedText database table ++
    ([32] ++ (ascii "SET" ++ [32] ++ sepText [32] text sets)))

theorem updateSet_settles (reserved : Bytes → Bool) (database table : Bytes) {sets : List β}
    {P : β → Bytes × Literal → Prop} (hsets : ∀ x ∈ sets,
      Settles Ends (assignment reserved) (text x) (P x) (good x)) :
    Settles (EndsList Ends) (updateSet reserved) (updateSetText database table text sets)
      (fun x => (x.1.1 = database ∧ x.1.2 = table) ∧ List.Forall₂ P sets x.2)
      ((backtick ∉ database ∧ backtick ∉ table) ∧ sets ≠ [] ∧ ∀ x ∈ sets, good x) := by
  have hspaces : ∀ c ∈ [32], isSpace c = true := by decide
  have hlist := commas_settles [32] ends_comma hsets
    ((spaced_name reserved).pair _) hspaces hspaces
  have hset := hlist.keyword (w := ascii "SET") (by decide) (by decide)
  have htable := (qualified_settles reserved database table).pair
    (hset.spaced ((spaced_keyword _).after _) hspaces) ((spaced_keyword _).after _)
    fun t _ => endsName_cons (by decide) _
  exact (htable.spaced (((spaced_name reserved).pair _).pair _) hspaces).keyword
    (w := ascii "UPDATE") (by decide) (by decide)

/-- **What the assignments of an UPDATE are read as.** -/
theorem parseUpdateSet_iff (reserved : Bytes → Bool) (database table : Bytes) {sets : List β}
    {P : β → Bytes × Literal → Prop} (hsets : ∀ x ∈ sets,
      Settles Ends (assignment reserved) (text x) (P x) (good x)) (t : Bytes) :
    (∃ i, parseUpdateSet reserved (updateSetText database table text sets ++ (ascii " WHERE " ++ t)) =
        some i ∧
      i.database = database ∧ i.table = table ∧ List.Forall₂ P sets i.sets) ↔
    (backtick ∉ database ∧ backtick ∉ table) ∧ sets ≠ [] ∧ ∀ x ∈ sets, good x := by
  have hread := updateSet_settles reserved database table hsets
  have hend : EndsList Ends (ascii " WHERE " ++ t) :=
    ⟨.inr (.inr ⟨_, rfl⟩), rfl, List.cons_ne_nil _ _⟩
  constructor
  · rintro ⟨i, hi, hdatabase, htable, hvalues⟩
    obtain ⟨⟨⟨⟨database', table'⟩, sets'⟩, r⟩, hx, hrest⟩ := Option.bind_eq_some_iff.mp hi
    obtain ⟨r', -, rfl⟩ := Option.map_eq_some_iff.mp hrest
    by_contra hbad
    exact hread.fails hbad hend hx ⟨⟨hdatabase, htable⟩, hvalues⟩
  · intro hgood
    obtain ⟨⟨⟨database', table'⟩, sets'⟩, r, hx, ⟨⟨hdatabase, htable⟩, hvalues⟩, hr⟩ :=
      hread.reads hgood hend
    have hwhere : keyword (ascii "WHERE") r = some ([32] ++ t) := by
      rw [spaced_keyword (ascii "WHERE") hr]
      exact keyword_word (w := ascii "WHERE") (by decide) (by decide) t
    refine ⟨⟨database', table', sets'⟩, ?_, hdatabase, htable, hvalues⟩
    rw [parseUpdateSet, hx, Option.bind_some]
    dsimp only
    rw [hwhere]
    rfl

end Statements

end MySqlText
