import NextDBM.Library.Tables

/-!
# Rows copied between tables

Rows of one table are copied into another under new keys. `Copies` says that a run of inserts has
added one copy of each item and nothing else, `Corresponds` that a key names the copy of a row or a
row of the same name that was there before. Where names are to stay unique only the first item of
each free name is copied.
-/

namespace Relational

variable {α β γ κ ε : Type*} {key : α → κ}

/-- The second table is the first one with a copy of each item; `P` says what a copy of an item is. -/
structure Copies (P : β → α → Prop) (items : List β) (before after : Table α key) : Prop where
  keeps : ∀ t ∈ before, t ∈ after
  copied : ∀ item ∈ items, ∃ t ∈ after, P item t
  only : ∀ t ∈ after, t ∈ before ∨ ∃ item ∈ items, P item t

namespace Copies

variable {P : β → α → Prop} {items items' : List β} {t₁ t₂ t₃ : Table α key}

theorem refl (P : β → α → Prop) (t : Table α key) : Copies P [] t t where
  keeps _ ht := ht
  copied _ hitem := absurd hitem List.not_mem_nil
  only _ ht := .inl ht

theorem append (h : Copies P items t₁ t₂) (h' : Copies P items' t₂ t₃) :
    Copies P (items ++ items') t₁ t₃ where
  keeps t ht := h'.keeps t (h.keeps t ht)
  copied item hitem := by
    rcases List.mem_append.mp hitem with hitem | hitem
    · obtain ⟨t, ht, hP⟩ := h.copied item hitem
      exact ⟨t, h'.keeps t ht, hP⟩
    · exact h'.copied item hitem
  only t ht := by
    rcases h'.only t ht with ht | ⟨item, hitem, hP⟩
    · rcases h.only t ht with ht | ⟨item, hitem, hP⟩
      · exact .inl ht
      · exact .inr ⟨item, List.mem_append_left items' hitem, hP⟩
    · exact .inr ⟨item, List.mem_append_right items hitem, hP⟩

/-- An insert of one row. -/
theorem of_insert [DecidableEq κ] {item : β} {a : α} (h : t₁.insert a = some t₂) (hP : P item a) :
    Copies P [item] t₁ t₂ where
  keeps t ht := (Table.mem_of_insert h).mpr (.inr ht)
  copied b hb := by
    obtain rfl := List.mem_singleton.mp hb
    exact ⟨a, (Table.mem_of_insert h).mpr (.inl rfl), hP⟩
  only t ht := by
    rcases (Table.mem_of_insert h).mp ht with rfl | ht
    · exact .inr ⟨item, List.mem_singleton_self item, hP⟩
    · exact .inl ht

/-- An insert of a row for each item. -/
theorem of_insertAll [DecidableEq κ] {f : β → α} (h : t₁.insertAll (items.map f) = some t₂)
    (hP : ∀ item ∈ items, P item (f item)) : Copies P items t₁ t₂ where
  keeps t ht := (Table.mem_of_insertAll h).mpr (.inr ht)
  copied item hitem :=
    ⟨f item, (Table.mem_of_insertAll h).mpr (.inl (List.mem_map_of_mem hitem)), hP item hitem⟩
  only t ht := by
    rcases (Table.mem_of_insertAll h).mp ht with ht | ht
    · obtain ⟨item, hitem, rfl⟩ := List.mem_map.mp ht
      exact .inr ⟨item, hitem, hP item hitem⟩
    · exact .inl ht

/-- A loop over the items whose rounds each add a copy. `I` is what the loop keeps of the state. -/
theorem of_foldlM {σ : Type*} (table : σ → Table α key) (I : σ → Prop)
    {step : σ → β → Except ε σ} {s s' : σ}
    (hstep : ∀ s s' item, item ∈ items → I s → step s item = .ok s' →
      I s' ∧ Copies P [item] (table s) (table s'))
    (hs : I s) (h : items.foldlM step s = .ok s') : I s' ∧ Copies P items (table s) (table s') := by
  induction items generalizing s with
  | nil =>
    obtain rfl := Except.ok.inj h
    exact ⟨hs, refl P _⟩
  | cons item items ih =>
    rw [List.foldlM_cons] at h
    cases hround : step s item with
    | error err =>
      rw [hround] at h
      cases h
    | ok s₁ =>
      rw [hround] at h
      obtain ⟨hs₁, hcopy⟩ := hstep s s₁ item List.mem_cons_self hs hround
      obtain ⟨hs', hcopies⟩ :=
        ih (fun s s' b hb => hstep s s' b (List.mem_cons_of_mem item hb)) hs₁ h
      exact ⟨hs', hcopy.append hcopies⟩

/-- A row under the key of the copy of an item is that copy. -/
theorem prop_of_key {item : β} (h : Copies P items t₁ t₂) (hitem : item ∈ items) {k : κ}
    (hkey : ∀ t, P item t → key t = k) {t : α} (ht : t ∈ t₂) (hk : key t = k) : P item t := by
  obtain ⟨t', ht', hP⟩ := h.copied item hitem
  have heq : t = t' := Table.eq_of_key ht ht' (hk.trans (hkey t' hP).symm)
  rw [heq]
  exact hP

end Copies

/-! ## References -/

/-- A key names the copy of a row, the one under the key drawn for it, or a row of the same name from
before the copying; the default key stands for no row. -/
structure Corresponds [Inhabited κ] (name : α → γ) (drawn : κ → κ) (before after : Table α key)
    (a : α) (k : κ) : Prop where
  ne : k ≠ default
  row : ∃ t ∈ after, key t = k ∧ name t = name a ∧ (k = drawn (key a) ∨ t ∈ before)

/-- A table holds a row under the same key and name. -/
def Known [Inhabited κ] (name : α → γ) (t : Table α key) (a : α) : Prop :=
  key a ≠ default ∧ ∃ b ∈ t, key b = key a ∧ name b = name a

section References

variable [Inhabited κ] {name : α → γ} {drawn : κ → κ} {before after : Table α key} {a : α}

theorem Corresponds.of_copy {t : α} (ht : t ∈ after) (hkey : key t = drawn (key a))
    (hname : name t = name a) (hne : drawn (key a) ≠ default) :
    Corresponds name drawn before after a (drawn (key a)) :=
  ⟨hne, t, ht, hkey, hname, .inl rfl⟩

/-- A key that is not translated corresponds exactly when the table knew the row. -/
theorem corresponds_self_iff (hkeeps : ∀ t ∈ before, t ∈ after) (hdrawn : drawn (key a) ≠ key a) :
    Corresponds name drawn before after a (key a) ↔ Known name before a := by
  constructor
  · rintro ⟨hne, t, -, hkey, hname, hold⟩
    rcases hold with hold | hold
    · exact absurd hold.symm hdrawn
    · exact ⟨hne, t, hold, hkey, hname⟩
  · rintro ⟨hne, t, ht, hkey, hname⟩
    exact ⟨hne, t, hkeeps t ht, hkey, hname, .inr ht⟩

end References

/-! ## The first of each name -/

/-- The first element of a list with its name, where the name is not taken. -/
structure FirstOfName (name : α → γ) (taken : γ → Prop) (as : List α) (a : α) : Prop where
  free : ¬ taken (name a)
  first : ∃ pre rest, as = pre ++ a :: rest ∧ ∀ b ∈ pre, name b ≠ name a

namespace FirstOfName

variable {name : α → γ} {taken taken' : γ → Prop} {as : List α} {a b : α}

theorem mem (h : FirstOfName name taken as a) : a ∈ as := by
  obtain ⟨pre, rest, rfl, -⟩ := h.first
  exact List.mem_append_right pre List.mem_cons_self

theorem head (h : ¬ taken (name a)) (as : List α) : FirstOfName name taken (a :: as) a :=
  ⟨h, [], as, rfl, fun _ hb => absurd hb List.not_mem_nil⟩

/-- Behind an element that is skipped nothing changes. -/
theorem cons_of_taken (hb : taken (name b)) (hne : a ≠ b) :
    FirstOfName name taken (b :: as) a ↔ FirstOfName name taken as a := by
  constructor
  · rintro ⟨hfree, pre, rest, heq, hfirst⟩
    cases pre with
    | nil =>
      obtain ⟨hba, -⟩ := List.cons.inj heq
      exact absurd hba.symm hne
    | cons c pre =>
      obtain ⟨-, heq⟩ := List.cons.inj heq
      exact ⟨hfree, pre, rest, heq, fun x hx => hfirst x (List.mem_cons_of_mem c hx)⟩
  · rintro ⟨hfree, pre, rest, rfl, hfirst⟩
    refine ⟨hfree, b :: pre, rest, rfl, fun x hx => ?_⟩
    rcases List.mem_cons.mp hx with rfl | hx
    · intro heq
      rw [heq] at hb
      exact hfree hb
    · exact hfirst x hx

/-- Behind an element that is copied its name is taken. -/
theorem cons_of_free (htaken : ∀ n, taken' n ↔ n = name b ∨ taken n) (hne : a ≠ b) :
    FirstOfName name taken (b :: as) a ↔ FirstOfName name taken' as a := by
  constructor
  · rintro ⟨hfree, pre, rest, heq, hfirst⟩
    cases pre with
    | nil =>
      obtain ⟨hba, -⟩ := List.cons.inj heq
      exact absurd hba.symm hne
    | cons c pre =>
      obtain ⟨rfl, htail⟩ := List.cons.inj heq
      refine ⟨fun h => ?_, pre, rest, htail, fun x hx => hfirst x (List.mem_cons_of_mem b hx)⟩
      rcases (htaken _).mp h with h | h
      · exact hfirst b List.mem_cons_self h.symm
      · exact hfree h
  · rintro ⟨hfree, pre, rest, rfl, hfirst⟩
    refine ⟨fun h => hfree ((htaken _).mpr (.inr h)), b :: pre, rest, rfl, fun x hx => ?_⟩
    rcases List.mem_cons.mp hx with rfl | hx
    · exact fun heq => hfree ((htaken _).mpr (.inl heq.symm))
    · exact hfirst x hx

/-- Rewriting the elements without their names leaves the first ones first. -/
theorem map_iff {f : α → α} (hf : ∀ b, name (f b) = name b) (hinj : ∀ b ∈ as, f b = f a → b = a) :
    FirstOfName name taken (as.map f) (f a) ↔ FirstOfName name taken as a := by
  constructor
  · rintro ⟨hfree, pre, rest, heq, hfirst⟩
    obtain ⟨pre', tail, rfl, rfl, htail⟩ := List.map_eq_append_iff.mp heq
    obtain ⟨a', rest', rfl, hfa, rfl⟩ := List.map_eq_cons_iff.mp htail
    obtain rfl := hinj a' (List.mem_append_right pre' List.mem_cons_self) hfa
    refine ⟨hf a' ▸ hfree, pre', rest', rfl, fun b hb => ?_⟩
    have h := hfirst (f b) (List.mem_map_of_mem hb)
    rw [hf, hf] at h
    exact h
  · rintro ⟨hfree, pre, rest, rfl, hfirst⟩
    refine ⟨(hf a).symm ▸ hfree, pre.map f, rest.map f, by rw [List.map_append, List.map_cons],
      fun b hb => ?_⟩
    obtain ⟨c, hc, rfl⟩ := List.mem_map.mp hb
    rw [hf, hf]
    exact hfirst c hc

end FirstOfName

end Relational
