import NextDBM.Library.Tables

/-!
# A registry beside a table

A registry runs commands: `add` enters one under a new handle, and `remove` takes out the entry with a
handle. A table keeps, for each of its rows that is active, the handle of the row's command. The two
agree when the entries are those of the active rows. An operation changes them one after the other,
so in between they agree but for some keys (`AgreesExcept`), and each lemma below is one such change.
-/

namespace Relational

universe u v

/-- Commands under handles; the handles are the numbers from 1 on, in the order of the additions. -/
structure Registry (γ : Type u) where
  entries : List (Int × γ) := []
  next : Nat := 0
  drawn : ∀ e ∈ entries, 0 < e.1 ∧ e.1 ≤ next := by exact fun _ he => absurd he List.not_mem_nil
  nodup : (entries.map Prod.fst).Nodup := by exact List.nodup_nil

namespace Registry

variable {γ : Type u} {α : Type v} {κ : Type*}

/-- The handle that the next addition draws. -/
def handle (r : Registry γ) : Int := r.next + 1

/-- Enter a command under a new handle. -/
def add (r : Registry γ) (c : γ) : Registry γ where
  entries := (r.handle, c) :: r.entries
  next := r.next + 1
  drawn e he := by
    unfold handle at he
    rcases List.mem_cons.mp he with rfl | he
    · constructor <;> dsimp only <;> omega
    · have := r.drawn e he
      omega
  nodup := by
    rw [List.map_cons, List.nodup_cons]
    refine ⟨fun h => ?_, r.nodup⟩
    obtain ⟨e, he, heq⟩ := List.mem_map.mp h
    have := r.drawn e he
    unfold handle at heq
    dsimp only at heq
    omega

/-- Take out the entry with a handle, if there is one. -/
def remove (r : Registry γ) (h : Int) : Registry γ where
  entries := r.entries.filter fun e => e.1 != h
  next := r.next
  drawn e he := r.drawn e (List.mem_of_mem_filter he)
  nodup := r.nodup.sublist (List.filter_sublist.map Prod.fst)

variable {owner : γ → κ} {r : Registry γ} {h h' : Int} {k k' : κ} {c : γ}

/-- An entry of an owner. -/
def Has (owner : γ → κ) (r : Registry γ) (h : Int) (k : κ) : Prop :=
  ∃ e ∈ r.entries, e.1 = h ∧ owner e.2 = k

theorem has_add : (r.add c).Has owner h k ↔ (h = r.handle ∧ k = owner c) ∨ r.Has owner h k := by
  constructor
  · rintro ⟨e, he, rfl, rfl⟩
    rcases List.mem_cons.mp he with rfl | he
    · exact .inl ⟨rfl, rfl⟩
    · exact .inr ⟨e, he, rfl, rfl⟩
  · rintro (⟨rfl, rfl⟩ | ⟨e, he, rfl, rfl⟩)
    · exact ⟨(r.handle, c), List.mem_cons_self, rfl, rfl⟩
    · exact ⟨e, List.mem_cons_of_mem _ he, rfl, rfl⟩

theorem has_remove : (r.remove h').Has owner h k ↔ h ≠ h' ∧ r.Has owner h k := by
  constructor
  · rintro ⟨e, he, rfl, rfl⟩
    obtain ⟨hmem, hne⟩ := List.mem_filter.mp he
    exact ⟨bne_iff_ne.mp hne, e, hmem, rfl, rfl⟩
  · rintro ⟨hne, e, he, rfl, rfl⟩
    exact ⟨e, List.mem_filter.mpr ⟨he, bne_iff_ne.mpr hne⟩, rfl, rfl⟩

/-- A handle has one entry. -/
theorem eq_of_handle {e e' : Int × γ} (he : e ∈ r.entries) (he' : e' ∈ r.entries)
    (heq : e.1 = e'.1) : e = e' :=
  List.inj_on_of_nodup_map r.nodup he he' heq

theorem Has.owner_eq (hk : r.Has owner h k) (hk' : r.Has owner h k') : k = k' := by
  obtain ⟨e, he, hh, rfl⟩ := hk
  obtain ⟨e', he', hh', rfl⟩ := hk'
  rw [eq_of_handle he he' (hh.trans hh'.symm)]

/-! ## Agreement -/

/-- The rows of a table that have a command, and its handle. -/
structure Handles (α : Type v) where
  active : α → Prop
  handle : α → Int

variable {key : α → κ} {H : Handles α} {t t' : Table α key} {ks : List κ} {a b : α}

/-- The entries are those of the active rows whose keys are not among `ks`. -/
def AgreesExcept (H : Handles α) (owner : γ → κ) (ks : List κ) (t : Table α key)
    (r : Registry γ) : Prop :=
  ∀ h k, r.Has owner h k ↔ k ∉ ks ∧ ∃ a ∈ t, key a = k ∧ H.active a ∧ H.handle a = h

/-- The entries are those of the active rows. -/
def Agrees (H : Handles α) (owner : γ → κ) : Table α key → Registry γ → Prop :=
  AgreesExcept H owner []

/-- The tables differ at most in the row of a key. -/
def SameBut (k : κ) (t t' : Table α key) : Prop := ∀ a, key a ≠ k → (a ∈ t' ↔ a ∈ t)

theorem SameBut.refl (k : κ) (t : Table α key) : SameBut k t t := fun _ _ => Iff.rfl

theorem SameBut.trans {t'' : Table α key} (h : SameBut k t t') (h' : SameBut k t' t'') :
    SameBut k t t'' := fun a ha => (h' a ha).trans (h a ha)

/-- What stands in an excepted row does not matter. -/
theorem AgreesExcept.of_sameBut (h : AgreesExcept H owner (k :: ks) t r) (ht : SameBut k t t') :
    AgreesExcept H owner (k :: ks) t' r := by
  intro x y
  rw [h x y]
  apply and_congr_right
  intro hy
  have hne : y ≠ k := fun heq => hy (heq ▸ List.mem_cons_self)
  constructor
  · rintro ⟨a, ha, rfl, hactive⟩
    exact ⟨a, (ht a hne).mpr ha, rfl, hactive⟩
  · rintro ⟨a, ha, rfl, hactive⟩
    exact ⟨a, (ht a hne).mp ha, rfl, hactive⟩

/-- A key without an active row may be excepted or not. -/
theorem agreesExcept_cons_iff (hidle : ∀ a ∈ t, key a = k → ¬ H.active a) :
    AgreesExcept H owner (k :: ks) t r ↔ AgreesExcept H owner ks t r := by
  refine forall₂_congr fun x y => iff_congr Iff.rfl ?_
  constructor
  · rintro ⟨hy, hrow⟩
    exact ⟨fun hmem => hy (List.mem_cons_of_mem k hmem), hrow⟩
  · rintro ⟨hy, a, ha, rfl, hactive, hhandle⟩
    refine ⟨fun hmem => ?_, a, ha, rfl, hactive, hhandle⟩
    rcases List.mem_cons.mp hmem with hk | hmem
    · exact hidle a ha hk hactive
    · exact hy hmem

/-- Removing the entry of an active row. -/
theorem AgreesExcept.remove (h : AgreesExcept H owner ks t r) (ha : a ∈ t) (hkey : key a ∉ ks)
    (hactive : H.active a) :
    AgreesExcept H owner (key a :: ks) t (r.remove (H.handle a)) := by
  have hentry : r.Has owner (H.handle a) (key a) := (h _ _).mpr ⟨hkey, a, ha, rfl, hactive, rfl⟩
  intro x y
  rw [has_remove, h x y]
  constructor
  · rintro ⟨hne, hy, b, hb, rfl, hb', rfl⟩
    refine ⟨fun hmem => ?_, b, hb, rfl, hb', rfl⟩
    rcases List.mem_cons.mp hmem with heq | hmem
    · exact hne (by rw [Table.eq_of_key hb ha heq])
    · exact hy hmem
  · rintro ⟨hy, b, hb, rfl, hb', rfl⟩
    refine ⟨fun hne => ?_, fun hmem => hy (List.mem_cons_of_mem _ hmem), b, hb, rfl, hb', rfl⟩
    have hbentry : r.Has owner (H.handle b) (key b) :=
      (h _ _).mpr ⟨fun hmem => hy (List.mem_cons_of_mem _ hmem), b, hb, rfl, hb', rfl⟩
    rw [hne] at hbentry
    exact hy (hbentry.owner_eq hentry ▸ List.mem_cons_self)

/-- Removing a handle that no entry has. -/
theorem AgreesExcept.remove_of_none (h : AgreesExcept H owner ks t r)
    (hnone : ∀ e ∈ r.entries, e.1 ≠ h') : AgreesExcept H owner ks t (r.remove h') := by
  intro x y
  rw [has_remove, ← h x y]
  constructor
  · exact fun hx => hx.2
  · intro hx
    refine ⟨?_, hx⟩
    obtain ⟨e, he, rfl, -⟩ := hx
    exact hnone e he

/-- Entering the command of a row that has become active with the new handle. -/
theorem AgreesExcept.add (h : AgreesExcept H owner (owner c :: ks) t r) (hkey : owner c ∉ ks)
    (ha : a ∈ t) (howner : key a = owner c) (hactive : H.active a)
    (hhandle : H.handle a = r.handle) : AgreesExcept H owner ks t (r.add c) := by
  intro x y
  rw [has_add, h x y]
  constructor
  · rintro (⟨rfl, rfl⟩ | ⟨hy, hrow⟩)
    · exact ⟨hkey, a, ha, howner, hactive, hhandle⟩
    · exact ⟨fun hmem => hy (List.mem_cons_of_mem _ hmem), hrow⟩
  · rintro ⟨hy, b, hb, rfl, hb', rfl⟩
    by_cases heq : key b = owner c
    · left
      rw [Table.eq_of_key hb ha (heq.trans howner.symm), hhandle, howner]
      exact ⟨rfl, rfl⟩
    · right
      refine ⟨fun hmem => ?_, b, hb, rfl, hb', rfl⟩
      rcases List.mem_cons.mp hmem with hk | hmem
      · exact heq hk
      · exact hy hmem

/-- Agreement says that every active row has one entry, the one with its handle, and that there is no
other entry. -/
theorem agrees_iff : Agrees H owner t r ↔
    (∀ a ∈ t, H.active a → ∃ e ∈ r.entries, e.1 = H.handle a ∧ owner e.2 = key a ∧
      ∀ e' ∈ r.entries, owner e'.2 = key a → e' = e) ∧
      ∀ e ∈ r.entries, ∃ a ∈ t, H.active a ∧ e.1 = H.handle a ∧ owner e.2 = key a := by
  constructor
  · intro h
    have hentries : ∀ e ∈ r.entries,
        ∃ a ∈ t, H.active a ∧ e.1 = H.handle a ∧ owner e.2 = key a := by
      intro e he
      obtain ⟨-, a, ha, hk, hactive, hh⟩ := (h e.1 (owner e.2)).mp ⟨e, he, rfl, rfl⟩
      exact ⟨a, ha, hactive, hh.symm, hk.symm⟩
    refine ⟨fun a ha hactive => ?_, hentries⟩
    obtain ⟨e, he, hh, hk⟩ := (h _ _).mpr ⟨List.not_mem_nil, a, ha, rfl, hactive, rfl⟩
    refine ⟨e, he, hh, hk, fun e' he' hk' => ?_⟩
    obtain ⟨b, hb, -, hbh, hbk⟩ := hentries e' he'
    have hba : b = a := Table.eq_of_key hb ha (hbk.symm.trans hk')
    exact eq_of_handle he' he (by rw [hbh, hh, hba])
  · rintro ⟨hrows, hentries⟩ x y
    constructor
    · rintro ⟨e, he, rfl, rfl⟩
      obtain ⟨a, ha, hactive, hh, hk⟩ := hentries e he
      exact ⟨List.not_mem_nil, a, ha, hk.symm, hactive, hh.symm⟩
    · rintro ⟨-, a, ha, rfl, hactive, rfl⟩
      obtain ⟨e, he, hh, hk, -⟩ := hrows a ha hactive
      exact ⟨e, he, hh, hk⟩

end Registry

end Relational
