import NextDBM.Library.Tables

/-!
# A cache whose items expire

Items are stored under keys, with or without an expiry. An item whose expiry has passed is no longer
found, but stays in the cache until it is purged. Deleting an item and purging tell a callback, which
acts on a store next to the cache.
-/

open Relational

/-- An item of the cache. -/
structure ExpiringCache.Item (κ α : Type*) where
  key : κ
  value : α
  /-- The item was stored with an expiry. -/
  expires : Bool
  /-- The expiry has passed. -/
  expired : Bool := false

abbrev ExpiringCache (κ α : Type*) : Type _ :=
  Table (ExpiringCache.Item κ α) ExpiringCache.Item.key

namespace ExpiringCache

variable {κ α D : Type*} [LinearOrder κ]

def get (c : ExpiringCache κ α) (k : κ) : Option α :=
  (c.findById k).bind fun i => if i.expired then none else some i.value

def set (c : ExpiringCache κ α) (k : κ) (v : α) (expires : Bool) : ExpiringCache κ α :=
  c.put { key := k, value := v, expires }

/-- The expiry of an item passes. -/
def expire (c : ExpiringCache κ α) (k : κ) : ExpiringCache κ α :=
  c.updateById k (fun i => { i with expired := i.expires }) fun _ => rfl

/-- Take an item out. -/
def remove (c : ExpiringCache κ α) (k : κ) : ExpiringCache κ α :=
  c.deleteWhere fun i => decide (i.key = k)

/-- Delete an item, with the callback when there is one. -/
def delete (onEvicted : D → κ → D) (d : D) (c : ExpiringCache κ α) (k : κ) :
    D × ExpiringCache κ α :=
  if (c.findById k).isSome then (onEvicted d k, c.deleteWhere fun i => decide (i.key = k)) else (d, c)

/-- Purge: delete every item whose expiry has passed, then call back for each of them. -/
def deleteExpired (onEvicted : D → κ → D) (d : D) (c : ExpiringCache κ α) :
    D × ExpiringCache κ α :=
  ((c.rows.filter fun i => i.expired).foldl (fun d i => onEvicted d i.key) d,
    c.deleteWhere fun i => i.expired)

variable {c : ExpiringCache κ α} {k : κ} {v : α} {i : Item κ α} {d : D} {onEvicted : D → κ → D}

theorem get_eq_some : get c k = some v ↔ ∃ i ∈ c, i.key = k ∧ i.expired = false ∧ i.value = v := by
  rw [get, Option.bind_eq_some_iff]
  constructor
  · rintro ⟨i, hi, hv⟩
    obtain ⟨hmem, hkey⟩ := Table.findById_eq_some.mp hi
    cases hexpired : i.expired with
    | true => rw [hexpired] at hv; cases hv
    | false =>
      rw [hexpired] at hv
      exact ⟨i, hmem, hkey, hexpired, Option.some.inj hv⟩
  · rintro ⟨i, hmem, hkey, hexpired, rfl⟩
    exact ⟨i, Table.findById_eq_some.mpr ⟨hmem, hkey⟩, by rw [hexpired]; rfl⟩

theorem mem_set {expires : Bool} :
    i ∈ set c k v expires ↔ i = { key := k, value := v, expires } ∨ i ∈ c ∧ i.key ≠ k :=
  Table.mem_put

@[simp] theorem get_set_self (c : ExpiringCache κ α) (k : κ) (v : α) (expires : Bool) :
    get (set c k v expires) k = some v :=
  get_eq_some.mpr ⟨_, mem_set.mpr (.inl rfl), rfl, rfl, rfl⟩

theorem get_set_of_ne {j : κ} (h : j ≠ k) (c : ExpiringCache κ α) (v : α) (expires : Bool) :
    get (set c k v expires) j = get c j := by
  refine Option.ext fun a => ?_
  rw [get_eq_some, get_eq_some]
  constructor
  · rintro ⟨i, hi, hkey, hrest⟩
    rcases mem_set.mp hi with rfl | ⟨hi, -⟩
    · exact absurd hkey.symm h
    · exact ⟨i, hi, hkey, hrest⟩
  · rintro ⟨i, hi, hkey, hrest⟩
    exact ⟨i, mem_set.mpr (.inr ⟨hi, hkey ▸ h⟩), hkey, hrest⟩

theorem mem_remove : i ∈ remove c k ↔ i ∈ c ∧ i.key ≠ k := by
  rw [remove, Table.mem_deleteWhere, decide_eq_false_iff_not]

@[simp] theorem get_remove_self (c : ExpiringCache κ α) (k : κ) : get (remove c k) k = none := by
  refine Option.eq_none_iff_forall_ne_some.mpr fun a ha => ?_
  obtain ⟨i, hi, hkey, -⟩ := get_eq_some.mp ha
  exact (mem_remove.mp hi).2 hkey

theorem get_remove_of_ne {j : κ} (h : j ≠ k) (c : ExpiringCache κ α) :
    get (remove c k) j = get c j := by
  refine Option.ext fun a => ?_
  rw [get_eq_some, get_eq_some]
  constructor
  · rintro ⟨i, hi, hrest⟩
    exact ⟨i, (mem_remove.mp hi).1, hrest⟩
  · rintro ⟨i, hi, hkey, hrest⟩
    exact ⟨i, mem_remove.mpr ⟨hi, hkey ▸ h⟩, hkey, hrest⟩

/-- Passing of an expiry changes no key and no value. -/
theorem mem_expire (h : i ∈ expire c k) :
    i ∈ c ∨ ∃ j ∈ c, i = { j with expired := j.expires } := by
  rcases Table.mem_updateById _ h with h | ⟨j, hj, -, rfl⟩
  · exact .inl h
  · exact .inr ⟨j, hj, rfl⟩

theorem exists_mem_expire (h : i ∈ c) (k : κ) :
    ∃ j ∈ expire c k, j.key = i.key ∧ j.value = i.value ∧ j.expires = i.expires := by
  have hmem : (if i.key = k then { i with expired := i.expires } else i) ∈ (expire c k).rows :=
    List.mem_map.mpr ⟨i, h, rfl⟩
  refine ⟨_, hmem, ?_⟩
  split
  · exact ⟨rfl, rfl, rfl⟩
  · exact ⟨rfl, rfl, rfl⟩

/-- After a deletion the items under the other keys are left. -/
theorem mem_delete_snd : i ∈ (delete onEvicted d c k).2 ↔ i ∈ c ∧ i.key ≠ k := by
  rw [delete]
  split
  · simp
  · next hnone =>
    constructor
    · intro hi
      refine ⟨hi, fun hkey => hnone (Option.isSome_iff_exists.mpr ⟨i, ?_⟩)⟩
      exact Table.findById_eq_some.mpr ⟨hi, hkey⟩
    · intro hi
      exact hi.1

/-- The callback runs for a key that is in the cache. -/
theorem delete_fst_of_mem (hi : i ∈ c) (hk : i.key = k) :
    (delete onEvicted d c k).1 = onEvicted d k := by
  have hsome : (c.findById k).isSome :=
    Option.isSome_iff_exists.mpr ⟨i, Table.findById_eq_some.mpr ⟨hi, hk⟩⟩
  rw [delete, if_pos hsome]

theorem delete_fst_of_not_mem (h : ∀ i ∈ c, i.key ≠ k) : (delete onEvicted d c k).1 = d := by
  rw [delete, if_neg]
  intro hsome
  obtain ⟨i, hi⟩ := Option.isSome_iff_exists.mp hsome
  obtain ⟨hmem, hkey⟩ := Table.findById_eq_some.mp hi
  exact h i hmem hkey

omit [LinearOrder κ] in
theorem mem_deleteExpired_snd : i ∈ (deleteExpired onEvicted d c).2 ↔ i ∈ c ∧ i.expired = false := by
  simp [deleteExpired]

end ExpiringCache
