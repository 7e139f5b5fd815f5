import Mathlib.Data.List.Lex
import Mathlib.Data.List.Nodup

/-!
# Concatenated blocks

A sorted list of words without separators between them. Words of one length can be cut off one after
the other; a single shorter word `s` among them is found because the list is sorted: `s` is a prefix
of any longer word that starts where `s` does, so `s` comes before it.
-/

namespace Blocks

variable {α : Type*} {n : ℕ} {s : List α} {xs ys : List (List α)}

/-- The length of a concatenation tells whether the short word is among the words. -/
theorem length_flatten_mod [DecidableEq α] (hx : ∀ x ∈ xs, x.length = n ∨ x = s)
    (hnodup : xs.Nodup) :
    xs.flatten.length % n = if s ∈ xs then s.length % n else 0 := by
  induction xs with
  | nil => simp
  | cons x xs ih =>
    obtain ⟨hxxs, hnodup'⟩ := List.nodup_cons.mp hnodup
    have ih' := ih (fun y hy => hx y (List.mem_cons_of_mem x hy)) hnodup'
    rw [List.flatten_cons, List.length_append, Nat.add_mod, ih']
    by_cases hxs : x = s
    · have hs : s ∉ xs := hxs ▸ hxxs
      rw [if_neg hs, if_pos (hxs ▸ List.mem_cons_self), hxs]
      simp
    · have hlen : x.length = n := (hx x List.mem_cons_self).resolve_right hxs
      have hmem : s ∈ x :: xs ↔ s ∈ xs := by
        rw [List.mem_cons]
        exact ⟨fun h => h.resolve_left fun h' => hxs h'.symm, Or.inr⟩
      rw [hlen]
      by_cases h : s ∈ xs
      · rw [if_pos h, if_pos (hmem.mpr h)]
        simp
      · rw [if_neg h, if_neg (fun h' => h (hmem.mp h'))]
        simp

theorem mem_iff_of_flatten_eq (hpos : 0 < s.length) (hlt : s.length < n)
    (hx : ∀ x ∈ xs, x.length = n ∨ x = s) (hy : ∀ y ∈ ys, y.length = n ∨ y = s)
    (hxn : xs.Nodup) (hyn : ys.Nodup) (h : xs.flatten = ys.flatten) : s ∈ xs ↔ s ∈ ys := by
  classical
  have hlen := length_flatten_mod hx hxn
  rw [h, length_flatten_mod hy hyn, Nat.mod_eq_of_lt hlt] at hlen
  by_cases hsx : s ∈ xs
  · rw [if_pos hsx] at hlen
    refine ⟨fun _ => ?_, fun _ => hsx⟩
    by_contra hsy
    rw [if_neg hsy] at hlen
    omega
  · rw [if_neg hsx] at hlen
    refine ⟨fun h => absurd h hsx, fun hsy => ?_⟩
    rw [if_pos hsy] at hlen
    omega

theorem ne_nil_of_block {x : List α} (hpos : 0 < s.length) (hlt : s.length < n)
    (hx : x.length = n ∨ x = s) : x ≠ [] := by
  intro h
  rw [h] at hx
  rcases hx with hlen | hs
  · rw [List.length_nil] at hlen
    omega
  · rw [← hs, List.length_nil] at hpos
    omega

section Sorted

variable [LinearOrder α]

/-- A word of length `n` that starts like the short word does not stand before it. -/
theorem ne_of_sorted {y u v : List α} (hlt : s.length < n) (hlen : y.length = n)
    (happ : s ++ u = y ++ v) (hle : y ≤ s) : False := by
  have hpre : s <+: y := List.prefix_of_prefix_length_le (List.prefix_append s u)
    (happ ▸ List.prefix_append y v) (by omega)
  have hys : y = s := le_antisymm hle (not_lt.mp (List.not_lt.mpr hpre.le))
  rw [hys] at hlen
  omega

/-- **Sorted words are read back from their concatenation**, whatever their number. -/
theorem eq_of_flatten_eq (hpos : 0 < s.length) (hlt : s.length < n)
    (hx : ∀ x ∈ xs, x.length = n ∨ x = s) (hy : ∀ y ∈ ys, y.length = n ∨ y = s)
    (hxn : xs.Nodup) (hyn : ys.Nodup) (hxs : xs.Pairwise (· ≤ ·)) (hys : ys.Pairwise (· ≤ ·))
    (h : xs.flatten = ys.flatten) : xs = ys := by
  induction xs generalizing ys with
  | nil =>
    cases ys with
    | nil => rfl
    | cons y ys =>
      rw [List.flatten_cons] at h
      have hy0 : y = [] := (List.append_eq_nil_iff.mp h.symm).1
      exact (ne_nil_of_block hpos hlt (hy y List.mem_cons_self) hy0).elim
  | cons x xs ih =>
    cases ys with
    | nil =>
      rw [List.flatten_cons] at h
      have hx0 : x = [] := (List.append_eq_nil_iff.mp h).1
      exact (ne_nil_of_block hpos hlt (hx x List.mem_cons_self) hx0).elim
    | cons y ys =>
      have hmem := mem_iff_of_flatten_eq hpos hlt hx hy hxn hyn h
      obtain ⟨hxle, hxs'⟩ := List.pairwise_cons.mp hxs
      obtain ⟨hyle, hys'⟩ := List.pairwise_cons.mp hys
      rw [List.flatten_cons, List.flatten_cons] at h
      -- the heads have the same length, or one of them is the short word that sorts first
      have hlen : x.length = y.length := by
        rcases hx x List.mem_cons_self with hxl | rfl
        · rcases hy y List.mem_cons_self with hyl | rfl
          · omega
          · rcases List.mem_cons.mp (hmem.mpr List.mem_cons_self) with hyx | hin
            · rw [hyx]
            · exact (ne_of_sorted hlt hxl h.symm (hxle _ hin)).elim
        · rcases hy y List.mem_cons_self with hyl | rfl
          · rcases List.mem_cons.mp (hmem.mp List.mem_cons_self) with hxy | hin
            · rw [hxy]
            · exact (ne_of_sorted hlt hyl h (hyle _ hin)).elim
          · rfl
      obtain ⟨rfl, hrest⟩ := List.append_inj h hlen
      rw [ih (fun z hz => hx z (List.mem_cons_of_mem _ hz))
        (fun z hz => hy z (List.mem_cons_of_mem _ hz)) (List.nodup_cons.mp hxn).2
        (List.nodup_cons.mp hyn).2 hxs' hys' hrest]

end Sorted

end Blocks
