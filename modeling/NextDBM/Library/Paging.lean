import Mathlib.Data.List.Nodup
import Mathlib.Data.List.Sort

/-!
# Paging

An answer is sorted by a column and handed out in pages, each by a query of its own with an offset and
a limit. A database may come upon the rows in another order at every query, so two rows with one value
in the column may change places between pages; rows with distinct values may not. The paging law says
that the pages put together are the rows, each once, and that every page reports their number.
-/

namespace Paging

variable {α β ε κ : Type} {xs ys rows : List α} {size total : Nat}

/-! ## Pages of a list -/

/-- `OFFSET` and `LIMIT`; a limit below zero is none. -/
def slice (offset limit : Int) (xs : List α) : List α :=
  if limit < 0 then xs.drop offset.toNat else (xs.drop offset.toNat).take limit.toNat

/-- The number of pages, `ceil (total / size)`. -/
def pageCount (total size : Nat) : Nat := (total + size - 1) / size

theorem slice_page (k size : Nat) (xs : List α) :
    slice (((k : Int) + 1 - 1) * size) size xs = (xs.drop (k * size)).take size := by
  have hoffset : (((k : Int) + 1 - 1) * size).toNat = k * size := by
    rw [Int.add_sub_cancel, ← Int.natCast_mul, Int.toNat_natCast]
  rw [slice, if_neg (by omega), hoffset, Int.toNat_natCast]

/-- Pages one after the other are a beginning of the list. -/
theorem flatMap_pages (m size : Nat) (xs : List α) :
    ((List.range m).flatMap fun k => (xs.drop (k * size)).take size) = xs.take (m * size) := by
  induction m with
  | zero => simp
  | succ m ih =>
    rw [List.range_succ, List.flatMap_append, ih, List.flatMap_cons, List.flatMap_nil,
      List.append_nil, ← List.take_add, Nat.succ_mul]

theorem le_pageCount_mul (hsize : 0 < size) (total : Nat) : total ≤ pageCount total size * size := by
  have hdiv := Nat.div_add_mod (total + size - 1) size
  have hmod := Nat.mod_lt (total + size - 1) hsize
  rw [pageCount, Nat.mul_comm]
  omega

/-- There is no page, or one, exactly when the rows fit on a page. -/
theorem pageCount_le_one (hsize : 0 < size) : pageCount total size ≤ 1 ↔ total ≤ size := by
  rw [pageCount, ← Nat.lt_succ_iff, Nat.div_lt_iff_lt_mul hsize]
  omega

theorem pageCount_pos (hsize : 0 < size) (htotal : 0 < total) : 0 < pageCount total size := by
  rw [pageCount, Nat.div_pos_iff]
  omega

/-! ## Sorted answers -/

/-- An order in which a database comes upon the rows of an answer. -/
structure Scan (α : Type) where
  run : List α → List α
  perm : ∀ xs, (run xs).Perm xs

instance : Inhabited (Scan α) := ⟨⟨id, fun _ => List.Perm.refl _⟩⟩

section Order

variable [LinearOrder κ] {key : α → κ} {desc : Bool}

/-- The rows in the ascending or the descending order of a column. -/
def orderBy (key : α → κ) (desc : Bool) (xs : List α) : List α :=
  let ascending := xs.insertionSort fun a b => key a ≤ key b
  if desc then ascending.reverse else ascending

theorem orderBy_perm (key : α → κ) (desc : Bool) (xs : List α) : (orderBy key desc xs).Perm xs := by
  unfold orderBy
  cases desc with
  | true => exact (List.reverse_perm _).trans (List.perm_insertionSort _ xs)
  | false => exact List.perm_insertionSort _ xs

/-- Rows with distinct values have one order, however the database comes upon them. -/
theorem orderBy_congr (hdistinct : (xs.map key).Nodup) (hperm : ys.Perm xs) :
    orderBy key desc ys = orderBy key desc xs := by
  have hsort (zs : List α) : (zs.insertionSort fun a b => key a ≤ key b).Pairwise
      fun a b => key a ≤ key b := List.pairwise_insertionSort (fun a b => key a ≤ key b) zs
  have hascending : (ys.insertionSort fun a b => key a ≤ key b) =
      xs.insertionSort fun a b => key a ≤ key b := by
    refine List.Perm.eq_of_pairwise (fun a b ha hb hab hba => ?_) (hsort ys) (hsort xs) ?_
    · have ha : a ∈ xs := hperm.mem_iff.mp ((List.mem_insertionSort _).mp ha)
      have hb : b ∈ xs := (List.mem_insertionSort _).mp hb
      exact List.inj_on_of_nodup_map hdistinct ha hb (le_antisymm hab hba)
    · exact ((List.perm_insertionSort _ ys).trans hperm).trans (List.perm_insertionSort _ xs).symm
  unfold orderBy
  rw [hascending]

end Order

/-! ## The law -/

/-- Every page reports the number of rows, and the pages up to it, each asked for in whatever order
the database then comes upon the rows, are the rows. -/
def Law (find : Scan α → Int → Except ε (List β × Nat)) (rows : List β) (size : Nat) : Prop :=
  ∀ scan : Nat → Scan α, ∃ page : Nat → List β,
    (∀ k : Nat, find (scan k) (k + 1) = .ok (page k, rows.length)) ∧
      ((List.range (pageCount rows.length size)).flatMap page).Perm rows

/-- A query that fails on its first page breaks the law. -/
theorem not_law_of_error {find : Scan α → Int → Except ε (List β × Nat)} {rows : List β} {e : ε}
    (h : find default 1 = .error e) : ¬ Law find rows size := by
  intro hlaw
  obtain ⟨page, hpage, -⟩ := hlaw fun _ => default
  exact nomatch h.symm.trans (hpage 0)

section

variable [LinearOrder κ] {key : α → κ} {desc : Bool}
  {find : Scan α → Int → Except ε (List α × Nat)}

/-- A query that applies the offset and the limit before it runs keeps the law exactly when it counts
the rows that it pages. -/
theorem law_sliced_iff (hsize : 0 < size) (hdistinct : (rows.map key).Nodup)
    (hfind : ∀ scan pageIndex, find scan pageIndex =
      .ok (slice ((pageIndex - 1) * size) size (orderBy key desc (scan.run rows)), total)) :
    Law find rows size ↔ total = rows.length := by
  constructor
  · intro hlaw
    obtain ⟨page, hpage, -⟩ := hlaw fun _ => default
    have hfirst := (hfind default _).symm.trans (hpage 0)
    exact (Prod.mk.inj (Except.ok.inj hfirst)).2
  · rintro rfl scan
    refine ⟨fun k => ((orderBy key desc rows).drop (k * size)).take size, fun k => ?_, ?_⟩
    · rw [hfind, orderBy_congr hdistinct ((scan k).perm rows), slice_page]
    · rw [flatMap_pages, List.take_of_length_le]
      · exact orderBy_perm key desc rows
      · rw [(orderBy_perm key desc rows).length_eq]
        exact le_pageCount_mul hsize rows.length

/-- A query that runs before the offset and the limit are applied answers every page with all rows: it
keeps the law exactly when the rows fit on one page. -/
theorem law_whole_iff (hsize : 0 < size)
    (hfind : ∀ scan pageIndex, find scan pageIndex =
      .ok (orderBy key desc (scan.run rows), rows.length)) :
    Law find rows size ↔ rows.length ≤ size := by
  have hwhole (scan : Scan α) : (orderBy key desc (scan.run rows)).Perm rows :=
    (orderBy_perm key desc _).trans (scan.perm rows)
  rw [← pageCount_le_one hsize]
  constructor
  · intro hlaw
    obtain ⟨page, hpage, hperm⟩ := hlaw fun _ => default
    have hlength (k : Nat) : (page k).length = rows.length := by
      have hk := (hfind default _).symm.trans (hpage k)
      rw [← (Prod.mk.inj (Except.ok.inj hk)).1]
      exact (hwhole default).length_eq
    have hsum := hperm.length_eq
    rw [List.length_flatMap, List.map_congr_left fun k _ => hlength k, List.map_const',
      List.length_range, List.sum_replicate_nat] at hsum
    rcases Nat.eq_zero_or_pos rows.length with hzero | hpos
    · rw [hzero, pageCount_le_one hsize]
      exact Nat.zero_le size
    · exact le_of_eq (Nat.eq_of_mul_eq_mul_right hpos (hsum.trans (Nat.one_mul _).symm))
  · intro hcount scan
    refine ⟨fun k => orderBy key desc ((scan k).run rows), fun k => hfind (scan k) (k + 1), ?_⟩
    rcases Nat.eq_zero_or_pos rows.length with hzero | hpos
    · have hnil : rows = [] := List.length_eq_zero_iff.mp hzero
      have hnone : pageCount rows.length size = 0 := by
        rw [hzero, pageCount, Nat.zero_add]
        exact Nat.div_eq_of_lt (by omega)
      rw [hnone, hnil]
      exact List.Perm.refl _
    · have hone : pageCount rows.length size = 1 :=
        le_antisymm hcount (pageCount_pos hsize hpos)
      rw [hone]
      show (orderBy key desc ((scan 0).run rows) ++ []).Perm rows
      rw [List.append_nil]
      exact hwhole (scan 0)

end

end Paging
