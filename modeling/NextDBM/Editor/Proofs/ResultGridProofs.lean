import NextDBM.Editor.ResultGrid

/-!
# Proofs: result grids

The keys that the browser meets are the names of the columns without repetitions, in the order of keys.
So the header row gives the columns back when they come in that order, and then every row gives its cells
back. An item of a DESCRIBE has no key that spells a number.
-/

namespace NextDBM

open Relational ScriptObject

variable {columns : List String} {values : List (Option ByteArray)} {rs : ResultSet}

/-! ## Rows on the way -/

theorem mem_foldl_put {entries : List (String × Option ByteArray)} {m : RowMap}
    {p : String × Option ByteArray} (h : p ∈ entries.foldl Table.put m) : p ∈ entries ∨ p ∈ m := by
  induction entries generalizing m with
  | nil => exact .inr h
  | cons e entries ih =>
    rw [List.foldl_cons] at h
    rcases ih h with hp | hp
    · exact .inl (List.mem_cons_of_mem e hp)
    · rcases Table.mem_put.mp hp with rfl | ⟨hp, -⟩
      · exact .inl List.mem_cons_self
      · exact .inr hp

theorem mem_rowMap {p : String × Option ByteArray} (h : p ∈ rowMap columns values) :
    p ∈ columns.zip values :=
  (mem_foldl_put h).resolve_right List.not_mem_nil

/-- Entries with new keys are all kept. -/
theorem perm_foldl_put {entries : List (String × Option ByteArray)} {m : RowMap}
    (hnodup : (entries.map Prod.fst).Nodup)
    (hnew : ∀ e ∈ entries, ∀ p ∈ m, p.1 ≠ e.1) :
    (entries.foldl Table.put m).rows.Perm (entries ++ m.rows) := by
  induction entries generalizing m with
  | nil => exact List.Perm.refl _
  | cons e entries ih =>
    rw [List.map_cons, List.nodup_cons] at hnodup
    have hrows : (m.put e).rows = e :: m.rows := by
      have hkeep : m.rows.filter (fun p => !decide (p.1 = e.1)) = m.rows :=
        List.filter_eq_self.mpr fun p hp => by
          simpa using hnew e List.mem_cons_self p hp
      show e :: m.rows.filter (fun p => !decide (p.1 = e.1)) = e :: m.rows
      rw [hkeep]
    rw [List.foldl_cons]
    refine (ih hnodup.2 fun e' he' p hp => ?_).trans ?_
    · rcases Table.mem_put.mp hp with rfl | ⟨hp, -⟩
      · exact fun heq => hnodup.1 (heq ▸ List.mem_map_of_mem he')
      · exact hnew e' (List.mem_cons_of_mem e he') p hp
    · rw [hrows]
      exact List.perm_middle

theorem perm_rowMap (hnodup : columns.Nodup) (hlength : values.length = columns.length) :
    (rowMap columns values).rows.Perm (columns.zip values) := by
  have hkeys : (columns.zip values).map Prod.fst = columns :=
    List.map_fst_zip (le_of_eq hlength.symm)
  have hperm : (rowMap columns values).rows.Perm (columns.zip values ++ []) :=
    perm_foldl_put (hkeys.symm ▸ hnodup) fun e _ p hp => absurd hp List.not_mem_nil
  rwa [List.append_nil] at hperm

/-- A map is written with its keys in ascending order. -/
theorem pairwise_marshalMap (m : RowMap) :
    (marshalMap m).Pairwise fun p q => p.1 < q.1 := by
  unfold marshalMap
  rw [List.pairwise_map]
  have hne : m.sorted.Pairwise fun p q => p.1 ≠ q.1 := by
    refine ((List.perm_insertionSort _ m.rows).pairwise_iff fun hpq => Ne.symm hpq).mpr ?_
    exact List.pairwise_map.mp m.nodup
  exact (m.pairwise_sorted.and hne).imp fun hpq => lt_of_le_of_ne hpq.1 hpq.2

theorem perm_marshalMap (m : RowMap) : (marshalMap m).Perm
    (m.rows.map fun p => (p.1, p.2.map Utf8.decode)) :=
  (List.perm_insertionSort _ m.rows).map _

/-- The keys of a row in the order in which the browser meets them. -/
theorem pairwise_received (m : RowMap) :
    (forIn (marshalMap m)).Pairwise fun p q => Before p.1 q.1 :=
  pairwise_forIn (pairwise_marshalMap m)

/-- Columns in the order of keys are met as they are. -/
theorem rowValues_of_inOrder (horder : columns.Pairwise Before)
    (hlength : values.length = columns.length) :
    rowValues (marshalMap (rowMap columns values)) = values.map (Option.map Utf8.decode) := by
  have hnodup : columns.Nodup := horder.imp fun h => h.ne
  have hkeys : (columns.zip values).map Prod.fst = columns :=
    List.map_fst_zip (le_of_eq hlength.symm)
  have hperm : ((columns.zip values).map fun p => (p.1, p.2.map Utf8.decode)).Perm
      (marshalMap (rowMap columns values)) :=
    ((perm_rowMap hnodup hlength).map _).symm.trans (perm_marshalMap _).symm
  have hbefore : ((columns.zip values).map fun p => (p.1, p.2.map Utf8.decode)).Pairwise
      fun p q => Before p.1 q.1 := by
    rw [List.pairwise_map]
    exact List.pairwise_map.mp (hkeys.symm ▸ horder)
  unfold rowValues
  rw [forIn_eq (pairwise_marshalMap _) hperm hbefore, List.map_map]
  have hvalues : (columns.zip values).map Prod.snd = values :=
    List.map_snd_zip (le_of_eq hlength)
  rw [← hvalues, List.map_map, hvalues]
  rfl

/-! ## The grid -/

namespace ResultSet

theorem tableHeaders_eq (rs : ResultSet) : (getTableRsesultFormat (receivedData rs)).tableHeaders =
    rowValues (marshalMap (headerRow rs.columns)) := rfl

theorem tableRows_eq (rs : ResultSet) : (getTableRsesultFormat (receivedData rs)).tableRows =
    rs.rows.map fun row => rowValues (marshalMap (rowMap rs.columns row)) := by
  show ((rs.rows.map (rowMap rs.columns)).map marshalMap).map rowValues = _
  rw [List.map_map, List.map_map]
  rfl

theorem eq_of_mem_zip_self {α : Type*} {l : List α} {a b : α} (h : (a, b) ∈ l.zip l) : a = b := by
  induction l with
  | nil => exact absurd h List.not_mem_nil
  | cons c l ih =>
    rw [List.zip_cons_cons] at h
    rcases List.mem_cons.mp h with heq | h
    · cases heq
      rfl
    · exact ih h

/-- The header row names every column by itself. -/
theorem header_of_mem {p : String × Option String} (h : p ∈ marshalMap (headerRow columns)) :
    p.2 = some p.1 := by
  obtain ⟨q, hq, rfl⟩ := List.mem_map.mp ((perm_marshalMap _).subset h)
  have hzip := mem_rowMap hq
  rw [List.zip_map_right, List.mem_map] at hzip
  obtain ⟨⟨a, b⟩, hab, rfl⟩ := hzip
  obtain rfl := eq_of_mem_zip_self hab
  show (some a.toByteArray).map Utf8.decode = some a
  rw [Option.map_some, Utf8.decode_toByteArray]

/-- **The columns**: the browser has them in their order when they come in the order of keys. -/
theorem headers_iff : (getTableRsesultFormat (receivedData rs)).tableHeaders = rs.columns.map some ↔
    rs.InOrder := by
  rw [tableHeaders_eq]
  constructor
  · intro h
    have hkeys : (forIn (marshalMap (headerRow rs.columns))).map Prod.fst = rs.columns := by
      have hself : (forIn (marshalMap (headerRow rs.columns))).map Prod.snd =
          ((forIn (marshalMap (headerRow rs.columns))).map Prod.fst).map some := by
        rw [List.map_map]
        refine List.map_congr_left fun p hp => ?_
        exact header_of_mem ((perm_forIn _).subset hp)
      have hsome : ((forIn (marshalMap (headerRow rs.columns))).map Prod.fst).map some =
          rs.columns.map some := hself.symm.trans h
      exact (List.map_injective_iff.mpr (Option.some_injective String)) hsome
    unfold InOrder
    rw [← hkeys, List.pairwise_map]
    exact pairwise_received _
  · intro h
    unfold headerRow
    rw [rowValues_of_inOrder h (List.length_map _), List.map_map]
    refine List.map_congr_left fun col _ => ?_
    show (some col.toByteArray).map Utf8.decode = some col
    rw [Option.map_some, Utf8.decode_toByteArray]

/-- A cell is what the server has read when it is UTF-8. -/
theorem cell_iff {cell : Option ByteArray} :
    (cell.map Utf8.decode).map String.toByteArray = cell ↔ ∀ b ∈ cell, b.IsValidUTF8 := by
  cases cell with
  | none => exact ⟨fun _ b hb => (by cases hb), fun _ => rfl⟩
  | some b =>
    rw [Option.map_some, Option.map_some, Option.some.injEq, Utf8.toByteArray_decode]
    constructor
    · rintro h b' hb'
      cases hb'
      exact h
    · exact fun h => h b rfl

theorem map_eq_self_iff {α : Type*} {f : α → α} {l : List α} : l.map f = l ↔ ∀ a ∈ l, f a = a := by
  constructor
  · intro h a ha
    exact List.map_inj_left.mp (h.trans (List.map_id l).symm) a ha
  · exact fun h => (List.map_congr_left h).trans (List.map_id l)

/-- **The grid** is the result exactly when the columns come in the order of keys and the cells are
UTF-8. -/
theorem sameGrid_iff (rs : ResultSet) : rs.SameGrid ↔ rs.InOrder ∧ rs.IsText := by
  have hrows (horder : rs.InOrder) : (getTableRsesultFormat (receivedData rs)).tableRows.map
      (·.map (Option.map String.toByteArray)) = rs.rows ↔ rs.IsText := by
    rw [tableRows_eq, List.map_map]
    have hrow : rs.rows.map ((·.map (Option.map String.toByteArray)) ∘
        fun row => rowValues (marshalMap (rowMap rs.columns row))) =
        rs.rows.map (·.map fun cell => (cell.map Utf8.decode).map String.toByteArray) := by
      refine List.map_congr_left fun row hrow => ?_
      show (rowValues (marshalMap (rowMap rs.columns row))).map _ = _
      rw [rowValues_of_inOrder horder (rs.scanned row hrow), List.map_map]
      rfl
    rw [hrow, map_eq_self_iff]
    refine forall₂_congr fun row _ => ?_
    rw [map_eq_self_iff]
    exact forall₂_congr fun cell _ => cell_iff
  constructor
  · intro h
    have horder := headers_iff.mp h.headers
    exact ⟨horder, (hrows horder).mp h.rows⟩
  · rintro ⟨horder, htext⟩
    exact ⟨headers_iff.mpr horder, (hrows horder).mpr htext⟩

end ResultSet

/-! ## The table structure -/

namespace Description

variable {d : Description} {item : List (String × Option String)}

theorem tableStruct_eq (rs : ResultSet) :
    tableStruct rs = rs.rows.map fun row => marshalMap (rowMap rs.columns row) := by
  show (rs.rows.map (rowMap rs.columns)).map marshalMap = _
  rw [List.map_map]
  rfl

/-- An item has no property at a position. -/
theorem get_eq_none (h : item ∈ tableStruct d.toResultSet) {i : Nat}
    (hi : toString i ∉ describeColumns) : ScriptObject.get item i = none := by
  rw [tableStruct_eq] at h
  obtain ⟨row, -, rfl⟩ := List.mem_map.mp h
  unfold ScriptObject.get
  rw [Option.map_eq_none_iff, List.find?_eq_none]
  intro p hp heq
  obtain ⟨q, hq, rfl⟩ := List.mem_map.mp ((perm_marshalMap _).subset hp)
  have hcolumn : q.1 ∈ d.columns := (List.of_mem_zip (mem_rowMap hq)).1
  rw [d.described] at hcolumn
  exact hi ((beq_iff_eq.mp heq) ▸ hcolumn)

/-- The editor finds no primary key in any table. -/
theorem primaryKeyColumn_eq_none (d : Description) :
    primaryKeyColumn (tableStruct d.toResultSet) = none := by
  unfold primaryKeyColumn
  rw [List.find?_eq_none]
  intro item hitem heq
  rw [get_eq_none hitem (by decide)] at heq
  cases heq

/-- **The positions** are right only in a table without columns. -/
theorem positional_iff (d : Description) : d.Positional ↔ d.rows = [] := by
  constructor
  · intro h
    cases hrows : d.rows with
    | nil => rfl
    | cons row rows =>
      unfold Positional at h
      have hitem : marshalMap (rowMap d.columns row) ∈ tableStruct d.toResultSet := by
        rw [tableStruct_eq]
        exact List.mem_map_of_mem (hrows ▸ List.mem_cons_self)
      rw [tableStruct_eq, hrows, List.map_cons] at h
      obtain ⟨hfirst, -⟩ := List.forall₂_cons.mp h
      have hname := hfirst 0 (by decide)
      rw [get_eq_none hitem (by decide)] at hname
      have hlength : row.length = 6 := by
        rw [d.scanned row (hrows ▸ List.mem_cons_self), d.described]
        rfl
      have hpos : 0 < row.length := by omega
      rw [List.getElem?_eq_getElem hpos] at hname
      cases hname
  · intro h
    unfold Positional
    rw [tableStruct_eq, h]
    exact List.Forall₂.nil

end Description

/-- A result comes through as its grid when its columns come in the order of keys and its cells are
UTF-8; a table structure has no positions as soon as the table has a column. -/
theorem decoded_iff (rs : ResultSet) (d : Description) :
    (rs.SameGrid ↔ rs.InOrder ∧ rs.IsText) ∧ (d.Positional ↔ d.rows = []) :=
  ⟨rs.sameGrid_iff, d.positional_iff⟩

/-- `SELECT id, amount` -/
def orderAmounts : ResultSet := ⟨["id", "amount"], [[none, none]], by decide⟩

/-- The DESCRIBE of a table with one column, the primary key. -/
def orderStruct : Description :=
  { columns := describeColumns
    rows := [["id", "int", "NO", "PRI", "", ""].map fun s => some s.toByteArray]
    scanned := by decide
    described := rfl }

/-- The browser has the amount before the id, and finds no primary key. -/
theorem not_decoded_orders : ¬ orderAmounts.SameGrid ∧ ¬ orderStruct.Positional ∧
    primaryKeyColumn (tableStruct orderStruct.toResultSet) = none := by
  refine ⟨fun h => ?_, fun h => ?_, orderStruct.primaryKeyColumn_eq_none⟩
  · have horder : orderAmounts.InOrder := (orderAmounts.sameGrid_iff.mp h).1
    exact absurd horder (by decide)
  · have hrows := orderStruct.positional_iff.mp h
    cases hrows

end NextDBM
