import NextDBM.Editor.RowEditing

/-!
# Proofs: literals of edited rows

A literal settles what is read of it, so the statements are read as they are meant exactly if each name
and each literal is.
-/

namespace NextDBM

open MySqlText ScriptNumber

/-! ## Lists of results -/

section Results

variable {α β : Type} {f : α → Option β} {xs : List α} {ys : List β}

theorem mapM_eq_some (d : β) : xs.mapM f = some ys ↔
    (∀ x ∈ xs, (f x).isSome = true) ∧ ys = xs.map fun x => (f x).getD d := by
  induction xs generalizing ys with
  | nil =>
    constructor
    · intro h
      exact ⟨fun x hx => absurd hx List.not_mem_nil, (Option.some.inj h).symm⟩
    · rintro ⟨-, rfl⟩
      rfl
  | cons x xs ih =>
    rw [List.mapM_cons]
    cases hx : f x with
    | none =>
      constructor
      · intro h
        cases h
      · rintro ⟨hall, -⟩
        have hsome := hall x List.mem_cons_self
        rw [hx] at hsome
        cases hsome
    | some y =>
      constructor
      · intro h
        obtain ⟨y', hy', hrest⟩ := Option.bind_eq_some_iff.mp h
        obtain ⟨ys', hys', heq⟩ := Option.bind_eq_some_iff.mp hrest
        obtain rfl := Option.some.inj hy'
        obtain rfl := Option.some.inj heq
        obtain ⟨hall, rfl⟩ := ih.mp hys'
        refine ⟨List.forall_mem_cons.mpr ⟨by rw [hx]; rfl, hall⟩, ?_⟩
        rw [List.map_cons, hx]
        rfl
      · rintro ⟨hall, rfl⟩
        have hrest := ih.mpr ⟨(List.forall_mem_cons.mp hall).2, rfl⟩
        rw [hrest, List.map_cons, hx]
        rfl

end Results

/-! ## Rows -/

theorem arrayIndex_rowIndex : ScriptObject.arrayIndex "rowIndex" = none := by decide

namespace FilledRow

variable {n : Nat} (row : FilledRow n)

theorem length_le : row.cells.length ≤ 4294967295 := by
  have hlength := row.length
  have hshort := row.short
  omega

theorem rowIndex_not_index : ∀ e ∈ (row.rowIndex.map fun i => ("rowIndex", i)).toList,
    ScriptObject.arrayIndex e.1 = none := by
  intro e he
  obtain ⟨i, -, rfl⟩ := Option.map_eq_some_iff.mp (Option.mem_toList.mp he)
  exact arrayIndex_rowIndex

theorem filteredRow_object : RowParams.filteredRow row.object = row.cells := by
  obtain ⟨rest, hforIn, hrest⟩ :=
    ScriptObject.forIn_positions row.length_le row.rowIndex_not_index row.perm
  have hkeep : (ScriptObject.positions row.cells).filter (fun e => decide (e.1 ≠ "rowIndex")) =
      ScriptObject.positions row.cells := by
    refine List.filter_eq_self.mpr fun e he => ?_
    obtain ⟨i, -, hi, -⟩ := ScriptObject.exists_of_mem_positions row.length_le he
    refine decide_eq_true fun heq => ?_
    rw [heq, arrayIndex_rowIndex] at hi
    cases hi
  have hdrop : rest.filter (fun e => decide (e.1 ≠ "rowIndex")) = [] := by
    refine List.filter_eq_nil_iff.mpr fun e he => ?_
    obtain ⟨i, -, rfl⟩ := Option.map_eq_some_iff.mp (Option.mem_toList.mp (hrest.subset he))
    exact fun h => of_decide_eq_true h rfl
  unfold RowParams.filteredRow
  rw [hforIn, List.filter_append, hkeep, hdrop, List.append_nil, ScriptObject.positions, List.map_map]
  exact List.zipIdx_map_fst 0 row.cells

theorem get_object {k : Nat} (hk : k < n) : ScriptObject.get row.object k = row.cells[k]? := by
  have hlt : k < row.cells.length := by
    rw [row.length]
    exact hk
  rw [List.getElem?_eq_getElem hlt]
  exact ScriptObject.get_positions row.length_le row.rowIndex_not_index row.perm
    (List.getElem?_eq_getElem hlt)

end FilledRow

/-! ## Literals -/

namespace Cell

variable {cell : Cell} {numeric : Prop} {s : Bytes} {x : Number}

/-- What has no number for a script shows no number. -/
theorem value_of_zero (h : cell = .null ∨ cell = .text [] ∨ numberOf (some cell) = .nan) :
    cell.value = none := by
  cases cell with
  | null => rfl
  | text s =>
    rcases h with h | h | h
    · cases h
    · rw [h]
      rfl
    · refine Option.map_eq_none_iff.mpr ?_
      by_contra hsome
      obtain ⟨n, hn⟩ := Option.ne_none_iff_exists'.mp hsome
      exact number_ne_nan hn h
  | number x =>
    rcases h with h | h | h
    · cases h
    · cases h
    · obtain rfl : x = .nan := h
      rfl

/-- `0` does not say what was entered where there is no number. -/
theorem zero_settles (h : cell.value = none) {good : Prop} (hgood : ¬ good) :
    Settles Ends literal RowParams.zeroText (cell.Denoted numeric) good where
  reads hg := absurd hg hgood
  fails _ t ht x r hread hx := by
    have hnumber : asNumeral RowParams.zeroText = some ⟨false, 0, 0⟩ := by decide
    rw [isRead_number hnumber ht.follows] at hread
    obtain ⟨rfl, -⟩ := Prod.mk.inj (Option.some.inj hread)
    rw [hx.2] at h
    cases h

theorem exists_value_text : (∃ v, (Cell.text s).value = some v) ↔
    ∃ n, asNumeral (trimSpace s) = some n := by
  constructor
  · rintro ⟨v, hv⟩
    obtain ⟨n, hn, -⟩ := Option.map_eq_some_iff.mp hv
    exact ⟨n, hn⟩
  · rintro ⟨n, hn⟩
    exact ⟨n.value, congrArg (Option.map Numeral.value) hn⟩

/-- A number as it is written. -/
theorem toText_settles (x : Number) : Settles Ends literal (toText x) (cell.Denoted numeric)
    (numeric ∧ ∃ v, cell.value = some v ∧ (Cell.number x).value = some v) := by
  have hread := (isRead_toText x).settles (P := cell.Denoted numeric)
  have hgood : (∃ y, (asNumeral (toText x)).map Literal.number = some y ∧ cell.Denoted numeric y) ↔
      numeric ∧ ∃ v, cell.value = some v ∧ (Cell.number x).value = some v := by
    constructor
    · rintro ⟨y, hy, hdenoted⟩
      obtain ⟨n, hn, rfl⟩ := Option.map_eq_some_iff.mp hy
      exact ⟨hdenoted.1, n.value, hdenoted.2, congrArg (Option.map Numeral.value) hn⟩
    · rintro ⟨hnumeric, v, hv, hx⟩
      obtain ⟨n, hn, rfl⟩ := Option.map_eq_some_iff.mp hx
      exact ⟨.number n, congrArg (Option.map Literal.number) hn, hnumeric, hv⟩
  rwa [hgood] at hread

/-- A numeral as it was typed. -/
theorem typed_settles (hs : ScriptNumber.number s ≠ .nan) :
    Settles Ends literal s ((Cell.text s).Denoted numeric)
      (numeric ∧ ∃ v, (Cell.text s).value = some v) := by
  have hnull : ¬ (Cell.text s).Denoted numeric .null := fun h => by cases h
  have hread := number_settles (P := (Cell.text s).Denoted numeric) hs hnull fun n hn => by
    obtain ⟨n', hn', -⟩ := Option.map_eq_some_iff.mp hn.2
    exact ⟨n', hn', hn.1, congrArg (Option.map Numeral.value) hn'⟩
  have hgood : (∃ n, asNumeral (trimSpace s) = some n ∧ (Cell.text s).Denoted numeric (.number n)) ↔
      numeric ∧ ∃ v, (Cell.text s).value = some v := by
    rw [exists_value_text]
    constructor
    · rintro ⟨n, hn, hdenoted⟩
      exact ⟨hdenoted.1, n, hn⟩
    · rintro ⟨hnumeric, n, hn⟩
      exact ⟨n, hn, hnumeric, congrArg (Option.map Numeral.value) hn⟩
  rwa [hgood] at hread

theorem insertNumber_settles (cell : Cell) (numeric : Prop) :
    Settles Ends literal (RowParams.insertNumber cell) (cell.Denoted numeric)
      (numeric ∧ ∃ v, cell.value = some v) := by
  unfold RowParams.insertNumber
  by_cases hzero : cell = .null ∨ cell = .text [] ∨ numberOf (some cell) = .nan
  · rw [if_pos hzero]
    refine zero_settles (value_of_zero hzero) ?_
    rintro ⟨-, v, hv⟩
    rw [value_of_zero hzero] at hv
    cases hv
  · rw [if_neg hzero]
    obtain ⟨hnull, -, hnan⟩ := not_or.mp hzero |>.imp_right not_or.mp
    cases cell with
    | null => exact absurd rfl hnull
    | text s => exact typed_settles hnan
    | number x =>
      have hread := @toText_settles (.number x) numeric x
      simp only [and_self] at hread
      exact hread

theorem setNumber_settles (cell : Cell) (numeric : Prop) :
    Settles Ends literal (RowParams.setNumber (some cell)) (cell.Denoted numeric)
      (numeric ∧ ∃ v, cell.value = some v ∧ (Cell.number (numberOf (some cell))).value = some v) := by
  unfold RowParams.setNumber
  by_cases hzero : some cell = some .null ∨ some cell = some (.text []) ∨ numberOf (some cell) = .nan
  · have hvalue : cell.value = none := value_of_zero (by simpa using hzero)
    rw [if_pos hzero]
    refine zero_settles hvalue ?_
    rintro ⟨-, v, hv, -⟩
    rw [hvalue] at hv
    cases hv
  · rw [if_neg hzero]
    exact toText_settles (numberOf (some cell))

/-- A text between quotes. -/
theorem quoted_settles (h : RowParams.quoted (some cell) = some s) :
    Settles Ends literal s (cell.Denoted numeric) (∃ d, cell = .text d ∧ isTame d = true) := by
  cases cell with
  | null => cases h
  | number x => cases h
  | text d =>
    obtain rfl := Option.some.inj h
    have hread : Settles Ends literal (quotedText d) ((Cell.text d).Denoted numeric) (isTame d = true) :=
      quotedText_settles fun d' => ⟨fun h => (Cell.text.inj h).symm, fun h => congrArg Cell.text h.symm⟩
    have hgood : (∃ d', Cell.text d = .text d' ∧ isTame d' = true) ↔ isTame d = true := by
      constructor
      · rintro ⟨d', hd', htame⟩
        rwa [Cell.text.inj hd']
      · exact fun htame => ⟨d, rfl, htame⟩
    rwa [hgood]

end Cell

namespace RowParams

variable {p : RowParams} {column s : Bytes} {cell : Cell} {reserved : Bytes → Bool}

/-! ## Columns -/

theorem assigned_iff {type : Bytes} (htype : p.columnType column = some type) (x : Literal) :
    p.Assigned column cell x ↔ cell.Denoted (isNumericType type = true) x := by
  have hnumeric : (∃ type', p.columnType column = some type' ∧ isNumericType type' = true) ↔
      isNumericType type = true := by
    rw [htype]
    exact ⟨fun ⟨type', heq, h⟩ => Option.some.inj heq ▸ h, fun h => ⟨type, rfl, h⟩⟩
  unfold Assigned
  rw [hnumeric]

/-- The literal of a column by its type. -/
theorem literal_cases {number : Bytes} {text : Option Bytes} {goodNumber goodText : Prop}
    (h : ((p.columnType column).bind fun type => if matchesInt true type then some number else text) =
      some s)
    (hnumber : ∀ numeric, Settles Ends literal number (cell.Denoted numeric) (numeric ∧ goodNumber))
    (htext : ∀ numeric, text = some s → Settles Ends literal s (cell.Denoted numeric) goodText) :
    Settles Ends literal s (p.Assigned column cell)
      (∃ type, p.columnType column = some type ∧
        if matchesInt true type = true then isNumericType type = true ∧ goodNumber else goodText) := by
  obtain ⟨type, htype, hlit⟩ := Option.bind_eq_some_iff.mp h
  have hassigned : p.Assigned column cell = cell.Denoted (isNumericType type = true) :=
    funext fun x => propext (assigned_iff htype x)
  rw [hassigned, htype]
  by_cases hmatches : matchesInt true type = true
  · rw [if_pos hmatches] at hlit
    obtain rfl := Option.some.inj hlit
    have hgood : (∃ type', some type = some type' ∧ if matchesInt true type' = true then
        isNumericType type' = true ∧ goodNumber else goodText) ↔
          isNumericType type = true ∧ goodNumber := by
      simp [hmatches]
    rw [hgood]
    exact hnumber _
  · rw [if_neg hmatches] at hlit
    have hgood : (∃ type', some type = some type' ∧ if matchesInt true type' = true then
        isNumericType type' = true ∧ goodNumber else goodText) ↔ goodText := by
      simp [hmatches]
    rw [hgood]
    exact htext _ hlit

theorem insertLiteral_settles (h : p.insertLiteral (some column) cell = some s) :
    Settles Ends literal s (p.Assigned column cell) (p.InsertsRight column cell) :=
  literal_cases h (cell.insertNumber_settles) fun _ => Cell.quoted_settles

theorem setLiteral_settles (h : p.setLiteral column (some cell) = some s) :
    Settles Ends literal s (p.Assigned column cell) (p.SetsRight column cell) :=
  literal_cases h (cell.setNumber_settles) fun _ => Cell.quoted_settles

theorem isSome_of_right {number : Bytes} {cell : Cell} {goodNumber : Prop}
    (h : ∃ type, p.columnType column = some type ∧ if matchesInt true type = true then
      isNumericType type = true ∧ goodNumber else ∃ s, cell = .text s ∧ isTame s = true) :
    ((p.columnType column).bind fun type =>
      if matchesInt true type then some number else quoted (some cell)).isSome = true := by
  obtain ⟨type, htype, hright⟩ := h
  rw [htype, Option.bind_some]
  by_cases hmatches : matchesInt true type = true
  · rw [if_pos hmatches]
    rfl
  · rw [if_neg hmatches] at hright ⊢
    obtain ⟨s, rfl, -⟩ := hright
    rfl

/-! ## Statements -/

/-- The cells by their columns. -/
theorem map_zipIdx_cells (row : FilledRow p.columns.length) :
    (row.cells.zipIdx.map fun x => (p.columns[x.2]?, x.1)) =
      (p.columns.zip row.cells).map fun x => (some x.1, x.2) := by
  have hlength := row.length
  refine List.ext_getElem (by simp [hlength]) fun k hk hk' => ?_
  have hlt : k < p.columns.length := by
    simp only [List.length_map, List.length_zipIdx] at hk
    omega
  simp [hlt]

theorem map_zipIdx_columns (row : FilledRow p.columns.length) :
    (p.columns.zipIdx.map fun x => (x.1, ScriptObject.get row.object x.2)) =
      (p.columns.zip row.cells).map fun x => (x.1, some x.2) := by
  have hlength := row.length
  refine List.ext_getElem (by simp [hlength]) fun k hk hk' => ?_
  have hlt : k < p.columns.length := by
    simpa using hk
  have hcell : k < row.cells.length := by omega
  simp [row.get_object hlt, hcell]

def cellLiteral (p : RowParams) (x : Bytes × Cell) : Bytes := (p.insertLiteral (some x.1) x.2).getD []

def rowText (p : RowParams) (row : FilledRow p.columns.length) : Bytes :=
  40 :: (sepText [32] p.cellLiteral (p.columns.zip row.cells) ++ [41])

theorem insertValues_object (row : FilledRow p.columns.length) : p.insertValues row.object =
    ((p.columns.zip row.cells).mapM fun x => p.insertLiteral (some x.1) x.2).map fun literals =>
      ascii "(" ++ commaText id literals ++ ascii ")" := by
  have hmap : (row.cells.zipIdx.mapM fun x => p.insertLiteral p.columns[x.2]? x.1) =
      (p.columns.zip row.cells).mapM fun x => p.insertLiteral (some x.1) x.2 := by
    have hleft := List.mapM_map (f := fun x : Cell × Nat => (p.columns[x.2]?, x.1))
      (g := fun y : Option Bytes × Cell => p.insertLiteral y.1 y.2) (l := row.cells.zipIdx)
    have hright := List.mapM_map (f := fun x : Bytes × Cell => (some x.1, x.2))
      (g := fun y : Option Bytes × Cell => p.insertLiteral y.1 y.2) (l := p.columns.zip row.cells)
    rw [map_zipIdx_cells, hright] at hleft
    exact hleft.symm
  unfold insertValues
  rw [row.filteredRow_object, hmap]

theorem insertValues_eq_some {text : Bytes} (row : FilledRow p.columns.length) :
    p.insertValues row.object = some text ↔
      (∀ x ∈ p.columns.zip row.cells, (p.insertLiteral (some x.1) x.2).isSome = true) ∧
        text = p.rowText row := by
  have htext : ascii "(" ++ commaText id ((p.columns.zip row.cells).map p.cellLiteral) ++ ascii ")" =
      p.rowText row := by
    unfold rowText commaText sepText
    rw [List.map_map]
    rfl
  rw [insertValues_object, Option.map_eq_some_iff]
  constructor
  · rintro ⟨literals, hliterals, rfl⟩
    obtain ⟨hall, rfl⟩ := (mapM_eq_some []).mp hliterals
    exact ⟨hall, htext⟩
  · rintro ⟨hall, rfl⟩
    exact ⟨_, (mapM_eq_some []).mpr ⟨hall, rfl⟩, htext⟩

/-- The text of an INSERT. -/
theorem insertRow_text (rows : List (FilledRow p.columns.length)) :
    ascii "INSERT INTO `" ++ p.database ++ ascii "`.`" ++ p.tableName ++ ascii "` (" ++
      commaText backquoted p.columns ++ ascii ") VALUES " ++
        (ascii ",\n").intercalate (rows.map p.rowText) ++ ascii ";" =
      insertRowsText p.database p.tableName p.columns p.rowText rows ++ [59] := by
  have hinsert : ascii "INSERT INTO `" = ascii "INSERT" ++ [32] ++ (ascii "INTO" ++ [32] ++ [backtick]) := rfl
  have hdot : ascii "`.`" = backtick :: 46 :: [backtick] := rfl
  have hopen : ascii "` (" = backtick :: 32 :: [40] := rfl
  have hvalues : ascii ") VALUES " = 41 :: 32 :: (ascii "VALUES" ++ [32]) := rfl
  have hcolumns : commaText backquoted p.columns = sepText [32] ticked p.columns := rfl
  have hrows : (ascii ",\n").intercalate (rows.map p.rowText) = sepText [10] p.rowText rows := rfl
  have hend : ascii ";" = [59] := rfl
  rw [hinsert, hdot, hopen, hvalues, hcolumns, hrows, hend]
  simp [insertRowsText, qualifiedText, ticked]

theorem insertRow_eq_some {text : Bytes} {rows : List (FilledRow p.columns.length)}
    (hkey : ∃ key, p.primaryKeyColumn = some key) :
    p.insertRow (rows.map FilledRow.object) = some text ↔
      (∀ row ∈ rows, ∀ x ∈ p.columns.zip row.cells,
        (p.insertLiteral (some x.1) x.2).isSome = true) ∧
        text = insertRowsText p.database p.tableName p.columns p.rowText rows ++ [59] := by
  obtain ⟨key, hkey⟩ := hkey
  have hsome (row : FilledRow p.columns.length) : (p.insertValues row.object).isSome = true ↔
      ∀ x ∈ p.columns.zip row.cells, (p.insertLiteral (some x.1) x.2).isSome = true := by
    rw [Option.isSome_iff_exists]
    constructor
    · rintro ⟨text, htext⟩
      exact ((insertValues_eq_some row).mp htext).1
    · exact fun hall => ⟨_, (insertValues_eq_some row).mpr ⟨hall, rfl⟩⟩
  have hrows (hall : ∀ row ∈ rows, (p.insertValues row.object).isSome = true) :
      (rows.map fun row => (p.insertValues row.object).getD []) = rows.map p.rowText := by
    refine List.map_congr_left fun row hrow => ?_
    rw [(insertValues_eq_some row).mpr ⟨(hsome row).mp (hall row hrow), rfl⟩]
    rfl
  unfold insertRow
  rw [hkey]
  dsimp only
  rw [List.mapM_map, Option.map_eq_some_iff, ← insertRow_text]
  constructor
  · rintro ⟨texts, htexts, rfl⟩
    obtain ⟨hall, rfl⟩ := (mapM_eq_some []).mp htexts
    rw [Function.comp_def] at hall ⊢
    rw [hrows hall]
    exact ⟨fun row hrow => (hsome row).mp (hall row hrow), rfl⟩
  · rintro ⟨hall, rfl⟩
    have hall' : ∀ row ∈ rows, (p.insertValues row.object).isSome = true :=
      fun row hrow => (hsome row).mpr (hall row hrow)
    exact ⟨_, (mapM_eq_some []).mpr ⟨hall', (hrows hall').symm⟩, rfl⟩

def assignmentText (p : RowParams) (x : Bytes × Cell) : Bytes :=
  x.1 ++ (ascii " = " ++ (p.setLiteral x.1 (some x.2)).getD [])

theorem updateRow_eq_some {text : Bytes} {values : FilledRow p.columns.length} {oldRow : GridRow}
    {key : TableColumn} (hkey : p.primaryKeyColumn = some key) :
    p.updateRow values.object oldRow = some text ↔
      (∀ x ∈ p.columns.zip values.cells, (p.setLiteral x.1 (some x.2)).isSome = true) ∧
        text = updateSetText p.database p.tableName p.assignmentText (p.columns.zip values.cells) ++
          (ascii " WHERE " ++ (p.updateWhere key oldRow ++ [59])) := by
  have hmap : (p.columns.zipIdx.mapM fun x => (p.setLiteral x.1 (ScriptObject.get values.object x.2)).map
        fun cell => x.1 ++ ascii " = " ++ cell) =
      (p.columns.zip values.cells).mapM fun x => (p.setLiteral x.1 (some x.2)).map
        fun cell => x.1 ++ ascii " = " ++ cell := by
    have hleft := List.mapM_map
      (f := fun x : Bytes × Nat => (x.1, ScriptObject.get values.object x.2))
      (g := fun y : Bytes × Option Cell => (p.setLiteral y.1 y.2).map
        fun cell => y.1 ++ ascii " = " ++ cell) (l := p.columns.zipIdx)
    have hright := List.mapM_map (f := fun x : Bytes × Cell => (x.1, some x.2))
      (g := fun y : Bytes × Option Cell => (p.setLiteral y.1 y.2).map
        fun cell => y.1 ++ ascii " = " ++ cell) (l := p.columns.zip values.cells)
    rw [map_zipIdx_columns, hright] at hleft
    exact hleft.symm
  have hsome (x : Bytes × Cell) : ((p.setLiteral x.1 (some x.2)).map
      fun cell => x.1 ++ ascii " = " ++ cell).isSome = (p.setLiteral x.1 (some x.2)).isSome :=
    Option.isSome_map
  have hsets (hall : ∀ x ∈ p.columns.zip values.cells, (p.setLiteral x.1 (some x.2)).isSome = true) :
      ((p.columns.zip values.cells).map fun x => ((p.setLiteral x.1 (some x.2)).map
        fun cell => x.1 ++ ascii " = " ++ cell).getD []) =
          (p.columns.zip values.cells).map p.assignmentText := by
    refine List.map_congr_left fun x hx => ?_
    obtain ⟨s, hs⟩ := Option.isSome_iff_exists.mp (hall x hx)
    unfold assignmentText
    rw [hs, Option.map_some, Option.getD_some, Option.getD_some, List.append_assoc]
  have htext : ascii "UPDATE `" ++ p.database ++ ascii "`.`" ++ p.tableName ++ ascii "` SET " ++
      commaText id ((p.columns.zip values.cells).map p.assignmentText) ++ ascii " WHERE " ++
        p.updateWhere key oldRow ++ ascii ";" =
      updateSetText p.database p.tableName p.assignmentText (p.columns.zip values.cells) ++
        (ascii " WHERE " ++ (p.updateWhere key oldRow ++ [59])) := by
    have hupdate : ascii "UPDATE `" = ascii "UPDATE" ++ [32] ++ [backtick] := rfl
    have hdot : ascii "`.`" = backtick :: 46 :: [backtick] := rfl
    have hset : ascii "` SET " = backtick :: 32 :: (ascii "SET" ++ [32]) := rfl
    have hend : ascii ";" = [59] := rfl
    rw [hupdate, hdot, hset, hend]
    simp [updateSetText, qualifiedText, ticked, commaText, sepText]
  unfold updateRow
  rw [hkey]
  dsimp only
  rw [hmap, Option.map_eq_some_iff, ← htext]
  constructor
  · rintro ⟨texts, htexts, rfl⟩
    obtain ⟨hall, rfl⟩ := (mapM_eq_some []).mp htexts
    simp only [hsome] at hall
    rw [hsets hall]
    exact ⟨hall, rfl⟩
  · rintro ⟨hall, rfl⟩
    refine ⟨_, (mapM_eq_some []).mpr ⟨fun x hx => ?_, (hsets hall).symm⟩, rfl⟩
    rw [hsome]
    exact hall x hx

/-! ## What is assigned -/

theorem rowText_settles {row : FilledRow p.columns.length}
    (hall : ∀ x ∈ p.columns.zip row.cells, (p.insertLiteral (some x.1) x.2).isSome = true) :
    Settles (fun _ => True) (parenthesized literal) (p.rowText row)
      (List.Forall₂ (fun x y => p.Assigned x.1 x.2 y) (p.columns.zip row.cells))
      (∀ x ∈ p.columns.zip row.cells, p.InsertsRight x.1 x.2) := by
  refine parenthesized_settles ends_comma (fun x hx => ?_) literal_close ends_close literal_space
  obtain ⟨s, hs⟩ := Option.isSome_iff_exists.mp (hall x hx)
  have hread := insertLiteral_settles hs
  unfold cellLiteral
  rw [hs]
  exact hread

/-- **When an INSERT assigns what was entered.** -/
theorem insertAssigns_iff (reserved : Bytes → Bool) (p : RowParams)
    (rows : List (FilledRow p.columns.length)) : p.InsertAssigns reserved rows ↔ p.InsertsAll rows := by
  constructor
  · rintro ⟨text, i, htext, hparse, hread⟩
    have hkey : ∃ key, p.primaryKeyColumn = some key := by
      cases hnone : p.primaryKeyColumn with
      | some key => exact ⟨key, rfl⟩
      | none =>
        unfold insertRow at htext
        rw [hnone] at htext
        obtain rfl := Option.some.inj htext
        cases hparse
    obtain ⟨hall, rfl⟩ := (insertRow_eq_some hkey).mp htext
    obtain ⟨⟨hdatabase, htable⟩, hcolumns, hne, hcells⟩ :=
      (parseInsertRows_iff reserved p.database p.tableName p.columns
        fun row hrow => rowText_settles (hall row hrow)).mp ⟨i, hparse, hread⟩
    exact ⟨⟨hkey, hdatabase, htable⟩, hcolumns, hne, hcells⟩
  · rintro ⟨⟨hkey, hdatabase, htable⟩, hcolumns, hne, hcells⟩
    have hall : ∀ row ∈ rows, ∀ x ∈ p.columns.zip row.cells,
        (p.insertLiteral (some x.1) x.2).isSome = true :=
      fun row hrow x hx => isSome_of_right (hcells row hrow x hx)
    obtain ⟨i, hparse, hread⟩ := (parseInsertRows_iff reserved p.database p.tableName p.columns
      fun row hrow => rowText_settles (hall row hrow)).mpr ⟨⟨hdatabase, htable⟩, hcolumns, hne, hcells⟩
    exact ⟨_, i, (insertRow_eq_some hkey).mpr ⟨hall, rfl⟩, hparse, hread⟩

theorem assignmentText_settles (reserved : Bytes → Bool) {x : Bytes × Cell}
    (hx : (p.setLiteral x.1 (some x.2)).isSome = true) :
    Settles Ends (assignment reserved) (p.assignmentText x) (fun y => y.1 = x.1 ∧ p.Assigned x.1 x.2 y.2)
      (IsWord reserved x.1 ∧ p.SetsRight x.1 x.2) := by
  obtain ⟨s, hs⟩ := Option.isSome_iff_exists.mp hx
  have hread := assignment_settles (setLiteral_settles hs) reserved x.1
  unfold assignmentText
  rw [hs]
  exact hread

/-- **When an UPDATE assigns what was entered.** -/
theorem updateAssigns_iff (reserved : Bytes → Bool) (p : RowParams) (values : FilledRow p.columns.length)
    (oldRow : GridRow) : p.UpdateAssigns reserved values oldRow ↔ p.SetsAll reserved values := by
  have hlength := values.length
  have hfirst : (p.columns.zip values.cells).map Prod.fst = p.columns :=
    List.map_fst_zip (le_of_eq hlength.symm)
  have hnil : p.columns.zip values.cells ≠ [] ↔ p.columns ≠ [] := by
    conv_rhs => rw [← hfirst]
    exact not_congr List.map_eq_nil_iff.symm
  have hnames : (∀ x ∈ p.columns.zip values.cells, IsWord reserved x.1 ∧ p.SetsRight x.1 x.2) ↔
      (∀ column ∈ p.columns, IsWord reserved column) ∧
        ∀ x ∈ p.columns.zip values.cells, p.SetsRight x.1 x.2 := by
    have hcolumns : (∀ column ∈ p.columns, IsWord reserved column) ↔
        ∀ x ∈ p.columns.zip values.cells, IsWord reserved x.1 := by
      conv_lhs => rw [← hfirst]
      exact List.forall_mem_map
    rw [hcolumns]
    exact ⟨fun h => ⟨fun x hx => (h x hx).1, fun x hx => (h x hx).2⟩, fun h x hx => ⟨h.1 x hx, h.2 x hx⟩⟩
  constructor
  · rintro ⟨text, i, htext, hparse, hread⟩
    cases hkey : p.primaryKeyColumn with
    | none =>
      unfold updateRow at htext
      rw [hkey] at htext
      obtain rfl := Option.some.inj htext
      cases hparse
    | some key =>
      obtain ⟨hall, rfl⟩ := (updateRow_eq_some hkey).mp htext
      obtain ⟨⟨hdatabase, htable⟩, hne, hsets⟩ := (parseUpdateSet_iff reserved p.database p.tableName
        (fun x hx => assignmentText_settles reserved (hall x hx)) _).mp ⟨i, hparse, hread⟩
      obtain ⟨hcolumns, hcells⟩ := hnames.mp hsets
      exact ⟨⟨⟨key, hkey⟩, hdatabase, htable⟩, hcolumns, hnil.mp hne, hcells⟩
  · rintro ⟨⟨⟨key, hkey⟩, hdatabase, htable⟩, hcolumns, hne, hcells⟩
    have hall : ∀ x ∈ p.columns.zip values.cells, (p.setLiteral x.1 (some x.2)).isSome = true :=
      fun x hx => isSome_of_right (hcells x hx)
    obtain ⟨i, hparse, hread⟩ := (parseUpdateSet_iff reserved p.database p.tableName
      (fun x hx => assignmentText_settles reserved (hall x hx)) (p.updateWhere key oldRow ++ [59])).mpr
        ⟨⟨hdatabase, htable⟩, hnil.mpr hne, hnames.mpr ⟨hcolumns, hcells⟩⟩
    exact ⟨_, i, (updateRow_eq_some hkey).mpr ⟨hall, rfl⟩, hparse, hread⟩

/-- **Row literals.** -/
theorem assigns_iff (reserved : Bytes → Bool) (p : RowParams) (rows : List (FilledRow p.columns.length))
    (values : FilledRow p.columns.length) (oldRow : GridRow) :
    (p.InsertAssigns reserved rows ↔ p.InsertsAll rows) ∧
      (p.UpdateAssigns reserved values oldRow ↔ p.SetsAll reserved values) :=
  ⟨insertAssigns_iff reserved p rows, updateAssigns_iff reserved p values oldRow⟩

end RowParams

/-! ## A path -/

def namesParams : RowParams where
  database := ascii "app"
  tableName := ascii "users"
  tableStruct := [⟨ascii "name", ascii "varchar(20)", ascii "PRI"⟩]
  columns := [ascii "name"]

def pathRow : FilledRow 1 where
  object := [("0", .text (ascii "C:\\temp"))]
  cells := [.text (ascii "C:\\temp")]
  rowIndex := none
  length := rfl
  short := by decide
  perm := .refl _

/-- The backslash of a path escapes the letter after it. -/
theorem not_assigns_path : ¬ (namesParams.InsertAssigns (fun _ => false) [pathRow] ∨
    namesParams.UpdateAssigns (fun _ => false) pathRow pathRow.object) := by
  have hmem : (ascii "name", Cell.text (ascii "C:\\temp")) ∈ namesParams.columns.zip pathRow.cells :=
    List.mem_cons_self
  have hmatches : matchesInt true (ascii "varchar(20)") = false := by decide +kernel
  have hcolumn : namesParams.columnType (ascii "name") = some (ascii "varchar(20)") := by decide +kernel
  have hpath : isTame (ascii "C:\\temp") = false := by decide +kernel
  have hright {goodNumber : Prop} : ¬ ∃ type, namesParams.columnType (ascii "name") = some type ∧
      if matchesInt true type = true then isNumericType type = true ∧ goodNumber
      else ∃ s, Cell.text (ascii "C:\\temp") = .text s ∧ isTame s = true := by
    rintro ⟨type, htype, hgood⟩
    rw [hcolumn] at htype
    rw [← Option.some.inj htype, hmatches, if_neg Bool.false_ne_true] at hgood
    obtain ⟨s, hs, htame⟩ := hgood
    rw [← Cell.text.inj hs, hpath] at htame
    exact Bool.false_ne_true htame
  rintro (h | h)
  · exact hright (((RowParams.insertAssigns_iff _ _ _).mp h).cells pathRow List.mem_cons_self _ hmem)
  · exact hright (((RowParams.updateAssigns_iff _ _ _ _).mp h).cells _ hmem)

end NextDBM
