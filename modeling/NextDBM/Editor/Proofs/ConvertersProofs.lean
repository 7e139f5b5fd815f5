import NextDBM.Editor.Converters
import NextDBM.Editor.ResultGrid

/-!
# Proofs: reading the rows of a query

A loop over the rows fails at a row that cannot be scanned, or returns. Three of the functions then ask
for the error of the iteration; the other two return what they have, so for them only a row that cannot
be scanned makes a difference.
-/

namespace NextDBM

open Relational MySqlText Calls

namespace Rows

variable {rows : Rows} {err : String} {parentKey menuType key : String} {attr : DBSession.Value}
  {tableName : Bytes} {columns : List Bytes} {values : List SqlValue}

/-! ## The functions that ask for the error -/

theorem failed_checkErr {α : Type} {context : String} {result : α} (h : rows.err = some err) :
    (rows.checkErr context result).Failed := by
  rw [checkErr, h]
  exact ⟨context ++ err, rfl⟩

/-- A loop that scans each row, before the error is asked for. -/
theorem failed_scanned {α σ : Type} {context context' : String} {scan : Row → Except String α}
    {add : σ → α → σ} (s : σ) (h : rows.err = some err) :
    Outcome.Failed ((rows.rows.foldlM (fun s row => do
      let a ← Outcome.orError context (scan row)
      pure (add s a)) s) >>= fun s => rows.checkErr context' s) := by
  have hbad (s : σ) (row : Row) (hrow : ∃ err, scan row = .error err) :
      Outcome.Failed (Outcome.orError context (scan row) >>= fun a => pure (add s a)) :=
    Outcome.failed_bind.mpr (.inl (Outcome.failed_orError.mpr hrow))
  have hgood (s : σ) (row : Row) (hrow : ¬ ∃ err, scan row = .error err) :
      ∃ s', (Outcome.orError context (scan row) >>= fun a => pure (add s a)) = .returned s' := by
    cases hscan : scan row with
    | ok a => exact ⟨add s a, rfl⟩
    | error err => exact absurd ⟨err, hscan⟩ hrow
  rw [Outcome.failed_bind]
  rcases Outcome.foldlM_cases hbad hgood rows.rows s with ⟨hfailed, -⟩ | ⟨⟨s', hs'⟩, -⟩
  · exact .inl hfailed
  · exact .inr ⟨s', hs', failed_checkErr h⟩

theorem failed_rowsToKeyValueJson (h : rows.err = some err) : rows.rowsToKeyValueJson.Failed :=
  failed_scanned ∅ h

theorem failed_rowsToJSONArray (h : rows.err = some err) : rows.rowsToJSONArray.Failed := by
  rw [rowsToJSONArray]
  cases rows.columns with
  | ok columns => exact failed_scanned _ h
  | error e => exact ⟨_, rfl⟩

theorem failed_rowsToTablesArray (h : rows.err = some err) : rows.rowsToTablesArray.Failed :=
  failed_scanned [] h

/-! ## The functions that do not -/

theorem mapM_values_error (xs : List Row) :
    (∃ err, (xs.map Row.values).mapM id = .error err) ↔ ∃ row ∈ xs, row.Unscannable := by
  induction xs with
  | nil =>
    constructor
    · rintro ⟨err, h⟩
      cases h
    · rintro ⟨row, hrow, -⟩
      exact absurd hrow List.not_mem_nil
  | cons row xs ih =>
    rw [List.map_cons, List.mapM_cons, List.exists_mem_cons_iff, ← ih]
    cases hvalues : row.values with
    | error e => exact ⟨fun _ => .inl ⟨e, hvalues⟩, fun _ => ⟨e, rfl⟩⟩
    | ok values =>
      have hscanned : ¬ row.Unscannable := by
        rintro ⟨e, he⟩
        rw [hvalues] at he
        cases he
      rw [or_iff_right hscanned]
      show (∃ err, ((xs.map Row.values).mapM id >>= fun rest => _) = .error err) ↔ _
      cases (xs.map Row.values).mapM id with
      | error e => exact ⟨fun _ => ⟨e, rfl⟩, fun _ => ⟨e, rfl⟩⟩
      | ok rest =>
        constructor
        · rintro ⟨e, he⟩
          cases he
        · rintro ⟨e, he⟩
          cases he

theorem failed_rowsToInsertStatements :
    (rows.rowsToInsertStatements tableName).Failed ↔
      (∃ err, rows.columns = .error err) ∨ ∃ row ∈ rows.rows, row.Unscannable := by
  rw [rowsToInsertStatements, Outcome.failed_orError, ← mapM_values_error]
  unfold NextDBM.rowsToInsertStatements
  cases rows.columns with
  | error e => exact ⟨fun _ => .inl ⟨e, rfl⟩, fun _ => ⟨_, rfl⟩⟩
  | ok columns =>
    have hcolumns : ¬ ∃ err, (Except.ok columns : Except String (List Bytes)) = .error err := by
      rintro ⟨e, he⟩
      cases he
    rw [or_iff_right hcolumns]
    dsimp only
    cases (rows.rows.map Row.values).mapM id with
    | error e => exact ⟨fun _ => ⟨e, rfl⟩, fun _ => ⟨_, rfl⟩⟩
    | ok statements =>
      constructor
      · rintro ⟨e, he⟩
        cases he
      · rintro ⟨e, he⟩
        cases he

/-- A row with the columns that a menu looks at becomes an item. -/
theorem menuItem_returned (h : columnsRead menuType ≤ columns.length) :
    ∃ item, menuItem columns values key menuType attr = .returned item := by
  rw [columnsRead] at h
  cases columns with
  | nil =>
    rw [List.length_nil] at h
    split at h
    · cases h
    · cases h
  | cons column others =>
    simp only [menuItem]
    split
    · exact ⟨_, rfl⟩
    · exact ⟨_, rfl⟩
    · exact ⟨_, rfl⟩
    · cases others with
      | nil => exact absurd h (by simp)
      | cons name rest => exact ⟨_, rfl⟩
    · cases others with
      | nil => exact absurd h (by simp)
      | cons name rest => exact ⟨_, rfl⟩
    · exact ⟨_, rfl⟩
    · exact ⟨_, rfl⟩
    · exact ⟨_, rfl⟩
    · exact ⟨_, rfl⟩
    · exact ⟨_, rfl⟩

/-- Without them it panics. -/
theorem menuItem_panicked (h : ¬ columnsRead menuType ≤ columns.length) :
    menuItem columns values key menuType attr = .panicked := by
  rw [columnsRead] at h
  match columns with
  | [] => rfl
  | [column] =>
    split at h
    · next hmenu =>
      rcases hmenu with rfl | rfl
      · rfl
      · rfl
    · exact absurd (Nat.le_refl 1) h
  | _ :: _ :: rest =>
    rw [List.length_cons, List.length_cons] at h
    split at h
    · omega
    · omega

/-- A round of the loop of `RowsToMenuJson`. -/
def menuRound (columns : List Bytes) (parentKey menuType : String) (attr : DBSession.Value)
    (result : List MenuItem) (row : Row) : Outcome (List MenuItem) := do
  let values ← Outcome.orError "Scan失败: " row.values
  let item ← menuItem columns values (parentKey ++ "-" ++ toString result.length) menuType attr
  pure (result ++ [item])

theorem failed_menuRound {row : Row} (result : List MenuItem) (hrow : row.Unscannable) :
    (menuRound columns parentKey menuType attr result row).Failed :=
  Outcome.failed_bind.mpr (.inl (Outcome.failed_orError.mpr hrow))

theorem menuRound_returned {row : Row} (hread : columnsRead menuType ≤ columns.length)
    (result : List MenuItem) (hrow : ¬ row.Unscannable) :
    ∃ result', menuRound columns parentKey menuType attr result row = .returned result' := by
  unfold menuRound
  cases hscan : row.values with
  | error err => exact absurd ⟨err, hscan⟩ hrow
  | ok values =>
    obtain ⟨item, hitem⟩ := @menuItem_returned menuType
      (parentKey ++ "-" ++ toString result.length) attr columns values hread
    refine ⟨result ++ [item], ?_⟩
    show (menuItem columns values _ menuType attr >>= fun item => pure (result ++ [item])) = _
    rw [hitem]
    rfl

/-- With the columns of the menu, the loop fails on any row that cannot be scanned. -/
theorem failed_menuLoop (hread : columnsRead menuType ≤ columns.length) (xs : List Row) :
    (xs.foldlM (menuRound columns parentKey menuType attr) []).Failed ↔
      ∃ row ∈ xs, row.Unscannable := by
  rcases Outcome.foldlM_cases (fun result row => @failed_menuRound parentKey menuType attr columns row result)
    (fun result row => menuRound_returned hread result) xs [] with ⟨hfailed, hrow⟩ | ⟨⟨s', hs'⟩, hrow⟩
  · exact ⟨fun _ => hrow, fun _ => hfailed⟩
  · constructor
    · intro h
      rw [hs'] at h
      exact absurd h Outcome.not_failed_returned
    · rintro ⟨row, hmem, hbad⟩
      exact absurd hbad (hrow row hmem)

/-- Without them, the first row fails or panics. -/
theorem failed_menuLoop_short (hread : ¬ columnsRead menuType ≤ columns.length) (xs : List Row) :
    (xs.foldlM (menuRound columns parentKey menuType attr) []).Failed ↔
      ∃ row ∈ xs.head?, row.Unscannable := by
  cases xs with
  | nil =>
    constructor
    · exact fun h => absurd h Outcome.not_failed_returned
    · rintro ⟨row, hrow, -⟩
      cases hrow
  | cons row rest =>
    have hhead : (∃ row' ∈ (row :: rest).head?, row'.Unscannable) ↔ row.Unscannable := by
      simp
    rw [hhead, List.foldlM_cons]
    constructor
    · intro h
      cases hscan : row.values with
      | error err => exact ⟨err, hscan⟩
      | ok values =>
        rw [menuRound, hscan] at h
        change Outcome.Failed ((menuItem columns values _ menuType attr >>= fun item => _) >>= _) at h
        rw [menuItem_panicked hread] at h
        obtain ⟨text, h⟩ := h
        cases h
    · exact fun h => Outcome.failed_bind.mpr (.inl (failed_menuRound [] h))

theorem failed_rowsToMenuJson :
    (rows.rowsToMenuJson parentKey menuType attr).Failed ↔ Unreadable rows menuType := by
  have hround : rows.rowsToMenuJson parentKey menuType attr =
      (Outcome.orError "获取列名失败: " rows.columns >>= fun columns =>
        rows.rows.foldlM (menuRound columns parentKey menuType attr) []) := rfl
  rw [hround, Unreadable, Outcome.failed_bind, Outcome.failed_orError]
  refine or_congr_right ?_
  cases rows.columns with
  | error e =>
    constructor
    · rintro ⟨columns, h, -⟩
      cases h
    · rintro ⟨columns, h, -⟩
      cases h
  | ok columns =>
    have hloop : (rows.rows.foldlM (menuRound columns parentKey menuType attr) []).Failed ↔
        if columnsRead menuType ≤ columns.length then ∃ row ∈ rows.rows, row.Unscannable
        else ∃ row ∈ rows.rows.head?, row.Unscannable := by
      split
      · next hread => exact failed_menuLoop hread rows.rows
      · next hread => exact failed_menuLoop_short hread rows.rows
    constructor
    · rintro ⟨columns', h, hfailed⟩
      cases h
      exact ⟨columns, rfl, hloop.mp hfailed⟩
    · rintro ⟨columns', h, hbad⟩
      cases h
      exact ⟨columns, rfl, hloop.mpr hbad⟩

/-! ## The objects of a result grid -/

/-- A cell of the driver as a value. -/
def cellValue (cell : Option ByteArray) : SqlValue :=
  match cell with
  | some bytes => .bytes (bytes.data.toList.map UInt8.toNat)
  | none => .null

/-- An entry of an object, with its texts as bytes. -/
def entryBytes (e : String × Option ByteArray) : Bytes × SqlValue :=
  (utf8 e.1, jsonValue (cellValue e.2))

theorem utf8_injective {s t : String} (h : utf8 s = utf8 t) : s = t := by
  have hbytes : s.toUTF8.data.toList = t.toUTF8.data.toList :=
    List.map_injective_iff.mpr (fun a b hab => UInt8.toNat_inj.mp hab) h
  have harray : s.toUTF8 = t.toUTF8 := by
    have hdata := Array.toList_inj.mp hbytes
    exact ByteArray.ext hdata
  exact String.toByteArray_inj.mp harray

/-- An assignment to an object is one to its map. -/
theorem rows_put (m : RowMap) (m' : Table (Bytes × SqlValue) Prod.fst)
    (h : m'.rows = m.rows.map entryBytes) (e : String × Option ByteArray) :
    (m'.put (entryBytes e)).rows = (m.put e).rows.map entryBytes := by
  show entryBytes e :: m'.rows.filter _ = (e :: m.rows.filter _).map entryBytes
  rw [List.map_cons, h, List.filter_map]
  congr 2
  refine List.filter_congr fun b _ => ?_
  have hkey : (entryBytes b).1 = (entryBytes e).1 ↔ b.1 = e.1 := ⟨utf8_injective, congrArg utf8⟩
  show (!decide ((entryBytes b).1 = (entryBytes e).1)) = !decide (b.1 = e.1)
  rw [decide_eq_decide.mpr hkey]

theorem rows_foldl_put (entries : List (String × Option ByteArray)) (m : RowMap)
    (m' : Table (Bytes × SqlValue) Prod.fst) (h : m'.rows = m.rows.map entryBytes) :
    ((entries.map entryBytes).foldl Table.put m').rows =
      (entries.foldl Table.put m).rows.map entryBytes := by
  induction entries generalizing m m' with
  | nil => exact h
  | cons e entries ih => exact ih (m.put e) (m'.put (entryBytes e)) (rows_put m m' h e)

theorem rows_valueMap (columns : List String) (cells : List (Option ByteArray)) :
    (valueMap (columns.map utf8) ((cells.map cellValue).map jsonValue)).rows =
      (rowMap columns cells).rows.map entryBytes := by
  have hzip : (columns.map utf8).zip ((cells.map cellValue).map jsonValue) =
      (columns.zip cells).map entryBytes := by
    rw [List.map_map, List.zip_map]
    rfl
  rw [valueMap, hzip]
  exact rows_foldl_put _ ∅ ∅ rfl

/-- The loop over the rows of the driver collects the objects of their cells. -/
theorem foldlM_valueMap {columns : List String} {cells : List (List (Option ByteArray))}
    {xs : List Row}
    (h : List.Forall₂ (fun row cs => row.values = .ok (cs.map cellValue)) xs cells)
    (result : List (Table (Bytes × SqlValue) Prod.fst)) :
    ∃ added, xs.foldlM (fun result row => do
        let values ← Outcome.orError "Scan失败: " row.values
        pure (result ++ [valueMap (columns.map utf8) (values.map jsonValue)])) result =
        .returned (result ++ added) ∧
      added.map Table.rows = cells.map fun cs => (rowMap columns cs).rows.map entryBytes := by
  induction h generalizing result with
  | nil => exact ⟨[], by rw [List.append_nil]; rfl, rfl⟩
  | @cons row cs xs cells hrow _ ih =>
    obtain ⟨added, hadded, hmap⟩ := ih
      (result ++ [valueMap (columns.map utf8) ((cs.map cellValue).map jsonValue)])
    refine ⟨valueMap (columns.map utf8) ((cs.map cellValue).map jsonValue) :: added, ?_, ?_⟩
    · rw [List.append_assoc, List.singleton_append] at hadded
      rw [List.foldlM_cons, hrow]
      exact hadded
    · rw [List.map_cons, List.map_cons, rows_valueMap, hmap]

/-- Without an error the objects are those of the result grid. -/
theorem rowsToJSONArray_resultSet {rs : ResultSet} (hcolumns : rows.columns = .ok (rs.columns.map utf8))
    (hrows : List.Forall₂ (fun row cells => row.values = .ok (cells.map cellValue)) rows.rows rs.rows)
    (herr : rows.err = none) :
    ∃ result, rows.rowsToJSONArray = .returned result ∧
      result.map Table.rows = (NextDBM.rowsToJSONArray rs).map fun m => m.rows.map entryBytes := by
  have hheader : (rs.columns.map utf8).map SqlValue.text =
      ((rs.columns.map fun col => some col.toByteArray).map cellValue).map jsonValue := by
    rw [List.map_map, List.map_map, List.map_map]
    rfl
  obtain ⟨added, hadded, hmap⟩ := foldlM_valueMap hrows
    [valueMap (rs.columns.map utf8) ((rs.columns.map utf8).map SqlValue.text)]
  refine ⟨valueMap (rs.columns.map utf8) ((rs.columns.map utf8).map SqlValue.text) :: added, ?_, ?_⟩
  · rw [rowsToJSONArray, hcolumns]
    show ((rows.rows.foldlM _ _) >>= fun result => rows.checkErr _ result) = _
    rw [hadded]
    show rows.checkErr _ _ = _
    rw [checkErr, herr]
    rfl
  · rw [List.map_cons, hmap, hheader, rows_valueMap, NextDBM.rowsToJSONArray, List.map_cons,
      List.map_map]
    rfl

/-! ## The claim of all five -/

/-- **Errors of the iteration**: when the driver stops with an error, all five functions return one
exactly when the columns are not known or a row that was delivered cannot be scanned; without that
the menus and the statements are cut short. -/
theorem surfaces_iff (h : rows.err = some err) :
    Surfaces rows parentKey menuType attr tableName ↔ Unreadable rows menuType := by
  constructor
  · exact fun hall => failed_rowsToMenuJson.mp hall.menuJson
  · intro hunreadable
    refine ⟨failed_rowsToKeyValueJson h, failed_rowsToJSONArray h,
      failed_rowsToMenuJson.mpr hunreadable, failed_rowsToInsertStatements.mpr ?_,
      failed_rowsToTablesArray h⟩
    rcases hunreadable with hcolumns | ⟨columns, -, hrow⟩
    · exact .inl hcolumns
    · split at hrow
      · exact .inr hrow
      · obtain ⟨row, hhead, hbad⟩ := hrow
        exact .inr ⟨row, List.mem_of_mem_head? hhead, hbad⟩

/-- A page of a table of which the driver delivers one row before its connection is lost. -/
def lostConnection : Rows where
  columns := .ok [ascii "id"]
  rows := [{
    values := .ok [.bytes (ascii "1")]
    string := .ok (ascii "1")
    strings := .error "sql: expected 2 destination arguments in Scan, not 1" }]
  err := some "invalid connection"

/-- A row that cannot be scanned is seen by all. -/
def unscannedRow : Rows where
  columns := .ok [ascii "id"]
  rows := [{
    values := .error "sql: Rows are closed"
    string := .error "sql: Rows are closed"
    strings := .error "sql: Rows are closed" }]
  err := some "context canceled"

theorem surfaces_unscannedRow : Surfaces unscannedRow "0" "tablesMenu" .null (ascii "t") :=
  (surfaces_iff rfl).mpr (.inr ⟨_, rfl, _, List.mem_singleton.mpr rfl, _, rfl⟩)

/-- The statements of the row that was delivered are returned as those of the page. -/
theorem not_surfaces_lostConnection :
    ¬ ∀ (rows : Rows) (err parentKey menuType : String) (attr : DBSession.Value) (tableName : Bytes),
      rows.err = some err → Surfaces rows parentKey menuType attr tableName := by
  intro h
  have hall := h lostConnection "invalid connection" "0" "tablesMenu" .null (ascii "t") rfl
  obtain ⟨text, htext⟩ := hall.insertStatements
  cases htext

end Rows

end NextDBM
