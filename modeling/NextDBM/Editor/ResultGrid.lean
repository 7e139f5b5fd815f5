import NextDBM.Library.ScriptObject
import NextDBM.Library.Tables
import NextDBM.Library.Utf8

/-!
# Result grids

`RowsToJSONArray` sends every row of a result as a JSON object with the names of the columns as keys;
`getTableRsesultFormat` of the editor makes a grid of the objects, and `deleteRow`, `insertRow` and
`updateRow` look into the objects of a DESCRIBE by position. The driver gives byte slices and `nil`.
-/

namespace NextDBM

open Relational ScriptObject

/-- What the driver gives for a query: the names of the columns, and the rows that `Scan` fills. -/
structure ResultSet where
  columns : List String
  rows : List (List (Option ByteArray))
  scanned : ∀ row ∈ rows, row.length = columns.length

/-! ## The server -/

/-- A `map[string]interface{}` with texts and `nil` as values. -/
abbrev RowMap : Type := Table (String × Option ByteArray) Prod.fst

/-- Every assignment takes the place of an earlier one to the same key. -/
def rowMap (columns : List String) (values : List (Option ByteArray)) : RowMap :=
  (columns.zip values).foldl Table.put ∅

def headerRow (columns : List String) : RowMap :=
  rowMap columns (columns.map fun col => some col.toByteArray)

def rowsToJSONArray (rs : ResultSet) : List RowMap :=
  headerRow rs.columns :: rs.rows.map (rowMap rs.columns)

/-- `json.Marshal` of a map: the keys ascend, and a text that is not UTF-8 is repaired. -/
def marshalMap (m : RowMap) : List (String × Option String) :=
  m.sorted.map fun (key, value) => (key, value.map Utf8.decode)

/-- The data as the browser parses it; it makes the properties in the order of the text. -/
def receivedData (rs : ResultSet) : List (List (String × Option String)) :=
  (rowsToJSONArray rs).map marshalMap

/-! ## The browser -/

structure Grid where
  tableHeaders : List (Option String)
  tableRows : List (List (Option String))

/-- The inner loops of `getTableRsesultFormat`. -/
def rowValues (row : List (String × Option String)) : List (Option String) :=
  (forIn row).map Prod.snd

def getTableRsesultFormat : List (List (String × Option String)) → Grid
  | [] => ⟨[], []⟩
  | row :: rows => ⟨rowValues row, rows.map rowValues⟩

/-- `tab.tableStruct.slice(1)` -/
def tableStruct (rs : ResultSet) : List (List (String × Option String)) := (receivedData rs).drop 1

/-- The search of `deleteRow`, `insertRow` and `updateRow`, which stop when it fails. -/
def primaryKeyColumn (struct : List (List (String × Option String))) :
    Option (List (String × Option String)) :=
  struct.find? fun item => get item 3 == some (some "PRI")

/-! ## What is expected -/

namespace ResultSet

/-- The grid of the browser is the result: the columns in their order, and every cell in its place. -/
structure SameGrid (rs : ResultSet) : Prop where
  headers : (getTableRsesultFormat (receivedData rs)).tableHeaders = rs.columns.map some
  rows : (getTableRsesultFormat (receivedData rs)).tableRows.map
    (·.map (Option.map String.toByteArray)) = rs.rows

/-- The columns come in the order in which the browser meets them as keys; none comes twice. -/
def InOrder (rs : ResultSet) : Prop := rs.columns.Pairwise Before

instance (rs : ResultSet) : Decidable rs.InOrder :=
  inferInstanceAs (Decidable (rs.columns.Pairwise Before))

/-- The cells are UTF-8. -/
def IsText (rs : ResultSet) : Prop := ∀ row ∈ rs.rows, ∀ cell ∈ row, ∀ b ∈ cell, b.IsValidUTF8

end ResultSet

def describeColumns : List String := ["Field", "Type", "Null", "Key", "Default", "Extra"]

/-- The result of a DESCRIBE. -/
structure Description extends ResultSet where
  described : columns = describeColumns

namespace Description

/-- The name, the type and the key of a column stand at their positions in its item. -/
def AtPositions (item : List (String × Option String)) (row : List (Option ByteArray)) : Prop :=
  ∀ i ∈ [0, 1, 3], (get item i).map (Option.map String.toByteArray) = row[i]?

/-- The table structure has the positions that the editor reads. -/
def Positional (d : Description) : Prop :=
  List.Forall₂ AtPositions (tableStruct d.toResultSet) d.rows

end Description

end NextDBM
