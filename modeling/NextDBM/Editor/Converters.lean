import NextDBM.Editor.Messages
import NextDBM.Files.Export

/-!
# Reading the rows of a query

Five functions turn the rows of a query into what the editor sends or an export writes. Each asks the
driver for one row after the other; an error at which the driver stops is what `Err` returns after the
last row. A row is scanned into values of any type, or into one or two strings.
-/

namespace NextDBM

open Relational MySqlText Calls

/-- What `Scan` gives of a row: for a value of any type in each column, for one string and for two. -/
structure Row where
  values : Except String (List SqlValue)
  string : Except String Bytes
  strings : Except String (Bytes × Bytes)

/-- The row cannot be scanned into values. -/
def Row.Unscannable (row : Row) : Prop := ∃ err, row.values = .error err

/-- `*sql.Rows`: the columns, the rows that `Next` delivers, and what `Err` returns after them. -/
structure Rows where
  columns : Except String (List Bytes)
  rows : List Row
  err : Option String := none

namespace Rows

/-- `if err := rows.Err(); err != nil { return nil, … }`. -/
def checkErr {α : Type} (rows : Rows) (context : String) (result : α) : Outcome α :=
  match rows.err with
  | none => .returned result
  | some err => .failed (context ++ err)

/-- A map from the names of the columns; every assignment takes the place of an earlier one. -/
def valueMap {V : Type} (columns : List Bytes) (values : List V) : Table (Bytes × V) Prod.fst :=
  (columns.zip values).foldl Table.put ∅

def rowsToKeyValueJson (rows : Rows) : Outcome (Table (Bytes × Bytes) Prod.fst) := do
  let result ← rows.rows.foldlM
    (fun result row => do
      let pair ← Outcome.orError "" row.strings
      pure (result.put pair)) ∅
  rows.checkErr "" result

/-- `[]byte` becomes `string`. -/
def jsonValue : SqlValue → SqlValue
  | .bytes b => .text b
  | val => val

def rowsToJSONArray (rows : Rows) : Outcome (List (Table (Bytes × SqlValue) Prod.fst)) := do
  let columns ← Outcome.orError "获取列名失败: " rows.columns
  let headerRow := valueMap columns (columns.map SqlValue.text)
  let result ← rows.rows.foldlM
    (fun result row => do
      let values ← Outcome.orError "Scan失败: " row.values
      pure (result ++ [valueMap columns (values.map jsonValue)])) [headerRow]
  rows.checkErr "rows 迭代出错: " result

/-- The error of the iteration is not looked at. -/
def rowsToInsertStatements (rows : Rows) (tableName : Bytes) : Outcome Bytes :=
  Outcome.orError "" (NextDBM.rowsToInsertStatements rows.columns (rows.rows.map Row.values) tableName)

def rowsToTablesArray (rows : Rows) : Outcome (List Bytes) := do
  let tableNames ← rows.rows.foldlM
    (fun tableNames row => do
      let tableName ← Outcome.orError "读取表名失败: " row.string
      pure (tableNames ++ [tableName])) []
  rows.checkErr "遍历rows时出错: " tableNames

/-! ## Menus -/

/-- `Attr`: the map of the row for an item, the attribute of the message for what stands below it. -/
inductive MenuAttr
  | row (rowMap : Table (Bytes × Bytes) Prod.fst)
  | given (attr : DBSession.Value)

structure MenuItem where
  title : Bytes
  key : String
  menuType : String
  children : List MenuItem := []
  isLeaf : Bool := false
  attr : MenuAttr

/-- `fmt.Sprintf("%v", v)`. -/
def printed (val : SqlValue) : Bytes := val.denotes.getD (ascii "<nil>")

/-- `rowMap[column]`; empty where the key is missing. -/
def lookup (rowMap : Table (Bytes × Bytes) Prod.fst) (column : Bytes) : Bytes :=
  ((rowMap.rows.find? fun e => e.1 == column).map Prod.snd).getD []

/-- The fixed items below an item, each with its title and its type. -/
def subItems (key : String) (attr : DBSession.Value) (items : List (String × String)) :
    List MenuItem :=
  items.zipIdx.map fun ((title, menuType), i) =>
    { title := ascii title, key := key ++ "-" ++ toString i, menuType, attr := .given attr }

/-- The map of a row, with the asset of the message when it names one. -/
def menuMap (columns : List Bytes) (values : List SqlValue) (attr : DBSession.Value) :
    Table (Bytes × Bytes) Prod.fst :=
  let rowMap := valueMap columns (values.map printed)
  match (DBSession.Value.get attr.asMap "assetId").asString with
  | some assetID => rowMap.put (ascii "assetId", utf8 assetID)
  | none => rowMap

/-- The item of a row. `columns[0]`, and `columns[1]` for functions and procedures, are checked at run
time. -/
def menuItem (columns : List Bytes) (values : List SqlValue) (key menuType : String)
    (attr : DBSession.Value) : Outcome MenuItem :=
  let rowMap := menuMap columns values attr
  match columns with
  | [] => .panicked
  | column :: others =>
    let item : MenuItem := { title := lookup rowMap column, key, menuType, attr := .row rowMap }
    match menuType with
    | "databaseMenu" =>
      .returned { item with
        children := subItems key attr [("tables", "tablesMenu"), ("views", "viewsMenu"),
          ("functions", "functionsMenu"), ("procedures", "proceduresMenu"), ("sqls", "sqlsMenu")] }
    | "tablesMenu" =>
      .returned { item with
        menuType := "tableMenu"
        children := subItems key attr [("columns", "columnsMenu"), ("keys", "keysMenu"),
          ("indexs", "indexsMenu")] }
    | "viewsMenu" => .returned { item with menuType := "viewMenu", isLeaf := true }
    | "functionsMenu" =>
      match others with
      | [] => .panicked
      | name :: _ =>
        .returned { item with title := lookup rowMap name, menuType := "functionMenu", isLeaf := true }
    | "proceduresMenu" =>
      match others with
      | [] => .panicked
      | name :: _ =>
        .returned { item with title := lookup rowMap name, menuType := "procedureMenu", isLeaf := true }
    | "sqlsMenu" => .returned { item with menuType := "sqlMenu", isLeaf := true }
    | "columnsMenu" => .returned { item with menuType := "columnMenu", isLeaf := true }
    | "keysMenu" => .returned { item with menuType := "keyMenu", isLeaf := true }
    | "indexsMenu" => .returned { item with menuType := "indexMenu", isLeaf := true }
    | _ => .returned item

/-- The error of the iteration is not looked at; `counter` is the number of the items before. -/
def rowsToMenuJson (rows : Rows) (parentKey menuType : String) (attr : DBSession.Value) :
    Outcome (List MenuItem) := do
  let columns ← Outcome.orError "获取列名失败: " rows.columns
  rows.rows.foldlM
    (fun result row => do
      let values ← Outcome.orError "Scan失败: " row.values
      let item ← menuItem columns values (parentKey ++ "-" ++ toString result.length) menuType attr
      pure (result ++ [item])) []

/-! ## Errors of the iteration -/

/-- Each of the five returns an error. -/
structure Surfaces (rows : Rows) (parentKey menuType : String) (attr : DBSession.Value)
    (tableName : Bytes) : Prop where
  keyValueJson : rows.rowsToKeyValueJson.Failed
  jsonArray : rows.rowsToJSONArray.Failed
  menuJson : (rows.rowsToMenuJson parentKey menuType attr).Failed
  insertStatements : (rows.rowsToInsertStatements tableName).Failed
  tablesArray : rows.rowsToTablesArray.Failed

/-- The number of the columns that `RowsToMenuJson` looks at. -/
def columnsRead (menuType : String) : Nat :=
  if menuType = "functionsMenu" ∨ menuType = "proceduresMenu" then 2 else 1

/-- The columns are not known, or a row cannot be scanned: any of the rows where the columns that a menu
looks at are there, and else the first one, after which it panics. -/
def Unreadable (rows : Rows) (menuType : String) : Prop :=
  (∃ err, rows.columns = .error err) ∨
    ∃ columns, rows.columns = .ok columns ∧
      if columnsRead menuType ≤ columns.length then ∃ row ∈ rows.rows, row.Unscannable
      else ∃ row ∈ rows.rows.head?, row.Unscannable

end Rows

end NextDBM
