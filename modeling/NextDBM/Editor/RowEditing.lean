import Mathlib.Data.List.Infix
import NextDBM.Library.MySqlAssignments
import NextDBM.Library.MySqlRows
import NextDBM.Library.ScriptObject

/-!
# Editing rows

`deleteRow`, `insertRow` and `updateRow` of the editor make statements of the rows of a grid. A row is an
object with the cells of the columns at their positions and the number of the row at `rowIndex`. All
three look for one column with a primary key, and stop without it.
-/

namespace NextDBM

open MySqlText ScriptNumber

/-- What a cell of the grid holds. -/
inductive Cell
  | null
  | text (s : Bytes)
  | number (x : Number)
  deriving DecidableEq, Repr

abbrev GridRow : Type := List (String × Cell)

/-- `Number(cell)`; `none` is `undefined`. -/
def numberOf : Option Cell → Number
  | none => .nan
  | some .null => .finite false ⟨0, 0⟩
  | some (.text s) => ScriptNumber.number s
  | some (.number x) => x

/-- A cell in a template. -/
def cellText : Option Cell → Bytes
  | none => []
  | some .null => []
  | some (.text s) => s
  | some (.number x) => toText x

/-- A column of the table structure: `item[0]`, `item[1]` and `item[3]`. -/
structure TableColumn where
  name : Bytes
  type : Bytes
  key : Bytes
  deriving DecidableEq, Repr

/-- `/int|bigint/.test(type)`; with `bit`, `/int|bigint|bit/.test(type)`. -/
def matchesInt (bit : Bool) (type : Bytes) : Bool :=
  decide (ascii "int" <:+: type) || decide (ascii "bigint" <:+: type) ||
    bit && decide (ascii "bit" <:+: type)

/-- What the three functions are given besides the rows. -/
structure RowParams where
  database : Bytes
  tableName : Bytes
  tableStruct : List TableColumn
  columns : List Bytes

namespace RowParams

def primaryKeyColumn (p : RowParams) : Option TableColumn :=
  p.tableStruct.find? fun item => item.key = ascii "PRI"

/-- The last position of the column among those of the grid, or the first position. -/
def keyColumn (p : RowParams) (key : TableColumn) : Nat :=
  p.columns.zipIdx.foldl (fun k x => if x.1 = key.name then x.2 else k) 0

/-! ## Conditions -/

def deleteWhere (p : RowParams) (key : TableColumn) (values : List GridRow) : Bytes :=
  let whereArr := values.filterMap fun row =>
    if matchesInt true key.type then
      some (toText (numberOf (ScriptObject.get row (p.keyColumn key))))
    else none
  key.name ++ (ascii " IN (" ++ (commaText id whereArr ++ ascii ")"))

def deleteRow (p : RowParams) (values : List GridRow) : Bytes :=
  match p.primaryKeyColumn with
  | none => []
  | some key =>
    ascii "DELETE FROM `" ++ p.database ++ ascii "`.`" ++ p.tableName ++ ascii "` WHERE " ++
      p.deleteWhere key values ++ ascii ";"

def updateWhere (p : RowParams) (key : TableColumn) (oldRow : GridRow) : Bytes :=
  let cell := ScriptObject.get oldRow (p.keyColumn key)
  key.name ++ (ascii " = " ++ if matchesInt false key.type then toText (numberOf cell) else cellText cell)

/-! ## Literals -/

/-- `'${value.replace(/'/g, "\\'")}'`; only texts have `replace`. -/
def quoted : Option Cell → Option Bytes
  | some (.text s) => some (quote :: (s.flatMap fun c => if c = quote then [backslash, quote] else [c]) ++ [quote])
  | _ => none

/-- The number that takes the place of an empty cell, of `null`, and of what is no number. -/
def zeroText : Bytes := ascii "0"

/-- A value of `insertRow` in a column of numbers: the cell as it was typed. -/
def insertNumber (value : Cell) : Bytes :=
  if value = .null ∨ value = .text [] ∨ numberOf (some value) = .nan then zeroText
  else cellText (some value)

/-- A value of `updateRow` in a column of numbers. -/
def setNumber (cell : Option Cell) : Bytes :=
  if cell = some .null ∨ cell = some (.text []) ∨ numberOf cell = .nan then zeroText
  else toText (numberOf cell)

/-- The type of a column of the grid; it is an error if the structure has no such column. -/
def columnType (p : RowParams) (column : Bytes) : Option Bytes :=
  (p.tableStruct.find? fun item => item.name = column).map TableColumn.type

def insertLiteral (p : RowParams) (column : Option Bytes) (value : Cell) : Option Bytes :=
  column.bind fun column => (p.columnType column).bind fun type =>
    if matchesInt true type then some (insertNumber value) else quoted (some value)

def setLiteral (p : RowParams) (column : Bytes) (cell : Option Cell) : Option Bytes :=
  (p.columnType column).bind fun type =>
    if matchesInt true type then some (setNumber cell) else quoted cell

/-- The values of `Object.entries`, without the number of the row. -/
def filteredRow (row : GridRow) : List Cell :=
  ((ScriptObject.forIn row).filter fun e => e.1 ≠ "rowIndex").map Prod.snd

/-- The values of a row in parentheses. -/
def insertValues (p : RowParams) (row : GridRow) : Option Bytes :=
  ((filteredRow row).zipIdx.mapM fun x => p.insertLiteral p.columns[x.2]? x.1).map fun literals =>
    ascii "(" ++ commaText id literals ++ ascii ")"

def backquoted (name : Bytes) : Bytes := backtick :: (name ++ [backtick])

/-- `none` is an exception. -/
def insertRow (p : RowParams) (values : List GridRow) : Option Bytes :=
  match p.primaryKeyColumn with
  | none => some []
  | some _ => (values.mapM p.insertValues).map fun rows =>
    ascii "INSERT INTO `" ++ p.database ++ ascii "`.`" ++ p.tableName ++ ascii "` (" ++
      commaText backquoted p.columns ++ ascii ") VALUES " ++ (ascii ",\n").intercalate rows ++ ascii ";"

def updateRow (p : RowParams) (values oldRow : GridRow) : Option Bytes :=
  match p.primaryKeyColumn with
  | none => some []
  | some key =>
    (p.columns.zipIdx.mapM fun x =>
      (p.setLiteral x.1 (ScriptObject.get values x.2)).map fun cell => x.1 ++ ascii " = " ++ cell).map
        fun setArr =>
          ascii "UPDATE `" ++ p.database ++ ascii "`.`" ++ p.tableName ++ ascii "` SET " ++
            commaText id setArr ++ ascii " WHERE " ++ p.updateWhere key oldRow ++ ascii ";"

end RowParams

/-! ## Literals of edited rows

`insertRow` and `updateRow` write a literal for every cell of a row. The statement should assign to each
column what was entered for it.
-/

/-- A row of `n` cells, at the keys `0` to `n - 1` in any order. An array has less than `2 ^ 32` elements. -/
structure FilledRow (n : Nat) where
  object : GridRow
  cells : List Cell
  rowIndex : Option Cell
  length : cells.length = n
  short : n < 4294967296
  perm : object.Perm
    (ScriptObject.positions cells ++ (rowIndex.map fun i => ("rowIndex", i)).toList)

/-- Types of numbers. -/
def numericWords : List Bytes :=
  [ascii "tinyint", ascii "smallint", ascii "mediumint", ascii "int", ascii "bigint", ascii "bit",
    ascii "decimal", ascii "float", ascii "double"]

def isNumericType (type : Bytes) : Bool := decide ((word type).1 ∈ numericWords)

/-- The number that a cell shows. -/
def Cell.value : Cell → Option ℚ
  | .null => none
  | .text s => (asNumeral (trimSpace s)).map Numeral.value
  | .number x => (asNumeral (toText x)).map Numeral.value

/-- The literal says what was entered: `NULL`, the text, or in a column of numbers the number. -/
def Cell.Denoted (cell : Cell) (numeric : Prop) : Literal → Prop
  | .null => cell = .null
  | .text d => cell = .text d
  | .number n => numeric ∧ cell.value = some n.value

namespace RowParams

/-- The column is assigned what was entered for it. -/
def Assigned (p : RowParams) (column : Bytes) (cell : Cell) (x : Literal) : Prop :=
  cell.Denoted (∃ type, p.columnType column = some type ∧ isNumericType type = true) x

/-- The INSERT of the rows is read as one that assigns to each column what was entered. -/
def InsertAssigns (reserved : Bytes → Bool) (p : RowParams) (rows : List (FilledRow p.columns.length)) :
    Prop :=
  ∃ text i, p.insertRow (rows.map FilledRow.object) = some text ∧
    parseInsertRows reserved text = some i ∧ i.database = p.database ∧ i.table = p.tableName ∧
      i.columns = p.columns ∧
        List.Forall₂ (fun row literals =>
          List.Forall₂ (fun x y => p.Assigned x.1 x.2 y) (p.columns.zip row.cells) literals) rows i.rows

/-- The assignments of the UPDATE are read as those of what was entered. -/
def UpdateAssigns (reserved : Bytes → Bool) (p : RowParams) (values : FilledRow p.columns.length)
    (oldRow : GridRow) : Prop :=
  ∃ text i, p.updateRow values.object oldRow = some text ∧
    parseUpdateSet reserved text = some i ∧ i.database = p.database ∧ i.table = p.tableName ∧
      List.Forall₂ (fun x y => y.1 = x.1 ∧ p.Assigned x.1 x.2 y.2) (p.columns.zip values.cells) i.sets

/-! ## When it does -/

/-- What `insertRow` writes right: numerals in columns of numbers, and elsewhere texts in which every
backslash stands before `%` or `_`. -/
def InsertsRight (p : RowParams) (column : Bytes) (cell : Cell) : Prop :=
  ∃ type, p.columnType column = some type ∧
    if matchesInt true type = true then isNumericType type = true ∧ ∃ v, cell.value = some v
    else ∃ s, cell = .text s ∧ isTame s = true

/-- What `updateRow` writes right; it writes the number that a script makes of a numeral. -/
def SetsRight (p : RowParams) (column : Bytes) (cell : Cell) : Prop :=
  ∃ type, p.columnType column = some type ∧
    if matchesInt true type = true then
      isNumericType type = true ∧
        ∃ v, cell.value = some v ∧ (Cell.number (numberOf (some cell))).value = some v
    else ∃ s, cell = .text s ∧ isTame s = true

/-- The table has a key, and no name needs its backticks doubled. -/
structure Named (p : RowParams) : Prop where
  keyed : ∃ key, p.primaryKeyColumn = some key
  database : backtick ∉ p.database
  table : backtick ∉ p.tableName

structure InsertsAll (p : RowParams) (rows : List (FilledRow p.columns.length)) : Prop where
  named : p.Named
  columns : ∀ column ∈ p.columns, backtick ∉ column
  nonempty : rows ≠ []
  cells : ∀ row ∈ rows, ∀ x ∈ p.columns.zip row.cells, p.InsertsRight x.1 x.2

structure SetsAll (reserved : Bytes → Bool) (p : RowParams) (values : FilledRow p.columns.length) :
    Prop where
  named : p.Named
  columns : ∀ column ∈ p.columns, IsWord reserved column
  nonempty : p.columns ≠ []
  cells : ∀ x ∈ p.columns.zip values.cells, p.SetsRight x.1 x.2

end RowParams

end NextDBM
