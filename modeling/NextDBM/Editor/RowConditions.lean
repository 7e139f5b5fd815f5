import NextDBM.Editor.RowEditing

/-!
# The conditions of row editing

`deleteRow` and `updateRow` choose the rows of a table by a condition on the first column of its primary
key. The condition should be well formed and hold of the chosen rows alone.
-/

namespace NextDBM

open MySqlText ScriptNumber

/-! ## Types of keys -/

inductive IntegerBase
  | tinyint | smallint | mediumint | int | bigint
  deriving DecidableEq, Repr

def IntegerBase.word : IntegerBase → Bytes
  | tinyint => ascii "tinyint"
  | smallint => ascii "smallint"
  | mediumint => ascii "mediumint"
  | int => ascii "int"
  | bigint => ascii "bigint"

inductive StringBase
  | char | varchar | tinytext | text | mediumtext | longtext
  | binary | varbinary | tinyblob | blob | mediumblob | longblob
  deriving DecidableEq, Repr

def StringBase.word : StringBase → Bytes
  | char => ascii "char"
  | varchar => ascii "varchar"
  | tinytext => ascii "tinytext"
  | text => ascii "text"
  | mediumtext => ascii "mediumtext"
  | longtext => ascii "longtext"
  | binary => ascii "binary"
  | varbinary => ascii "varbinary"
  | tinyblob => ascii "tinyblob"
  | blob => ascii "blob"
  | mediumblob => ascii "mediumblob"
  | longblob => ascii "longblob"

inductive DateBase
  | date | time | datetime | timestamp | year
  deriving DecidableEq, Repr

def DateBase.word : DateBase → Bytes
  | date => ascii "date"
  | time => ascii "time"
  | datetime => ascii "datetime"
  | timestamp => ascii "timestamp"
  | year => ascii "year"

inductive KeyType
  | integer (base : IntegerBase) (width : Option Nat) (unsigned zerofill : Bool)
  | string (base : StringBase) (length : Option Nat)
  | date (base : DateBase) (precision : Option Nat)
  deriving DecidableEq, Repr

/-- A length in parentheses. -/
def lengthText : Option Nat → Bytes
  | none => []
  | some n => 40 :: (natText n ++ [41])

/-- The type as a DESCRIBE shows it. -/
def KeyType.text : KeyType → Bytes
  | integer base width unsigned zerofill =>
    base.word ++ (lengthText width ++
      ((if unsigned then ascii " unsigned" else []) ++ if zerofill then ascii " zerofill" else []))
  | string base length => base.word ++ lengthText length
  | date base precision => base.word ++ lengthText precision

def TableColumn.IsKey (item : TableColumn) : Prop := item.key = ascii "PRI"

def TableColumn.IsInteger (item : TableColumn) : Prop :=
  ∃ base width unsigned zerofill, item.type = (KeyType.integer base width unsigned zerofill).text

/-! ## Tables in the grid -/

/-- The cell of a column. -/
def RowParams.shown (p : RowParams) (row : GridRow) (item : TableColumn) : Option Cell :=
  ScriptObject.get row (p.columns.idxOf item.name)

/-- The number that a cell shows. -/
def cellValue : Option Cell → Option ℚ
  | some (.text s) => (asNumeral s).map Numeral.value
  | _ => none

/-- A table with a primary key, and its rows as the grid shows them. `key` is the column that the
statements take for the key; integers are shown as numerals. -/
structure EditedTable where
  params : RowParams
  rows : List GridRow
  key : TableColumn
  isKey : params.primaryKeyColumn = some key
  columns : params.columns.Nodup
  names : (params.tableStruct.map TableColumn.name).Nodup
  shown : ∀ item ∈ params.tableStruct, item.name ∈ params.columns
  types : ∀ item ∈ params.tableStruct, item.IsKey → ∃ type : KeyType, item.type = type.text
  cells : ∀ row ∈ rows, ∀ item ∈ params.tableStruct, item.IsKey →
    ∃ s, params.shown row item = some (.text s) ∧ (item.IsInteger → ∃ n, asNumeral s = some n)
  keyed : ∀ row ∈ rows, ∀ row' ∈ rows, (∀ item ∈ params.tableStruct, item.IsKey →
    params.shown row item = params.shown row' item) → row = row'

/-- What a literal equals in a column: a number what shows it, a text the same text, or in a column of
integers what shows the same number. -/
def literalEquals (item : TableColumn) (s : Bytes) : Literal → Prop
  | .null => False
  | .number n => cellValue (some (.text s)) = some n.value
  | .text d => item.IsInteger ∧ (∃ v, cellValue (some (.text s)) = some v ∧
      cellValue (some (.text d)) = some v) ∨ ¬ item.IsInteger ∧ d = s

namespace EditedTable

/-- The condition holds of a row. -/
def Selects (t : EditedTable) (c : Condition) (row : GridRow) : Prop :=
  ∃ item ∈ t.params.tableStruct, item.name = c.column ∧
    ∃ s, t.params.shown row item = some (.text s) ∧ ∃ k ∈ c.keys, literalEquals item s k

/-- The condition is read as one on the column of the key, and holds of these rows alone. -/
def Chooses (reserved : Bytes → Bool) (t : EditedTable) (condition : Bytes)
    (chosen : GridRow → Prop) : Prop :=
  ∃ keys, parseWhere reserved condition = some { column := t.key.name, keys } ∧
    ∀ row ∈ t.rows, t.Selects { column := t.key.name, keys } row ↔ chosen row

/-- The conditions of the statements that delete the selected rows and that update one of them choose
the rows that they should. -/
structure Hits (reserved : Bytes → Bool) (t : EditedTable) (selected : List GridRow) : Prop where
  delete : t.Chooses reserved (t.params.deleteWhere t.key selected) (· ∈ selected)
  update : ∀ oldRow ∈ selected,
    t.Chooses reserved (t.params.updateWhere t.key oldRow) (· = oldRow)

/-- What a row shows in the first column of the key. -/
def keyValue (t : EditedTable) (row : GridRow) : Option ℚ := cellValue (t.params.shown row t.key)

/-- The text of the number that a script makes of the key shows the same number. -/
def Kept (t : EditedTable) (row : GridRow) : Prop :=
  cellValue (some (.text (toText (numberOf (t.params.shown row t.key))))) = t.keyValue row

instance (t : EditedTable) (row : GridRow) : Decidable (t.Kept row) :=
  inferInstanceAs (Decidable (_ = _))

/-- The key is of integers that scripts keep, its name is a word, rows are selected, and no other row of
the table has the key of one of them. -/
structure RightlyKeyed (reserved : Bytes → Bool) (t : EditedTable) (selected : List GridRow) :
    Prop where
  word : IsWord reserved t.key.name
  integer : t.key.IsInteger
  nonempty : selected ≠ []
  kept : ∀ row ∈ selected, t.Kept row
  alone : ∀ row ∈ selected, ∀ row' ∈ t.rows, t.keyValue row' = t.keyValue row → row' = row

end EditedTable

end NextDBM
