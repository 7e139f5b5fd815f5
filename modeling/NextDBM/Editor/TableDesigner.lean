import NextDBM.Library.MySqlTableBody

/-!
# The table designer

`createTable` writes the statements that create a table: the columns, indexes, foreign keys and the primary
key of the designer, the options of the table, and its triggers. What is not entered is empty. What stands
between the parentheses of CREATE TABLE should define exactly what was designed.
-/

namespace NextDBM

open MySqlText

/-- A row of the panel of columns; `len` and `port` are the texts of its numbers. -/
structure FieldItem where
  name : Bytes
  type : Bytes
  len : Bytes
  port : Bytes
  unsigned : Bool := false
  zeroFill : Bool := false
  isNull : Bool := false
  defaultValue : Bytes := []
  automaticIncrement : Bool := false
  comment : Bytes := []
  isPrimaryKey : Bool := false
  deriving DecidableEq, Repr

/-- The choices of `IndexType`. -/
inductive IndexType
  | fulltext
  | normal
  | spatial
  | unique
  deriving DecidableEq, Repr

def IndexType.text : IndexType → Bytes
  | fulltext => ascii "FULLTEXT"
  | normal => ascii "NORMAL"
  | spatial => ascii "SPATIAL"
  | unique => ascii "UNIQUE"

/-- The choices of `IndexFunction`. -/
inductive IndexFunction
  | btree
  | hash
  deriving DecidableEq, Repr

def IndexFunction.text : IndexFunction → Bytes
  | btree => ascii "BTREE"
  | hash => ascii "HASH"

structure IndexItem where
  name : Bytes
  fileds : List Bytes
  indexType : Option IndexType := none
  indexFunction : Option IndexFunction := none
  keyBlockSize : Bytes := []
  btreeWithParser : Bytes := []
  remark : Bytes := []
  deriving DecidableEq, Repr

def actionName : Action → Bytes
  | .cascade => ascii "CASCADE"
  | .setNull => ascii "SET NULL"
  | .noAction => ascii "NO ACTION"
  | .restrict => ascii "RESTRICT"

structure ForeignKeyItem where
  name : Bytes
  field : List Bytes
  database : Bytes
  table : Bytes
  columns : List Bytes
  deleteActions : Option Action := none
  updateActions : Option Action := none
  deriving DecidableEq, Repr

structure TriggerItem where
  name : Bytes
  triggerTimeType : Bytes
  triggerActionType : Bytes
  table : Bytes
  sql : Bytes
  deriving DecidableEq, Repr

/-- The options; those that are written without being looked at may be undefined. -/
structure OptionData where
  engines : Bytes := []
  charsets : Bytes := []
  collations : Bytes := []
  auto : Bytes := []
  dataDir : Bytes := []
  indexDir : Bytes := []
  avageRowLen : Bytes := []
  minRowCount : Bytes := []
  maxRowCount : Bytes := []
  keyBlockSize : Bytes := []
  packKeysSize : Option Bytes := none
  rowFormat : Bytes := []
  statsAuotRecalc : Bytes := []
  dataOptions1 : Option Bytes := none
  statsPersistent : Bytes := []
  dataOptions2 : Option Bytes := none
  encryption : Bool := false
  tableSpace : Bytes := []
  deriving DecidableEq, Repr

structure TableStructure where
  tableName : Bytes
  fieldData : List FieldItem
  indexData : List IndexItem := []
  foreignKeyData : List ForeignKeyItem := []
  triggerData : List TriggerItem := []
  optionData : Option OptionData := none
  remark : Bytes := []
  deriving DecidableEq, Repr

/-! ## The writers -/

def emptyString : Bytes := ascii "EMPTY STRING"

def fieldSql (item : FieldItem) : Bytes :=
  ascii "\n\t`" ++ item.name ++ ascii "` " ++
    (if item.type = [] then []
      else if item.type = ascii "varchar" then ascii " " ++ item.type ++ ascii "(" ++ item.len ++ ascii ")"
      else ascii " " ++ item.type ++ ascii "(" ++ item.len ++ ascii ", " ++ item.port ++ ascii ")") ++
    (if item.unsigned then ascii " UNSIGNED" else []) ++
    (if item.zeroFill then ascii " ZEROFILL" else []) ++
    (if item.isNull then ascii " NOT NULL" else []) ++
    (if item.defaultValue = emptyString then ascii " DEFAULT ''" else []) ++
    (if item.automaticIncrement then ascii " AUTO_INCREMENT" else []) ++
    (if item.comment = [] then [] else ascii " COMMENT '" ++ item.comment ++ ascii "'")

/-- What a loop writes that puts a comma before every item but the first. -/
def listed {α : Type} (text : α → Bytes) (items : List α) : Bytes :=
  (items.zipIdx.map fun (item, index) => if index = 0 then text item else ascii "," ++ text item).flatten

def backquoted (name : Bytes) : Bytes := ascii "`" ++ name ++ ascii "`"

def indexSql (item : IndexItem) : Bytes :=
  ascii "\n\t" ++
    (match item.indexType with
      | none => []
      | some type => if type = .normal then [] else ascii " " ++ type.text) ++
    (if item.name = [] then []
      else ascii " INDEX '" ++ item.name ++ ascii "' (" ++ listed backquoted item.fileds ++ ascii ")") ++
    (if item.keyBlockSize = [] then [] else ascii " KEY_BLOCK_SIZE = " ++ item.keyBlockSize) ++
    (match item.indexFunction with
      | none => []
      | some function => ascii " USING " ++ function.text) ++
    (if item.btreeWithParser = [] then [] else ascii " WITH PARSER `" ++ item.btreeWithParser ++ ascii "`") ++
    (if item.remark = [] then [] else ascii " COMMENT '" ++ item.remark ++ ascii "'")

/-- The columns with a comma after each, without the last byte. -/
def columnsSql (columns : List Bytes) : Bytes :=
  (columns.map fun column => ascii "`" ++ column ++ ascii "`,").flatten.dropLast

def foreignKeyIndexSql (item : ForeignKeyItem) : Bytes :=
  ascii "ALTER TABLE `" ++ item.database ++ ascii "`.`" ++ item.table ++ ascii "` ADD INDEX (" ++
    columnsSql item.columns ++ ascii "); \n\n"

/-- An array is written with commas between its elements. -/
def foreignKeySql (item : ForeignKeyItem) : Bytes :=
  ascii "\n\tCONSTRAINT `" ++ item.name ++ ascii "` FOREIGN KEY (`" ++ [44].intercalate item.field ++
    ascii "`) REFERENCES `" ++ item.database ++ ascii "`.`" ++ item.table ++ ascii "` (" ++
    columnsSql item.columns ++ ascii ")" ++
    (match item.deleteActions with
      | none => []
      | some action => ascii " ON DELETE " ++ actionName action) ++
    (match item.updateActions with
      | none => []
      | some action => ascii " ON UPDATE " ++ actionName action)

def triggerSql (item : TriggerItem) : Bytes :=
  ascii "CREATE TRIGGER `" ++ item.name ++ ascii "` " ++ item.triggerTimeType ++ ascii " " ++
    item.triggerActionType ++ ascii " ON `" ++ item.table ++ ascii "` FOR EACH ROW " ++ item.sql ++ ascii ";"

/-- An option that is written when it is entered. -/
def optionSql (label : String) (value : Bytes) : Bytes :=
  if value = [] then [] else ascii label ++ value

/-- An option that is written when another one is entered. -/
def otherOptionSql (label : String) (entered : Bytes) (value : Option Bytes) : Bytes :=
  if entered = [] then [] else ascii label ++ value.getD (ascii "undefined")

def optionsSql (o : OptionData) : Bytes :=
  optionSql " ENGINE = " o.engines ++ optionSql " CHARACTER SET = " o.charsets ++
    optionSql " COLLATE = " o.collations ++ optionSql " AUTO_INCREMENT = " o.auto ++
    (if o.dataDir = [] then [] else ascii " DATA DIRECTORY = '" ++ o.dataDir ++ ascii "'") ++
    (if o.indexDir = [] then [] else ascii " INDEX DIRECTORY = '" ++ o.indexDir ++ ascii "'") ++
    optionSql " AVG_ROW_LENGTH = " o.avageRowLen ++ optionSql " MIN_ROWS = " o.minRowCount ++
    optionSql " MAX_ROWS = " o.maxRowCount ++
    otherOptionSql " KEY_BLOCK_SIZE = " o.keyBlockSize o.packKeysSize ++
    optionSql " ROW_FORMAT = " o.rowFormat ++
    otherOptionSql " STATS_AUTO_RECALC = " o.statsAuotRecalc o.dataOptions1 ++
    otherOptionSql " STATS_PERSISTENT = " o.statsPersistent o.dataOptions2 ++
    optionSql " STATS_SAMPLE_PAGES = " o.indexDir ++
    (if o.encryption then ascii " ENCRYPTION = 'Y'" else []) ++ optionSql " TABLESPACE = " o.tableSpace

namespace TableStructure

/-- The names in the primary key; the comma belongs to the place in the list of all columns. -/
def keys (params : TableStructure) : Bytes :=
  (params.fieldData.zipIdx.map fun (item, index) =>
    if item.isPrimaryKey then (if index = 0 then [] else ascii ",") ++ backquoted item.name else []).flatten

def primaryKeySql (params : TableStructure) : Bytes :=
  if params.keys = [] then [] else ascii "\n\tPRIMARY KEY (" ++ params.keys ++ ascii "),"

/-- What `createTable` writes after the first parenthesis. -/
def bodySql (params : TableStructure) : Bytes :=
  listed fieldSql params.fieldData ++ (if 1 < params.fieldData.length then ascii "," else []) ++
    (listed indexSql params.indexData ++
      (listed foreignKeySql params.foreignKeyData ++
        (if 1 < params.foreignKeyData.length then ascii "," else []) ++ params.primaryKeySql))

/-- What it writes after the last one. -/
def endSql (params : TableStructure) : Bytes :=
  (match params.optionData with
    | none => []
    | some o => optionsSql o) ++
    (if params.remark = [] then ascii ";" else ascii " COMMENT = '" ++ params.remark ++ ascii "' ;") ++
    (params.triggerData.map fun item => ascii "\n\n" ++ triggerSql item).flatten

def createTable (params : TableStructure) : Bytes :=
  (params.foreignKeyData.map foreignKeyIndexSql).flatten ++
    (ascii "CREATE TABLE " ++ params.tableName ++ ascii " (" ++
      (params.bodySql ++ (ascii "\n\n)" ++ params.endSql)))

end TableStructure

/-! ## What was designed -/

def FieldItem.column (item : FieldItem) : Column where
  name := item.name
  type := item.type
  arguments := if item.type = ascii "varchar" then [item.len] else [item.len, item.port]
  unsigned := item.unsigned
  zerofill := item.zeroFill
  autoIncrement := item.automaticIncrement
  comment := if item.comment = [] then none else some item.comment

def IndexType.kind : IndexType → Option IndexKind
  | fulltext => some .fulltext
  | normal => none
  | spatial => some .spatial
  | unique => some .unique

def entered (w : Bytes) : Option Bytes := if w = [] then none else some w

def IndexItem.index (item : IndexItem) : Index where
  kind := item.indexType.bind IndexType.kind
  name := entered item.name
  columns := item.fileds
  keyBlockSize := entered item.keyBlockSize
  method := item.indexFunction.map IndexFunction.text
  withParser := entered item.btreeWithParser
  comment := entered item.remark

def ForeignKeyItem.foreignKey (item : ForeignKeyItem) : ForeignKey where
  name := item.name
  columns := item.field
  database := item.database
  table := item.table
  references := item.columns
  onDelete := item.deleteActions
  onUpdate := item.updateActions

namespace TableStructure

def keyNames (params : TableStructure) : List Bytes :=
  (params.fieldData.filter FieldItem.isPrimaryKey).map FieldItem.name

def primaryKeys (params : TableStructure) : List Definition :=
  if params.keyNames = [] then [] else [.primaryKey params.keyNames]

/-- The definitions of the table. -/
def definitions (params : TableStructure) : List Definition :=
  params.fieldData.map (fun item => .column item.column) ++
    (params.indexData.map (fun item => .index item.index) ++
      (params.foreignKeyData.map (fun item => .foreignKey item.foreignKey) ++ params.primaryKeys))

/-- After `CREATE TABLE … (` come the definitions of the table, with a comma between each two of them, and
the parenthesis after them. -/
def DefinesTable (reserved : Bytes → Bool) (params : TableStructure) : Prop :=
  parseTableBody reserved (params.bodySql ++ (ascii "\n\n)" ++ params.endSql)) =
    some (params.definitions, params.endSql)

end TableStructure

/-! ## When it does -/

def isDigits (w : Bytes) : Bool := !w.isEmpty && w.all isDigit

/-- The name needs no escape, the type is `varchar` with a length or one of those that take two numbers,
and the comment stands as it is between quotes. -/
structure FieldItem.Writable (item : FieldItem) : Prop where
  name : backtick ∉ item.name
  type : isDigits item.len = true ∧
    (item.type = ascii "varchar" ∧ item.unsigned = false ∧ item.zeroFill = false ∨
      lower item.type ∈ fractionTypes ∧ isDigits item.port = true)
  comment : isPlain quote isEscape item.comment = true

/-- The key has one column and refers to at least one, and no name needs an escape. -/
structure ForeignKeyItem.Writable (item : ForeignKeyItem) : Prop where
  name : backtick ∉ item.name
  field : ∃ w, item.field = [w] ∧ backtick ∉ w
  database : backtick ∉ item.database
  table : backtick ∉ item.table
  nonempty : item.columns ≠ []
  columns : ∀ w ∈ item.columns, backtick ∉ w

/-- No index, no primary key, and one column alone, or several columns with one foreign key. -/
structure TableStructure.Writable (params : TableStructure) : Prop where
  noIndex : params.indexData = []
  noKey : ∀ item ∈ params.fieldData, item.isPrimaryKey = false
  commas : params.fieldData.length = 1 ∧ params.foreignKeyData = [] ∨
    2 ≤ params.fieldData.length ∧ params.foreignKeyData.length = 1
  fields : ∀ item ∈ params.fieldData, item.Writable
  foreignKeys : ∀ item ∈ params.foreignKeyData, item.Writable

end NextDBM
