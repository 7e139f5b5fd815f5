import NextDBM.Editor.Converters
import NextDBM.Library.Forests
import NextDBM.Library.Runs
import NextDBM.Library.Text
import NextDBM.Library.Utf8

/-!
# The tree of the editor

The editor shows the databases of one asset as a tree that grows by the answers of the server: the key of
an answer is that of the node that was expanded, and the keys of the items are its key with their
positions. The database and the table of a node are found by cutting its key at a dash and searching the
tree that is shown, which a search text may have thinned out.
-/

namespace NextDBM

open Transition MySqlText

namespace ObjectTree

/-- A node without its children. The title of a column is no text, and `name` is what assets have. -/
structure Label where
  key : String
  menuType : String
  title : Option String
  name : Option String := none
  attr : Option Rows.MenuAttr := none

/-! ## Trees -/

section Trees

variable (key : String)

def updateNodeByKey (newData : Forest Label) : Forest Label → Forest Label
  | .nil => .nil
  | .node a cs ss =>
    if a.key = key then .node a newData (updateNodeByKey newData ss)
    else .node a (updateNodeByKey newData cs) (updateNodeByKey newData ss)

/-- The first node of the key is updated; `false` when there is none. -/
def updateTreeNodeByKey (updater : Label → Label) : Forest Label → Bool × Forest Label
  | .nil => (false, .nil)
  | .node a cs ss =>
    if a.key = key then (true, .node (updater a) cs ss)
    else
      match updateTreeNodeByKey updater cs with
      | (true, cs) => (true, .node a cs ss)
      | (false, _) =>
        let (found, ss) := updateTreeNodeByKey updater ss
        (found, .node a cs ss)

def deleteTreeNodeByKey : Forest Label → Forest Label
  | .nil => .nil
  | .node a cs ss =>
    if a.key = key then deleteTreeNodeByKey ss
    else .node a (deleteTreeNodeByKey cs) (deleteTreeNodeByKey ss)

def findNodeByKey (data : Forest Label) : Option Label :=
  (data.find? fun a => a.key == key).map Prod.fst

end Trees

/-- `toLowerCase` of the browser's Unicode tables is given. -/
def nameMatches (toLowerCase : String → String) (filter : String) (a : Label) : Bool :=
  let includes (text : Option String) : Bool :=
    text.any fun text => Text.hasInfix (toLowerCase text) (toLowerCase filter)
  includes a.title || includes a.name

def filterNodes (toLowerCase : String → String) (filter : String) : Forest Label → Forest Label
  | .nil => .nil
  | .node a cs ss =>
    let filteredChildren := filterNodes toLowerCase filter cs
    if nameMatches toLowerCase filter a || !filteredChildren.isEmpty then
      .node a (if filteredChildren.isEmpty then cs else filteredChildren) (filterNodes toLowerCase filter ss)
    else filterNodes toLowerCase filter ss

/-! ## Keys -/

/-- The position of the dash of a number, counted from `current`, and of the text from `i`. -/
def dashIndex (dashPosition : Int) : Nat → Nat → List Char → Option Nat
  | _, _, [] => none
  | current, i, c :: cs =>
    if c = '-' then
      if ((current + 1 : Nat) : Int) = dashPosition then some i
      else dashIndex dashPosition (current + 1) (i + 1) cs
    else dashIndex dashPosition current (i + 1) cs

def lastIndexOfDash : Nat → List Char → Option Nat
  | _, [] => none
  | i, c :: cs => (lastIndexOfDash (i + 1) cs).or (if c = '-' then some i else none)

def cutStringAtDash (str : String) (dashPosition : Int) : String :=
  let targetIndex :=
    if dashPosition = -1 then lastIndexOfDash 0 str.toList else dashIndex dashPosition 0 0 str.toList
  match targetIndex with
  | some targetIndex => String.ofList (str.toList.take targetIndex)
  | none => str

/-! ## Answers -/

/-- The bytes of a title as the browser reads them. -/
def text (bytes : Bytes) : String := Utf8.decode ⟨(bytes.map UInt8.ofNat).toArray⟩

def labelOf (item : Rows.MenuItem) : Label :=
  { key := item.key, menuType := item.menuType, title := some (text item.title), attr := some item.attr }

/-- The items of an answer; what stands below them has nothing below it. -/
def received (items : List Rows.MenuItem) : Forest Label :=
  .ofList labelOf (fun item => .ofList labelOf (fun _ => .nil) item.children) items

/-- The columns, with a tooltip for a title. -/
def receivedColumns (items : List Rows.MenuItem) : Forest Label :=
  .ofList (fun item => { labelOf item with title := none })
    (fun item => .ofList labelOf (fun _ => .nil) item.children) items

/-- A saved query, as `sqlsAll` reads it. -/
structure SavedSql where
  id : String
  name : String

def sqlMenus (key : String) (items : List SavedSql) : Forest Label :=
  .ofList (fun item => { key := key ++ "-" ++ item.id, menuType := "sqlMenu", title := some item.name })
    (fun _ => .nil) items

/-! ## Requests -/

/-- What `onExpand` asks for: the key and the type of the node, and the texts of the statement. -/
structure Command where
  key : String
  retType : String
  database : Option String
  tableName : Option String

def databaseMenus : List String := ["tablesMenu", "viewsMenu", "functionsMenu", "proceduresMenu"]

def tableMenus : List String := ["columnsMenu", "keysMenu", "indexsMenu"]

/-- `onExpand`, but for the saved queries. -/
def commandOf (filteredData : Forest Label) (node : Label) : Option Command :=
  if node.menuType ∈ databaseMenus then
    (findNodeByKey (cutStringAtDash node.key (-1)) filteredData).map fun nodeInfo =>
      { key := node.key, retType := node.menuType, database := nodeInfo.title, tableName := none }
  else if node.menuType ∈ tableMenus then
    let tableName := findNodeByKey (cutStringAtDash node.key (-1)) filteredData
    (findNodeByKey (cutStringAtDash node.key 2) filteredData).map fun nodeInfo =>
      { key := node.key, retType := node.menuType, database := nodeInfo.title
        tableName := tableName.bind Label.title }
  else none

/-! ## The browser -/

structure Browser where
  treeData : Forest Label
  filter : String
  filteredData : Forest Label
  /-- The keys and the types of all requests that were sent. -/
  asked : List (String × String)

inductive Action
  /-- The databases, asked for under a key of the moment. -/
  | databases (key : String) (rows : Rows) (attr : DBSession.Value)
  | expand (node : Label)
  /-- The answer to a request. -/
  | menu (key retType : String) (rows : Rows) (attr : DBSession.Value)
  | sqls (key : String) (items : List SavedSql)
  | rename (key newName : String)
  | drop (key : String)
  | search (filter : String)

section Step

variable (toLowerCase : String → String) (b : Browser)

/-- `setTreeData`, with the effect on the tree that is shown. -/
def Browser.setTreeData (treeData : Forest Label) : Browser :=
  { b with treeData, filteredData := treeData }

/-- The effect of the search text runs when it has changed. -/
def Browser.setFilter (filter : String) : Browser :=
  if filter = b.filter then b
  else { b with filter, filteredData := filterNodes toLowerCase filter b.treeData }

def receivedAs (retType : String) (items : List Rows.MenuItem) : Forest Label :=
  if retType = "columnsMenu" then receivedColumns items else received items

def step : Action → Option Browser
  | .databases key rows attr =>
    match rows.rowsToMenuJson key "databaseMenu" attr with
    | .returned items => some (b.setTreeData (received items))
    | _ => none
  | .expand node =>
    some { b with asked := (commandOf b.filteredData node).toList.map (fun c => (c.key, c.retType)) ++ b.asked }
  | .menu key retType rows attr =>
    match rows.rowsToMenuJson key retType attr with
    | .returned items =>
      some (b.setTreeData (updateNodeByKey key (receivedAs retType items) b.treeData))
    | _ => none
  | .sqls key items => some (b.setTreeData (updateNodeByKey key (sqlMenus key items) b.treeData))
  | .rename key newName =>
    let (found, treeData) := updateTreeNodeByKey key (fun a => { a with title := some newName }) b.treeData
    some (if found then b.setTreeData treeData else b)
  | .drop key => some (b.setTreeData (deleteTreeNodeByKey key b.treeData))
  | .search filter => some (b.setFilter toLowerCase filter)

end Step

def start : Browser := ⟨.nil, "", .nil, []⟩

/-! ## What is expected -/

/-- The key of the databases has no dash, a node is expanded where it is shown, and answers are answers to
requests; the ids of saved queries are distinct and equally long. -/
def Valid (b : Browser) : Action → Prop
  | .databases key _ _ => '-' ∉ key.toList
  | .expand node => node ∈ b.filteredData.labels
  | .menu key retType _ _ => (key, retType) ∈ b.asked
  | .sqls _ items => (items.map SavedSql.id).Nodup ∧ ∀ x ∈ items, ∀ y ∈ items, x.id.length = y.id.length
  | _ => True

/-- A label at or above a match, or below a match with no other match below it. -/
def Shows (toLowerCase : String → String) (filter : String) (f : Forest Label) (b : Label) : Prop :=
  (∃ anc cs, Forest.Lies f anc b cs ∧ ∃ c ∈ b :: cs.labels, nameMatches toLowerCase filter c = true) ∨
  ∃ anc a ds, Forest.Lies f anc a ds ∧ nameMatches toLowerCase filter a = true ∧
    (∀ c ∈ ds.labels, nameMatches toLowerCase filter c = false) ∧ b ∈ ds.labels

/-- The request for a node below the databases `d`, with the node `parent` above it. -/
def expected (d parent node : Label) : Option Command :=
  if node.menuType ∈ databaseMenus then
    some { key := node.key, retType := node.menuType, database := d.title, tableName := none }
  else if node.menuType ∈ tableMenus then
    some { key := node.key, retType := node.menuType, database := d.title, tableName := parent.title }
  else none

end ObjectTree

end NextDBM
