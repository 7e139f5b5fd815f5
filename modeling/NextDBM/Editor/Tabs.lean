import NextDBM.Library.Runs

/-!
# The tabs of the editor

The list of tabs and the key of the active one are two states of `visibilityProvider.js`. A handler works
on the values of the render that made it: one that runs behind a dialogue or a request sets what it was
shown, not what is there when it runs. The tabs themselves are objects that the renders share; some
setters write them in place, others put a copy in the list.
-/

namespace NextDBM

namespace Tabs

open Transition

inductive SqlEditMode
  | editor | filter | diff | designer | view | function | procedure | er
deriving DecidableEq

/-- A tab; `V` holds the values of its tables. -/
structure Tab (V : Type) where
  id : String
  type : SqlEditMode
  title : String
  content : String := "Content " ++ id
  sql : String := ""
  assetId : String := ""
  askAi : Bool := false
  selectSql : String := ""
  whereText : String := ""
  orderBy : String := ""
  rows : List V := []
  headers : List V := []
  csvData : List V := []
  results : List V := []
  query : String := ""
  dbName : String := ""
  tableName : String := ""
  erUrl : String := ""
  tableStruct : List V := []
  srcObj : Option String := none
  distObj : Option String := none

/-- The argument of `addTab`; a text that is missing is empty, which the code reads in the same way. -/
structure TabParams where
  type : SqlEditMode
  key : Option String := none
  title : String := ""
  sql : String := ""
  assetId : String := ""
  dbName : String := ""
  tableName : String := ""
  erUrl : String := ""

/-- What one render holds: the objects of the list and the active key. -/
structure Render where
  tabs : List Nat
  tabIndex : String

/-! ## The setters -/

inductive Setter (V : Type)
  | setTabValue (sql : String)
  | setAskAi (askAi : Bool)
  | setTabSelectSql (selectSql : String)
  | setTabAttrs (dbName : String)
  | setTabAppleValue (sql : String)
  | setTabWhere (whereText : String)
  | setTabOrderBy (orderBy : String)
  | setTabRows (rows : List V)
  | setTabHeaders (headers : List V)
  | setTabQuery (query : String)
  | setTabResults (results : List V)
  | setTableStruct (tableStruct : List V)
  | setTabSQL (sql : String)
  | setTabCSVData (csvData : List V)
  | setTabName (name : String)
  | setTabSrcObjDisObjReset

namespace Setter

variable {V : Type}

def write : Setter V → Tab V → Tab V
  | .setTabValue sql, tab => { tab with sql }
  | .setAskAi askAi, tab => { tab with askAi }
  | .setTabSelectSql selectSql, tab => { tab with selectSql }
  -- The one caller passes `{dbName}`.
  | .setTabAttrs dbName, tab => { tab with dbName }
  | .setTabAppleValue sql, tab => { tab with sql := tab.sql ++ "\r\n" ++ sql }
  | .setTabWhere whereText, tab => { tab with whereText }
  | .setTabOrderBy orderBy, tab => { tab with orderBy }
  | .setTabRows rows, tab => { tab with rows }
  | .setTabHeaders headers, tab => { tab with headers }
  | .setTabQuery query, tab => { tab with query }
  | .setTabResults results, tab => { tab with results }
  | .setTableStruct tableStruct, tab => { tab with tableStruct }
  | .setTabSQL sql, tab => { tab with sql }
  | .setTabCSVData csvData, tab => { tab with csvData }
  | .setTabName title, tab => { tab with title }
  | .setTabSrcObjDisObjReset, tab => { tab with srcObj := some "", distObj := some "", results := [] }

/-- `{ ...tab, … }`: the list gets a new object, and the old one stays as it is. -/
def copies : Setter V → Bool
  | .setTabValue _ | .setTabAttrs _ | .setTabCSVData _ => true
  | _ => false

/-- A `try` around the loop. -/
def catches : Setter V → Bool
  | .setTabValue _ | .setAskAi _ | .setTabSelectSql _ | .setTabAttrs _ => true
  | _ => false

/-- Its `setTabs` stands in a comment. -/
def rerenders : Setter V → Bool
  | .setTabSelectSql _ => false
  | _ => true

end Setter

/-! ## The objects -/

section Objects

variable {V : Type} (heap : List (Tab V))

def idOf (tab : Nat) : Option String := heap[tab]?.map Tab.id

def ids (tabs : List Nat) : List (Option String) := tabs.map (idOf heap)

/-- The test of `filter` for the first tab of a key. -/
def getTabByID (tabs : List Nat) (key : String) : Option Nat :=
  tabs.find? fun tab => idOf heap tab == some key

def writeAt (s : Setter V) (tab : Nat) : List (Tab V) × Nat :=
  if s.copies then (heap ++ heap[tab]?.toList.map s.write, heap.length)
  else (heap.modify tab s.write, tab)

/-- The loop `tabs.map` of a setter. -/
def writeAll (s : Setter V) (key : String) : List (Tab V) → List Nat → List (Tab V) × List Nat
  | heap, [] => (heap, [])
  | heap, tab :: tabs =>
    let (heap, tab) := if idOf heap tab = some key then writeAt heap s tab else (heap, tab)
    let (heap, tabs) := writeAll s key heap tabs
    (heap, tab :: tabs)

/-- The position before the last tab of the key; −1 without one. -/
def lastIndex (tabs : List Nat) (targetKey : String) : Int :=
  tabs.zipIdx.foldl (fun last (tab, i) => if idOf heap tab = some targetKey then i - 1 else last) (-1)

/-- `removeTab`, with `none` where it takes the `id` of a tab that is not there. -/
def removeTab (r : Render) (targetKey : String) : Option Render :=
  let newPanes := r.tabs.filter fun tab => idOf heap tab != some targetKey
  let last := lastIndex heap r.tabs targetKey
  if newPanes ≠ [] ∧ r.tabIndex = targetKey then
    let chosen := if 0 ≤ last then newPanes[last.toNat]? else newPanes[0]?
    (chosen.bind (idOf heap)).map fun newActiveKey => ⟨newPanes, newActiveKey⟩
  else some ⟨newPanes, r.tabIndex⟩

end Objects

/-- A text, or another one in its place when it is empty. -/
def orElse (text other : String) : String := if text = "" then other else text

/-- The object that `addTab` pushes. -/
def newTab {V : Type} (params : TabParams) (title newActiveKey : String) : Tab V where
  id := newActiveKey
  title := title
  type := params.type
  sql := params.sql
  assetId := params.assetId
  dbName := params.dbName
  tableName := params.tableName
  erUrl := params.erUrl

/-! ## The handlers -/

inductive Handler (V : Type)
  /-- `addTab`, and the date that it takes for a missing title -/
  | addTab (params : TabParams) (date : String)
  | set (setter : Setter V)
  /-- the end of a renaming in the tree: `getTabByID`, then `setTabNameByTabIndex` -/
  | renameNode (id name : String)

/-- What waits, with the render that it was made in. -/
inductive Work (V : Type)
  /-- the first effect, for its id -/
  | loaded
  /-- `addTab`, for the id of a tab without a key -/
  | opened (params : TabParams) (title : String)
  /-- `closeTab`, for the answer to "close?" -/
  | closing (targetKey : String)
  /-- a handler, for a name or for the end of a request -/
  | handler (h : Handler V)

structure Waiting (V : Type) where
  held : Render
  work : Work V

structure Panel (V : Type) where
  heap : List (Tab V)
  render : Render
  /-- Everything that was ever to wait, each at its own place. -/
  waiting : List (Option (Waiting V))
  /-- A handler has thrown a TypeError that nothing catches. -/
  failed : Bool

namespace Panel

variable {V : Type} (p : Panel V)

def fail : Panel V := { p with failed := true }

def setTabIndex (key : String) : Panel V := { p with render := ⟨p.render.tabs, key⟩ }

def setTabs (tabs : List Nat) : Panel V := { p with render := ⟨tabs, p.render.tabIndex⟩ }

def wait (held : Render) (work : Work V) : Panel V :=
  { p with waiting := p.waiting ++ [some ⟨held, work⟩] }

/-- `push` on a copy of the list, and the two states set. -/
def push (held : Render) (tab : Tab V) : Panel V :=
  { p with heap := p.heap ++ [tab], render := ⟨held.tabs ++ [p.heap.length], tab.id⟩ }

/-- The body of the setters, for the tab of a key. -/
def assign (held : Render) (key : String) (s : Setter V) : Panel V :=
  if held.tabs ≠ [] ∧ getTabByID p.heap held.tabs key = none then
    -- `getTabByID(key).id`
    if s.catches then p else p.fail
  else
    let (heap, tabs) := writeAll s key p.heap held.tabs
    if s.rerenders then { p with heap }.setTabs tabs else { p with heap }

/-- Work that waits for the id of a new tab. -/
def request (held : Render) (params : TabParams) (date : String) : Panel V :=
  p.wait held (.opened params (orElse params.title date))

def addTab (held : Render) (params : TabParams) (date : String) : Panel V :=
  match params.key with
  | none => p.request held params date
  | some key =>
    match getTabByID p.heap held.tabs key with
    | some _ => p.setTabIndex key
    | none =>
      if key = "" then p.request held params date
      else p.push held (newTab params (orElse params.title date) key)

def closeTab (held : Render) (targetKey : String) : Panel V :=
  match removeTab p.heap held targetKey with
  | some render => { p with render }
  | none => p.fail

def handle (held : Render) : Handler V → Panel V
  | .addTab params date => p.addTab held params date
  | .set s => p.assign held held.tabIndex s
  | .renameNode id name =>
    match getTabByID p.heap held.tabs id with
    | some _ => p.assign held id (.setTabName name)
    | none => p

/-- The end of the first effect: the copies of the tabs of the first render, under the new id. -/
def load (held : Render) (newId : String) : Panel V :=
  let updatedItems := (held.tabs.filterMap (p.heap[·]?)).map fun item => { item with id := newId }
  { p with heap := p.heap ++ updatedItems
           render := ⟨List.range' p.heap.length updatedItems.length, newId⟩ }

end Panel

/-! ## Runs -/

inductive Button
  | ok | cancel

/-- `onOk` and `onCancel` of `showConfirmModal`. -/
def showConfirmModal {α : Type} (callback : Bool → α) : Button → α
  | .ok => callback true
  | .cancel => callback false

inductive Action (V : Type)
  /-- `setTabIndex`, for a tab that is shown -/
  | select (key : String)
  /-- A handler runs with the render of the moment. -/
  | run (h : Handler V)
  /-- A handler is handed to a dialogue for a name or to a request. -/
  | postpone (h : Handler V)
  /-- `onEdit` of the closing cross -/
  | edit (targetKey : String)
  /-- the item "close" of the menus of the tabs -/
  | closeItem
  /-- `onDragEnd`: the tabs in another order -/
  | drag (tabs : List Nat)
  /-- The server sends an id, or the dialogue and the request of a handler have ended. -/
  | settle (place : Nat) (newId : String)
  /-- The question whether to close a tab is answered. -/
  | answer (place : Nat) (button : Button)

section Step

variable {V : Type} (p : Panel V)

/-- `onEdit` asks before it closes a tab with texts. -/
def Panel.edit (targetKey : String) : Panel V :=
  match (getTabByID p.heap p.render.tabs targetKey).bind (p.heap[·]?) with
  | none => p.fail
  | some tab =>
    if 0 < tab.sql.length ∨ 0 < tab.whereText.length ∨ 0 < tab.orderBy.length then
      p.wait p.render (.closing targetKey)
    else p.closeTab p.render targetKey

/-- The work of a place is no longer to do. -/
def Panel.done (place : Nat) : Panel V := { p with waiting := p.waiting.set place none }

def Panel.settle (place : Nat) (newId : String) : Option (Panel V) :=
  match p.waiting[place]? with
  | some (some ⟨held, .loaded⟩) => some ((p.done place).load held newId)
  | some (some ⟨held, .opened params title⟩) =>
    some ((p.done place).push held (newTab params title newId))
  | some (some ⟨held, .handler h⟩) => some ((p.done place).handle held h)
  | _ => none

def Panel.answer (place : Nat) (button : Button) : Option (Panel V) :=
  match p.waiting[place]? with
  | some (some ⟨held, .closing targetKey⟩) =>
    -- The callback does not look at its argument.
    some (showConfirmModal (fun _ => (p.done place).closeTab held targetKey) button)
  | _ => none

def step : Action V → Option (Panel V)
  | .select key =>
    if some key ∈ ids p.heap p.render.tabs then some (p.setTabIndex key) else none
  | .run h => some (p.handle p.render h)
  | .postpone h => some (p.wait p.render (.handler h))
  | .edit targetKey => if some targetKey ∈ ids p.heap p.render.tabs then some (p.edit targetKey) else none
  | .closeItem => some (p.wait p.render (.closing p.render.tabIndex))
  | .drag tabs =>
    if tabs.Perm p.render.tabs then some (p.setTabs tabs) else none
  | .settle place newId => p.settle place newId
  | .answer place button => p.answer place button

end Step

/-- The first render, with its effect under way. -/
def start {V : Type} (date : String) : Panel V where
  heap := [{ id := "0", type := .editor, title := date, content := "Content 1" }]
  render := ⟨[0], "0"⟩
  waiting := [some ⟨⟨[0], "0"⟩, .loaded⟩]
  failed := false

/-! ## What is expected -/

section Expected

variable {V : Type}

/-- The keys are distinct, and the active key is that of a tab unless there is none. -/
structure Consistent (heap : List (Tab V)) (r : Render) : Prop where
  stored : ∀ tab ∈ r.tabs, tab < heap.length
  distinct : (ids heap r.tabs).Nodup
  active : r.tabs ≠ [] → some r.tabIndex ∈ ids heap r.tabs

/-- The active tab is one of the tabs that were shown then. -/
def Panel.StillShown (p : Panel V) (held : Render) : Prop :=
  held.tabs ≠ [] → some p.render.tabIndex ∈ ids p.heap held.tabs

/-- What a handler sets agrees with what it leaves: a list with the active tab, a key of the list. -/
def Handler.Fits (p : Panel V) (held : Render) : Handler V → Prop
  | .addTab params _ => ∀ key ∈ params.key, some key ∈ ids p.heap held.tabs →
      p.render.tabs ≠ [] → some key ∈ ids p.heap p.render.tabs
  | .set s => s.rerenders = true → p.StillShown held
  | .renameNode id _ => some id ∈ ids p.heap held.tabs → p.StillShown held

def Work.Fits (p : Panel V) (held : Render) (newId : String) : Work V → Prop
  | .opened _ _ => some newId ∉ ids p.heap held.tabs
  | .handler h => h.Fits p held
  | _ => True

/-- The server sends new ids, and what was held back still fits. -/
def Fair (p : Panel V) : Action V → Prop
  | .settle place newId => ∀ w ∈ p.waiting[place]?.join, w.work.Fits p w.held newId
  | _ => True

instance (p : Panel V) (held : Render) : Decidable (p.StillShown held) :=
  inferInstanceAs (Decidable (_ ≠ _ → _ ∈ _))

instance (p : Panel V) (held : Render) : (h : Handler V) → Decidable (h.Fits p held)
  | .addTab params _ => inferInstanceAs (Decidable (∀ _ ∈ params.key, _ ∈ _ → _ ≠ _ → _ ∈ _))
  | .set _ => inferInstanceAs (Decidable (_ = _ → _))
  | .renameNode _ _ => inferInstanceAs (Decidable (_ ∈ _ → _))

instance (p : Panel V) (held : Render) (newId : String) : (w : Work V) → Decidable (w.Fits p held newId)
  | .loaded | .closing _ => inferInstanceAs (Decidable True)
  | .opened _ _ => inferInstanceAs (Decidable (¬ _ ∈ _))
  | .handler h => inferInstanceAs (Decidable (h.Fits p held))

instance (p : Panel V) : (a : Action V) → Decidable (Fair p a)
  | .settle _ _ => inferInstanceAs (Decidable (∀ _ ∈ _, _))
  | .select _ | .run _ | .postpone _ | .edit _ | .closeItem | .drag _ | .answer _ _ =>
    inferInstanceAs (Decidable True)

/-- The tab that a key shows. -/
def Panel.shown (p : Panel V) (key : String) : Option (Tab V) :=
  (getTabByID p.heap p.render.tabs key).bind (p.heap[·]?)

/-- The setters of a list, one after the other. -/
def typing (ss : List (Setter V)) : List (Action V) := ss.map fun s => .run (.set s)

/-- The action is the end of the work at a place. -/
def Action.Ends (place : Nat) : Action V → Prop
  | .settle n _ | .answer n _ => n = place
  | _ => False

end Expected

end Tabs

end NextDBM
