import NextDBM.Accounts.References
import NextDBM.Library.Runs

/-!
# The cache of the properties

The proxy reads its switches and its ports from `cache.PropertyManager`. `Reload` fills it from the
table when the server starts; `Update` writes to it while its transaction is open.
-/

namespace NextDBM

open Transition

abbrev PropertyManager : Type := String → Option String

/-- An entry of the map that `Update` is given, and which of the statements for it the database
serves. -/
structure PropertyItem where
  key : String
  /-- The value as `Sprintf` prints it. -/
  text : String
  deleteServed : Bool := true
  findServed : Bool := true
  writeServed : Bool := true

namespace PropertyItem

def value (item : PropertyItem) : String := if item.text = "" then "-" else item.text

def property (item : PropertyItem) : Property := { name := item.key, value := item.value }

end PropertyItem

namespace PropertyCache

/-! ## Which keys are cached -/

/-- `.*` and a literal, from here on; the dot is any character but the end of a line. -/
def dotStar (literal : List Char) : List Char → Bool
  | [] => literal.isPrefixOf []
  | c :: cs => literal.isPrefixOf (c :: cs) || (c != '\n' && dotStar literal cs)

/-- `keyPattern.MatchString`, with `enable-auto-start-|.*-proxy-port` tried at every place. -/
def keyPattern (key : String) : Bool :=
  key.toList.tails.any fun cs =>
    "enable-auto-start-".toList.isPrefixOf cs || dotStar "-proxy-port".toList cs

def targetPatterns : List String := ["enable-auto-start-", "-proxy-port"]

/-- The test of `Reload`. -/
def isTarget (key : String) : Bool := targetPatterns.any fun pattern => Text.hasInfix key pattern

/-! ## `Reload` -/

def reloadOne (manager : PropertyManager) (p : Property) : PropertyManager :=
  if isTarget p.name then Function.update manager p.name (some p.value) else manager

/-- `Reload`; the map has every name once, so that the order of its loop does not matter. -/
def reload (db : Database) (manager : PropertyManager) : PropertyManager :=
  db.properties.rows.foldl reloadOne manager

/-! ## `Update` -/

/-- The answer of a statement. -/
def serve {α : Type} (served : Bool) (x : Except Error α) : Except Error α :=
  if served then x else .error databaseFault

def deleteLdapUsers (db : Database) (item : PropertyItem) : Except Error Database :=
  if item.key = "enable-ldap" ∧ item.value = "false" then
    serve item.deleteServed (.ok (UserService.deleteAllLdapUser db))
  else .ok db

def cacheItem (manager : PropertyManager) (item : PropertyItem) : PropertyManager :=
  if keyPattern item.key then Function.update manager item.key (some item.value) else manager

def findByName (db : Database) (item : PropertyItem) : Except Error Property :=
  serve item.findServed (firstOrNotFound (db.properties.findById item.key))

/-- Every other error of `FindByName` than that there is no such record counts as a find. -/
def writeItem (db : Database) (item : PropertyItem) : Except Error Database :=
  match findByName db item with
  | .error .recordNotFound =>
    serve item.writeServed (PropertyRepository.create db item.property)
  | _ => serve item.writeServed (PropertyRepository.updateByName db item.property item.key)

/-- The body of the loop. -/
def updateItem (db : Database) (manager : PropertyManager) (item : PropertyItem) :
    Except Error Database × PropertyManager :=
  match deleteLdapUsers db item with
  | .ok db => (writeItem db item, cacheItem manager item)
  | .error e => (.error e, manager)

/-- The loop, which stops at the first error. -/
def updateItems (db : Database) (manager : PropertyManager) :
    List PropertyItem → Except Error Database × PropertyManager
  | [] => (.ok db, manager)
  | item :: items =>
    match updateItem db manager item with
    | (.ok db, manager) => updateItems db manager items
    | (.error e, manager) => (.error e, manager)

end PropertyCache

/-- A call of `Update`, with the items in the order in which the loop meets them. -/
structure PropertyUpdate where
  items : List PropertyItem
  commitServed : Bool := true

structure PropertyStore where
  db : Database
  manager : PropertyManager

namespace PropertyStore

open PropertyCache

/-- The transaction around the loop; the cache is not rolled back. -/
def update (s : PropertyStore) (u : PropertyUpdate) : PropertyStore :=
  match updateItems s.db s.manager u.items with
  | (.ok db, manager) => ⟨if u.commitServed then db else s.db, manager⟩
  | (.error _, manager) => ⟨s.db, manager⟩

/-- A map has every key once. -/
def step (s : PropertyStore) (u : PropertyUpdate) : Option PropertyStore :=
  if (u.items.map (·.key)).Nodup then some (s.update u) else none

/-- The store of a server that has just started. -/
def started (db : Database) : PropertyStore := ⟨db, reload db fun _ => none⟩

def stored (db : Database) (key : String) : Option String :=
  (db.properties.findById key).map (·.value)

/-- The cache has the value of the table for the keys that `Reload` caches, and nothing else. -/
structure Agrees (s : PropertyStore) : Prop where
  targets : ∀ key, isTarget key = true → s.manager key = stored s.db key
  others : ∀ key, isTarget key = false → s.manager key = none

/-! ## The condition -/

/-- The round of an item stops with an error. -/
def Fails (db : Database) (item : PropertyItem) : Prop :=
  (item.key = "enable-ldap" ∧ item.value = "false" ∧ item.deleteServed = false) ∨
    item.writeServed = false ∨
    (item.key = "" ∧ (item.findServed = false ∨ (stored db item.key).isSome = true))

instance (db : Database) (item : PropertyItem) : Decidable (Fails db item) :=
  inferInstanceAs (Decidable (_ ∨ _ ∨ _))

/-- The items that the loop reaches. -/
def reached (db : Database) : List PropertyItem → List PropertyItem
  | [] => []
  | item :: items => if Fails db item then [item] else item :: reached db items

/-- No statement of the transaction fails. -/
def GoesThrough (s : PropertyStore) (u : PropertyUpdate) : Prop :=
  u.commitServed = true ∧ ∀ item ∈ u.items, ¬ Fails s.db item

/-- An update that goes through has looked up what it caches, and one that does not has cached only
what is in the table already. -/
def KeepsProperties (s : PropertyStore) (u : PropertyUpdate) : Prop :=
  (s.GoesThrough u → ∀ item ∈ u.items, isTarget item.key = true →
    item.findServed = true ∨ (stored s.db item.key).isSome = true) ∧
  (¬ s.GoesThrough u → ∀ item ∈ reached s.db u.items, isTarget item.key = true →
    stored s.db item.key = some item.value)

instance (s : PropertyStore) (u : PropertyUpdate) : Decidable (s.GoesThrough u) :=
  inferInstanceAs (Decidable (_ ∧ _))

instance (s : PropertyStore) (u : PropertyUpdate) : Decidable (s.KeepsProperties u) :=
  inferInstanceAs (Decidable (_ ∧ _))

end PropertyStore

end NextDBM
