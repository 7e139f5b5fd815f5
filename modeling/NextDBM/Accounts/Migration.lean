import NextDBM.Access.Requests
import NextDBM.Accounts.PropertyCache
import NextDBM.Gate.Security
import NextDBM.Library.ListOrders

/-!
# The migration gate

When the server starts, `Migrate` compares the version in the properties with the version of the
program and runs the migrations for an older one. It compares the versions as texts; the update check
of the same program compares them with `CompareVersions`, number by number.
-/

namespace NextDBM

/-! ## `CompareVersions` -/

/-- The comparison of one part; `rest` is the result of the parts that follow. -/
def comparePart (v1Num v2Num rest : Int) : Int :=
  if v1Num < v2Num then -1 else if v1Num > v2Num then 1 else rest

/-- The number of the first part; a missing part counts as 0. -/
def firstNum : List String → Int
  | [] => 0
  | p :: _ => stringToInt p

/-- The loop when the first version has no more parts. -/
def compareMissing : List String → Int
  | [] => 0
  | q :: qs => comparePart 0 (stringToInt q) (compareMissing qs)

/-- The loop over the parts. -/
def compareParts : List String → List String → Int
  | [], qs => compareMissing qs
  | p :: ps, qs => comparePart (stringToInt p) (firstNum qs) (compareParts ps qs.tail)

/-- `strings.TrimPrefix(v, "v")` -/
def trimPrefixV (v : String) : String :=
  if Text.hasPrefix v "v" then String.ofList (v.toList.drop 1) else v

def compareVersions (v1 v2 : String) : Int :=
  compareParts (Text.split (trimPrefixV v1) '.') (Text.split (trimPrefixV v2) '.')

/-! ## The migrations -/

structure MigrateStore where
  properties : PropertyStore
  /-- The column `create_dir` of the table of strategies. -/
  createDirs : List (Option String) := []
  /-- `resource_sharers`, a table of the versions before 1.3.0; later databases do not have it. -/
  resourceSharers : Option (List ResourceSharer) := none

/-- Which statements the database serves, and how the mapper is set up. -/
structure MigrateCalls where
  findVersion : Bool := true
  updateStrategies : Bool := true
  selectSharers : Bool := true
  /-- `DeleteById` for the `i`-th old row. -/
  deleteAuthorised : Nat → Bool := fun _ => true
  createAuthorised : Bool := true
  dropSharers : Bool := true
  findProperty : Bool := true
  writeProperty : Bool := true
  commitProperty : Bool := true
  skipDefaultTransaction : Bool := false

namespace Migration

open MigrateService (authorisedOf)

/-- The loop over the old rows deletes the new row of each; a failing one ends it. -/
def deleteAuthorised (calls : MigrateCalls) (db : Database) :
    List (ResourceSharer × Nat) → Except Error Unit × Database
  | [] => (.ok (), db)
  | (result, i) :: results =>
    if calls.deleteAuthorised i then
      deleteAuthorised calls (AuthorisedRepository.deleteById db (authorisedOf result).id) results
    else (.error databaseFault, db)

/-- `AuthorisedRepository.CreateInBatches` -/
def createAuthorised (calls : MigrateCalls) (db : Database) (items : List Authorised) :
    Except Error Unit × Database :=
  if calls.createAuthorised then
    match db.authorised.insertInBatches 100 items with
    | (authorised, true) => (.ok (), { db with authorised })
    | (authorised, false) =>
      (.error .duplicatedKey, if calls.skipDefaultTransaction then { db with authorised } else db)
  else (.error databaseFault, db)

/-- The second half of `migrateFormV127to130`: the rows of the old table become rows of the new one. -/
def moveSharers (calls : MigrateCalls) (s : MigrateStore) (sharers : List ResourceSharer) :
    Except Error Unit × MigrateStore :=
  let results := sharers.filter fun r => r.resourceType == "asset"
  match deleteAuthorised calls s.properties.db results.zipIdx with
  | (.error e, db) => (.error e, { s with properties := { s.properties with db } })
  | (.ok (), db) =>
    match createAuthorised calls db (results.map authorisedOf) with
    | (.error e, db) => (.error e, { s with properties := { s.properties with db } })
    | (.ok (), db) =>
      let s := { s with properties := { s.properties with db } }
      if calls.dropSharers then (.ok (), { s with resourceSharers := none })
      else (.error databaseFault, s)

/-- `migrateFormV127to130`; what its statements have done stays when a later one fails. -/
def migrateFormV127to130 (calls : MigrateCalls) (s : MigrateStore) (localVersion : String) :
    Except Error Unit × MigrateStore :=
  if !Text.hasInfix localVersion "beta" && decide ("v1.3.0" < localVersion) then (.ok (), s)
  else if !calls.updateStrategies then (.error databaseFault, s)
  else
    let s := { s with createDirs := s.createDirs.map fun createDir =>
      if createDir = some "" then some "0" else createDir }
    match s.resourceSharers with
    | none => (.ok (), s)
    | some sharers => if calls.selectSharers then moveSharers calls s sharers else (.ok (), s)

/-- `PropertyService.Update` of the version. -/
def updateVersion (calls : MigrateCalls) (s : MigrateStore) (version : String) :
    Except Error Unit × MigrateStore :=
  let item : PropertyItem :=
    { key := "version", text := version, findServed := calls.findProperty,
      writeServed := calls.writeProperty }
  match PropertyCache.updateItems s.properties.db s.properties.manager [item] with
  | (.ok db, manager) =>
    if calls.commitProperty then (.ok (), { s with properties := { db, manager } })
    else (.error databaseFault, { s with properties := { s.properties with manager } })
  | (.error e, manager) => (.error e, { s with properties := { s.properties with manager } })

/-- A run of `Migrate`: whether it comes to the migrations, what it returns, and what it leaves. -/
structure Run where
  migrated : Bool
  result : Except Error Unit
  store : MigrateStore

/-- The part of `Migrate` after the gate. -/
def runMigrations (calls : MigrateCalls) (version : String) (s : MigrateStore)
    (localVersion : String) : Run :=
  match migrateFormV127to130 calls s localVersion with
  | (.error e, s) => { migrated := true, result := .error e, store := s }
  | (.ok (), s) =>
    let (result, s) := updateVersion calls s version
    { migrated := true, result, store := s }

/-- `Migrate` of a program with a version. -/
def migrate (calls : MigrateCalls) (version : String) (s : MigrateStore) : Run :=
  match PropertyCache.findByName s.properties.db
      { key := "version", text := "", findServed := calls.findVersion } with
  | .error .recordNotFound => runMigrations calls version s ""
  | .error e => { migrated := false, result := .error e, store := s }
  | .ok property =>
    if property.value < version then runMigrations calls version s property.value
    else { migrated := false, result := .ok (), store := s }

end Migration

/-! ## Versions -/

/-- A version: numbers of any width, as texts. -/
structure Version where
  parts : List String
  nonempty : parts ≠ []
  digits : ∀ p ∈ parts, p ≠ "" ∧ p.toList.all Char.isDigit = true

/-- The version with a `v` and dots. -/
def Version.text (v : Version) : String := "v" ++ Text.join "." v.parts

/-- The gate decides for a stored version by `CompareVersions`, and a successful run of the
migrations stores the version of the program. -/
def GateAgrees (localVersion version : String) : Prop :=
  ∀ (calls : MigrateCalls) (s : MigrateStore), calls.findVersion = true →
    PropertyStore.stored s.properties.db "version" = some localVersion →
      ((Migration.migrate calls version s).migrated = true ↔
          compareVersions localVersion version = -1) ∧
        ((Migration.migrate calls version s).migrated = true →
          (Migration.migrate calls version s).result = .ok () →
            PropertyStore.stored (Migration.migrate calls version s).store.properties.db
              "version" = some version)

/-- The condition on the parts of the two versions: where they first differ, the order of the texts
is the order of the numbers, or, when the numbers are the same, that of the parts that follow; and the
parts that only the second version has are not all 0. -/
def OrderedAsText : List String → List String → Prop
  | [], qs => qs = [] ∨ ∃ q ∈ qs, stringToInt q ≠ 0
  | _ :: _, [] => True
  | p :: ps, q :: qs =>
    if p = q then OrderedAsText ps qs
    else if stringToInt p = stringToInt q then (p < q ↔ compareParts ps qs = -1)
    else (p < q ↔ stringToInt p < stringToInt q)

/-! ## The order of versions

`CompareVersions` decides whether a release is newer than the program. It should order the texts of
versions by their numbers.
-/

/-- Digits of a number that fits in an `int`. -/
structure Numeral where
  digits : String
  value : Nat
  reads : IPv4.decimal digits = some value
  fits : value < 2 ^ 63

def Numeral.zero : Numeral := ⟨"0", 0, by decide, by decide⟩

/-- Numerals with dots between them, perhaps after a `v`. -/
structure VersionText where
  prefixed : Bool
  first : Numeral
  others : List Numeral

namespace VersionText

def numerals (v : VersionText) : List Numeral := v.first :: v.others

/-- The text without a `v`. -/
def bare (v : VersionText) : String := Text.join "." (v.numerals.map Numeral.digits)

def text (v : VersionText) : String := (if v.prefixed then "v" else "") ++ v.bare

/-- The numbers of the parts, padded with zeros, in the lexicographic order. -/
def key (v : VersionText) : Lex (ℕ → ℕ) := PaddedOrder.padded 0 (v.numerals.map Numeral.value)

end VersionText

/-- `.0`, `n` times. -/
def zeroParts : Nat → String
  | 0 => ""
  | n + 1 => zeroParts n ++ ".0"

/-- `CompareVersions` orders versions by their numbers. -/
structure IsVersionOrder : Prop where
  refl : ∀ a : VersionText, compareVersions a.text a.text = 0
  antisymm : ∀ a b : VersionText, compareVersions a.text b.text = -compareVersions b.text a.text
  trans : ∀ a b c : VersionText, compareVersions a.text b.text ≤ 0 →
    compareVersions b.text c.text ≤ 0 → compareVersions a.text c.text ≤ 0
  less : ∀ a b : VersionText, compareVersions a.text b.text = -1 ↔ a.key < b.key
  same : ∀ a b : VersionText, compareVersions a.text b.text = 0 ↔ a.key = b.key
  greater : ∀ a b : VersionText, compareVersions a.text b.text = 1 ↔ b.key < a.key
  unprefixed : ∀ a b : VersionText, compareVersions ("v" ++ a.bare) b.text = compareVersions a.bare b.text
  zeros : ∀ (a b : VersionText) (n : Nat),
    compareVersions (a.text ++ zeroParts n) b.text = compareVersions a.text b.text

end NextDBM
