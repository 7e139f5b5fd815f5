import NextDBM.Backups.Backup

/-!
# Export and import of the translations

`Export` puts the rows of all languages into one map from keys to values, under one language code. `Import`
replaces the row of the language for each key of such a map, in one transaction; the order in which it goes
through the map is not determined.
-/

namespace NextDBM

open Relational

abbrev TranslationTable : Type := Table Translations Translations.id

/-- A `map[string]string`. -/
abbrev Messages : Type := Table (String × String) Prod.fst

namespace dto

structure TranslationResponse where
  langCode : String
  messages : Messages

end dto

namespace TranslationsRepository

def findAll (t : TranslationTable) : List Translations := t.rows

def findByLangCodeKey (t : TranslationTable) (langCode translationKey : String) : Option Translations :=
  t.first fun r => r.langCode == langCode && r.translationKey == translationKey

def deleteById (t : TranslationTable) (id : String) : TranslationTable := t.deleteWhere fun r => r.id == id

end TranslationsRepository

namespace TranslationsService

open TranslationsRepository

def exportTranslations (t : TranslationTable) : dto.TranslationResponse where
  langCode := "en"
  messages := (findAll t).foldl (fun messages r => messages.put (r.translationKey, r.translationValue)) ∅

/-- The row that the round of a key deletes. -/
def deleteExisting (t : TranslationTable) (langCode k : String) : TranslationTable :=
  match findByLangCodeKey t langCode k with
  | some exist => if exist.id ≠ "" then deleteById t exist.id else t
  | none => t

/-- The row of a message. -/
def newRow (langCode newId : String) (message : String × String) : Translations where
  id := newId
  langCode := langCode
  translationKey := message.1
  translationValue := message.2

/-- A round of the loop; `newId` is what `UUID` returns in it. -/
def importMessage (langCode newId : String) (t : TranslationTable) (message : String × String) :
    Except Error TranslationTable :=
  match (deleteExisting t langCode message.1).insert (newRow langCode newId message) with
  | some t => .ok t
  | none => .error .duplicatedKey

/-- The rounds of the loop, in the order in which it goes through the map. A failed round rolls the
transaction back. -/
def importMessages (langCode : String) (uuid : String → String) (t : TranslationTable)
    (order : List (String × String)) : Except Error TranslationTable :=
  order.foldlM (fun t message => importMessage langCode (uuid message.1) t message) t

/-- What a run of `Import` does not determine itself: the order of the map, and the ids, which are new. -/
structure ImportRun (trans : dto.TranslationResponse) (t : TranslationTable) where
  order : List (String × String)
  perm : order.Perm trans.messages.rows
  uuid : String → String
  injective : Function.Injective uuid
  fresh : ∀ r ∈ t, ∀ k, r.id ≠ uuid k

/-- `Import`. -/
def importTranslations (trans : dto.TranslationResponse) (t : TranslationTable) (run : ImportRun trans t) :
    Except Error TranslationTable :=
  importMessages trans.langCode run.uuid t run.order

/-! ## Round trips -/

/-- The language, the key and the value of every row. -/
def contents (t : TranslationTable) : List (String × String × String) :=
  t.rows.map fun r => (r.langCode, r.translationKey, r.translationValue)

/-- At most one row for each language and key. -/
def OnePerKey (t : TranslationTable) : Prop :=
  (t.rows.map fun r => (r.langCode, r.translationKey)).Nodup

/-- An import of the document of an export has the rows of the export and no others, in the table itself
and in an empty one. -/
structure RoundTrip (t : TranslationTable) (same : ImportRun (exportTranslations t) t)
    (empty : ImportRun (exportTranslations t) ∅) : Prop where
  same : ∃ t', importTranslations (exportTranslations t) t same = .ok t' ∧ (contents t').Perm (contents t)
  empty : ∃ t', importTranslations (exportTranslations t) ∅ empty = .ok t' ∧ (contents t').Perm (contents t)

end TranslationsService

end NextDBM
