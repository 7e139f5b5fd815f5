import NextDBM.Library.MySqlAssignments

/-!
# The definitions of a table

`parseTableBody` reads what stands between the parentheses of a CREATE TABLE: columns, indexes, foreign
keys and primary keys, with commas between them. Of each it reads the usual form, with its options in the
usual order.
-/

namespace MySqlText

section Readers

variable {α β : Type}

/-- An item before something that stands for itself. -/
def before (f : Bytes → Option Bytes) (item : Bytes → Option (α × Bytes)) (t : Bytes) :
    Option (α × Bytes) :=
  (item t).bind fun x => (f x.2).map fun r => (x.1, r)

def mapped (g : α → β) (item : Bytes → Option (α × Bytes)) (t : Bytes) : Option (β × Bytes) :=
  (item t).map fun x => (g x.1, x.2)

def checked (p : α → Bool) (item : Bytes → Option (α × Bytes)) (t : Bytes) : Option (α × Bytes) :=
  (item t).filter fun x => p x.1

/-- An item that may be missing, after what announces it. -/
def optional (f : Bytes → Option Bytes) (item : Bytes → Option (α × Bytes)) (t : Bytes) :
    Option (Option α × Bytes) :=
  match f t with
  | none => some (none, skipSpace t)
  | some r => (item r).map fun x => (some x.1, x.2)

/-- A list in parentheses that is not empty. -/
def bracketed (item : Bytes → Option (α × Bytes)) : Bytes → Option (List α × Bytes) :=
  after (punctuation 40) (before (punctuation 41) (commas item))

end Readers

def nothing (t : Bytes) : Option (Unit × Bytes) := some ((), t)

def keywords (ws : List Bytes) (t : Bytes) : Option Bytes := ws.foldlM (fun t w => keyword w t) t

/-- Keywords that may be missing. -/
def flag (ws : List Bytes) : Bytes → Option (Bool × Bytes) :=
  mapped Option.isSome (optional (keywords ws) nothing)

/-- A word of which every byte is accepted. -/
def wordOf (p : Nat → Bool) (t : Bytes) : Option (Bytes × Bytes) :=
  checked (fun w => !w.isEmpty && w.all p) (fun t => some (word (skipSpace t))) t

def bareWord : Bytes → Option (Bytes × Bytes) := wordOf isWordByte

/-- One string literal. -/
def stringLiteral (t : Bytes) : Option (Bytes × Bytes) :=
  match skipSpace t with
  | [] => none
  | c :: t' => if isStringQuote c then delimited c isEscape t' else none

def comment : Bytes → Option (Option Bytes × Bytes) := optional (keyword (ascii "COMMENT")) stringLiteral

/-! ## Types -/

def lower (w : Bytes) : Bytes := w.map fun c => if 65 ≤ c ∧ c ≤ 90 then c + 32 else c

/-- Types of numbers with a fraction. -/
def fractionTypes : List Bytes :=
  [ascii "decimal", ascii "dec", ascii "numeric", ascii "fixed", ascii "float", ascii "double", ascii "real"]

def integerTypes : List Bytes :=
  [ascii "tinyint", ascii "smallint", ascii "mediumint", ascii "int", ascii "integer", ascii "bigint"]

/-- Types that must have a length. -/
def sizedTypes : List Bytes := [ascii "varchar", ascii "varbinary"]

/-- Other types that may have a length. -/
def sizableTypes : List Bytes :=
  [ascii "bit", ascii "char", ascii "binary", ascii "text", ascii "blob", ascii "year", ascii "time",
    ascii "datetime", ascii "timestamp"]

/-- Types without arguments. -/
def plainTypes : List Bytes :=
  [ascii "bool", ascii "boolean", ascii "date", ascii "json", ascii "tinytext", ascii "mediumtext",
    ascii "longtext", ascii "tinyblob", ascii "mediumblob", ascii "longblob", ascii "geometry",
    ascii "point", ascii "linestring", ascii "polygon", ascii "multipoint", ascii "multilinestring",
    ascii "multipolygon", ascii "geometrycollection", ascii "geomcollection"]

/-- The type may have so many numbers for arguments. -/
def takesArguments (type : Bytes) (n : Nat) : Bool :=
  let type := lower type
  fractionTypes.contains type && (n == 0 || n == 2) ||
    fractionTypes.contains type && type != ascii "double" && type != ascii "real" && n == 1 ||
    (integerTypes.contains type || sizableTypes.contains type) && decide (n ≤ 1) ||
    sizedTypes.contains type && n == 1 || plainTypes.contains type && n == 0

def isNumberType (type : Bytes) : Bool :=
  fractionTypes.contains (lower type) || integerTypes.contains (lower type)

/-! ## Definitions -/

/-- A column. Whether it may be null, and its default, are read but are not part of it. -/
structure Column where
  name : Bytes
  type : Bytes
  arguments : List Bytes
  unsigned : Bool
  zerofill : Bool
  autoIncrement : Bool
  comment : Option Bytes
  deriving DecidableEq, Repr

/-- The arguments are numbers, of which the type takes so many, and only a number can be unsigned. -/
def Column.isSound (c : Column) : Bool :=
  c.arguments.all (fun w => !w.isEmpty && w.all isDigit) && takesArguments c.type c.arguments.length &&
    (!(c.unsigned || c.zerofill) || isNumberType c.type)

inductive IndexKind where
  | unique
  | fulltext
  | spatial
  deriving DecidableEq, Repr

structure Index where
  kind : Option IndexKind
  name : Option Bytes
  columns : List Bytes
  keyBlockSize : Option Bytes
  method : Option Bytes
  withParser : Option Bytes
  comment : Option Bytes
  deriving DecidableEq, Repr

inductive Action where
  | cascade
  | setNull
  | noAction
  | restrict
  deriving DecidableEq, Repr

structure ForeignKey where
  name : Bytes
  columns : List Bytes
  database : Bytes
  table : Bytes
  references : List Bytes
  onDelete : Option Action
  onUpdate : Option Action
  deriving DecidableEq, Repr

inductive Definition where
  | column (c : Column)
  | index (i : Index)
  | foreignKey (k : ForeignKey)
  | primaryKey (columns : List Bytes)
  deriving DecidableEq, Repr

def Action.words : Action → List Bytes
  | .cascade => [ascii "CASCADE"]
  | .setNull => [ascii "SET", ascii "NULL"]
  | .noAction => [ascii "NO", ascii "ACTION"]
  | .restrict => [ascii "RESTRICT"]

def action (t : Bytes) : Option (Action × Bytes) :=
  [Action.cascade, .setNull, .noAction, .restrict].findSome? fun a => (keywords a.words t).map fun r => (a, r)

def IndexKind.keyword : IndexKind → Bytes
  | .unique => ascii "UNIQUE"
  | .fulltext => ascii "FULLTEXT"
  | .spatial => ascii "SPATIAL"

def indexKind (t : Bytes) : Option (IndexKind × Bytes) :=
  [IndexKind.unique, .fulltext, .spatial].findSome? fun k => (keyword k.keyword t).map fun r => (k, r)

def indexKeyword (t : Bytes) : Option Bytes := (keyword (ascii "INDEX") t).or (keyword (ascii "KEY") t)

section Reserved

variable (reserved : Bytes → Bool)

/-- The words before the name of an index. -/
def indexHead (t : Bytes) : Option (Option IndexKind × Bytes) :=
  match indexKind t with
  | none => (indexKeyword t).map fun r => (none, r)
  | some (k, r) => some (some k, (indexKeyword r).getD (skipSpace r))

def optionalName (t : Bytes) : Option (Option Bytes × Bytes) :=
  match name reserved t with
  | none => some (none, skipSpace t)
  | some (w, r) => some (some w, r)

def indexOptions : Bytes → Option ((Option Bytes × Option Bytes × Option Bytes × Option Bytes) × Bytes) :=
  pair (optional (fun t => (keyword (ascii "KEY_BLOCK_SIZE") t).bind (punctuation 61)) (wordOf isDigit))
    (pair (optional (keyword (ascii "USING")) bareWord)
      (pair (optional (keywords [ascii "WITH", ascii "PARSER"]) (name reserved))
        comment))

def index : Bytes → Option (Index × Bytes) :=
  mapped (fun (kind, name, columns, keyBlockSize, method, withParser, comment) =>
      { kind, name, columns, keyBlockSize, method, withParser, comment })
    (pair indexHead (pair (optionalName reserved) (pair (bracketed (name reserved)) (indexOptions reserved))))

def typeArguments : Bytes → Option (List Bytes × Bytes) :=
  mapped (fun args => args.getD []) (optional (punctuation 40) (before (punctuation 41) (commas bareWord)))

def columnParts : Bytes → Option ((Bytes × Bytes × List Bytes × Bool × Bool × Bool × Option Bytes × Bool ×
    Option Bytes) × Bytes) :=
  pair (name reserved) (pair bareWord (pair typeArguments
    (pair (flag [ascii "UNSIGNED"]) (pair (flag [ascii "ZEROFILL"])
      (pair (flag [ascii "NOT", ascii "NULL"]) (pair (optional (keyword (ascii "DEFAULT")) stringLiteral)
        (pair (flag [ascii "AUTO_INCREMENT"]) comment)))))))

def column : Bytes → Option (Column × Bytes) :=
  checked Column.isSound (mapped
    (fun (name, type, arguments, unsigned, zerofill, _, _, autoIncrement, comment) =>
      { name, type, arguments, unsigned, zerofill, autoIncrement, comment })
    (columnParts reserved))

def foreignKey : Bytes → Option (ForeignKey × Bytes) :=
  mapped (fun (name, columns, (database, table), references, onDelete, onUpdate) =>
      { name, columns, database, table, references, onDelete, onUpdate })
    (after (keyword (ascii "CONSTRAINT")) (pair (name reserved)
      (after (keywords [ascii "FOREIGN", ascii "KEY"]) (pair (bracketed (name reserved))
        (after (keyword (ascii "REFERENCES")) (pair (qualified reserved) (pair (bracketed (name reserved))
          (pair (optional (keywords [ascii "ON", ascii "DELETE"]) action)
            (optional (keywords [ascii "ON", ascii "UPDATE"]) action)))))))))

def primaryKey : Bytes → Option (List Bytes × Bytes) :=
  after (keywords [ascii "PRIMARY", ascii "KEY"]) (bracketed (name reserved))

/-- The words that an index begins with. -/
def indexWords : List Bytes :=
  [ascii "INDEX", ascii "KEY", ascii "UNIQUE", ascii "FULLTEXT", ascii "SPATIAL"]

/-- The first word says what is defined; a column begins with its name. -/
def definition (t : Bytes) : Option (Definition × Bytes) :=
  let w := (word (skipSpace t)).1
  if w = ascii "CONSTRAINT" then mapped .foreignKey (foreignKey reserved) t
  else if w = ascii "PRIMARY" then mapped .primaryKey (primaryKey reserved) t
  else if indexWords.contains w then mapped .index (index reserved) t
  else mapped .column (column reserved) t

/-- The definitions of a table, up to the parenthesis after them. -/
def parseTableBody : Bytes → Option (List Definition × Bytes) :=
  before (punctuation 41) (commas (definition reserved))

end Reserved

/-! ## What the readers settle -/

theorem skipSpace_skipSpace (t : Bytes) : skipSpace (skipSpace t) = skipSpace t := by
  cases h : skipSpace t with
  | nil => rfl
  | cons c r => exact skipSpace_cons (isSpace_of_skipSpace h) r

section Readers

variable {α β : Type} {E : Bytes → Prop} {item : Bytes → Option (α × Bytes)} {f : Bytes → Option Bytes}
  {P : α → Prop} {good good' : Prop} {s t z p : Bytes}

theorem Settles.congr (h : Settles E item s P good) {item' : Bytes → Option (α × Bytes)}
    (heq : ∀ t, item' (s ++ t) = item (s ++ t)) : Settles E item' s P good where
  reads hgood t ht := by
    rw [heq]
    exact h.reads hgood ht
  fails hbad t ht x r hread := by
    rw [heq] at hread
    exact h.fails hbad ht hread

theorem Settles.mono (h : Settles E item s P good) (hgood : good' ↔ good) {E' : Bytes → Prop}
    (hE : ∀ t, E' t → E t) : Settles E' item s P good' where
  reads hg t ht := h.reads (hgood.mp hg) (hE t ht)
  fails hbad t ht := h.fails (mt hgood.mpr hbad) (hE t ht)

/-- What is always read as it is meant is read. -/
theorem Settles.read (h : Settles E item s P True) : Settles E item s (fun _ => True) True where
  reads hgood t ht := by
    obtain ⟨x, r, hread, -, hr⟩ := h.reads hgood ht
    exact ⟨x, r, hread, trivial, hr⟩
  fails hbad := absurd trivial hbad

theorem Settles.mapped (h : Settles E item s P good) {g : α → β} {Q : β → Prop}
    (hQ : ∀ x, Q (g x) ↔ P x) : Settles E (mapped g item) s Q good where
  reads hgood t ht := by
    obtain ⟨x, r, hread, hx, hr⟩ := h.reads hgood ht
    refine ⟨g x, r, ?_, (hQ x).mpr hx, hr⟩
    rw [MySqlText.mapped, hread]
    rfl
  fails hbad t ht y r hread hy := by
    obtain ⟨⟨x, r'⟩, hitem, heq⟩ := Option.map_eq_some_iff.mp hread
    obtain ⟨rfl, rfl⟩ := Prod.mk.inj heq
    exact h.fails hbad ht hitem ((hQ x).mp hy)

theorem checked_eq_some {q : α → Bool} {x : α} {r : Bytes} (h : checked q item t = some (x, r)) :
    item t = some (x, r) ∧ q x = true := Option.filter_eq_some_iff.mp h

theorem checked_of {q : α → Bool} {x : α} {r : Bytes} (h : item t = some (x, r)) (hq : q x = true) :
    checked q item t = some (x, r) := Option.filter_eq_some_iff.mpr ⟨h, hq⟩

theorem Settles.checked (h : Settles E item s P good) {q : α → Bool} (hq : ∀ x, P x → q x = true) :
    Settles E (checked q item) s P good where
  reads hgood t ht := by
    obtain ⟨x, r, hread, hx, hr⟩ := h.reads hgood ht
    exact ⟨x, r, checked_of hread (hq x hx), hx, hr⟩
  fails hbad t ht x r hread := h.fails hbad ht (checked_eq_some hread).1

theorem Settles.before (h : Settles E item s P good) (hspaced : Spaced f) (hE : ∀ t, E (z ++ t))
    (hf : ∀ t, f (z ++ t) = some t) : Settles (fun _ => True) (before f item) (s ++ z) P good where
  reads hgood t _ := by
    obtain ⟨x, r, hread, hx, hr⟩ := h.reads hgood (hE t)
    refine ⟨x, t, ?_, hx, rfl⟩
    rw [List.append_assoc, MySqlText.before, hread, Option.bind_some, hspaced hr, hf]
    rfl
  fails hbad t _ x r hread := by
    rw [List.append_assoc] at hread
    obtain ⟨⟨x', r'⟩, hitem, hrest⟩ := Option.bind_eq_some_iff.mp hread
    obtain ⟨r'', -, heq⟩ := Option.map_eq_some_iff.mp hrest
    obtain ⟨rfl, rfl⟩ := Prod.mk.inj heq
    exact h.fails hbad (hE t) hitem

theorem Settles.optional {x : α} (h : Settles E item (z ++ s) (· = x) good)
    (hf : ∀ t, f (p ++ t) = some (z ++ t)) : Settles E (optional f item) (p ++ s) (· = some x) good where
  reads hgood t ht := by
    obtain ⟨x', r, hread, rfl, hr⟩ := h.reads hgood ht
    rw [List.append_assoc] at hread
    refine ⟨some x', r, ?_, rfl, hr⟩
    rw [List.append_assoc, MySqlText.optional, hf]
    dsimp only
    rw [hread]
    rfl
  fails hbad t ht y r hread hy := by
    rw [List.append_assoc, MySqlText.optional, hf, ← List.append_assoc] at hread
    obtain ⟨⟨x', r'⟩, hitem, heq⟩ := Option.map_eq_some_iff.mp hread
    obtain ⟨rfl, rfl⟩ := Prod.mk.inj heq
    exact h.fails hbad ht hitem (Option.some.inj hy)

theorem optional_missing (item : Bytes → Option (α × Bytes)) (h : ∀ t, E t → f t = none) :
    Settles E (optional f item) [] (· = none) True where
  reads _ t ht := by
    refine ⟨none, skipSpace t, ?_, rfl, ?_⟩
    · rw [List.nil_append, MySqlText.optional, h t ht]
    · exact skipSpace_skipSpace t
  fails hbad := absurd trivial hbad

/-- What is meant to be missing is not, if what announces it follows. -/
theorem optional_taken (item : Bytes → Option (α × Bytes)) (h : ∀ t, E t → f t ≠ none) :
    Settles E (optional f item) [] (· = none) False where
  reads := False.elim
  fails _ t ht y r hread hy := by
    rw [List.nil_append, MySqlText.optional] at hread
    split at hread
    next hnone => exact h t ht hnone
    · obtain ⟨x, -, heq⟩ := Option.map_eq_some_iff.mp hread
      rw [hy] at heq
      cases heq

theorem Spaced.mapped (h : Spaced item) (g : α → β) : Spaced (mapped g item) := by
  intro r t heq
  unfold MySqlText.mapped
  rw [h heq]

theorem Spaced.checked (h : Spaced item) (q : α → Bool) : Spaced (checked q item) := by
  intro r t heq
  unfold MySqlText.checked
  rw [h heq]

theorem Spaced.optional (h : Spaced f) (item : Bytes → Option (α × Bytes)) :
    Spaced (optional f item) := by
  intro r t heq
  unfold MySqlText.optional
  rw [h heq, heq]

theorem spaced_bracketed (item : Bytes → Option (α × Bytes)) : Spaced (bracketed item) :=
  (spaced_punctuation 40).after _

theorem forall₂_eq_right {xs ys : List α} : List.Forall₂ (fun x y => y = x) xs ys ↔ ys = xs := by
  constructor
  · intro h
    have heq : List.Forall₂ (· = ·) xs ys := h.imp fun _ _ => Eq.symm
    rw [List.forall₂_eq_eq_eq] at heq
    exact heq.symm
  · rintro rfl
    exact List.forall₂_same.mpr fun _ _ => rfl

/-- The text of a list in parentheses. -/
def bracketText (sep : Bytes) (text : α → Bytes) (xs : List α) : Bytes :=
  40 :: (sepText sep text xs ++ [41])

theorem closed_settles {text : α → Bytes} {good : α → Prop} {xs : List α} (hE : ∀ c t, c = 44 ∨ c = 41 → E (c :: t))
    (hitem : ∀ x ∈ xs, Settles E item (text x) (· = x) (good x)) (hspaced : Spaced item) (sep : Bytes)
    (hsep : ∀ c ∈ sep, isSpace c = true) :
    Settles (fun _ => True) (MySqlText.before (punctuation 41) (commas item)) (sepText sep text xs ++ [41])
      (· = xs) (xs ≠ [] ∧ ∀ x ∈ xs, good x) := by
  have hlist := commas_settles (E := E) sep (fun t => hE 44 t (.inl rfl)) hitem hspaced hsep
    (z := []) fun c hc => absurd hc List.not_mem_nil
  have hclosed := hlist.before (z := [41]) (spaced_punctuation 41)
    (fun t => ⟨hE 41 t (.inr rfl), rfl, List.cons_ne_nil 41 t⟩) fun _ => rfl
  have hplain : Settles (fun _ => True) (mapped id (MySqlText.before (punctuation 41) (commas item)))
      (sepText sep text xs ++ [41]) (· = xs) (xs ≠ [] ∧ ∀ x ∈ xs, good x) :=
    hclosed.mapped fun ys => forall₂_eq_right.symm
  exact hplain.congr fun t => by
    unfold MySqlText.mapped
    exact Option.map_id'.symm

/-- A list in parentheses, of which every item is good. -/
theorem bracketed_settles {text : α → Bytes} {good : α → Prop} {xs : List α}
    (hE : ∀ c t, c = 44 ∨ c = 41 → E (c :: t))
    (hitem : ∀ x ∈ xs, Settles E item (text x) (· = x) (good x)) (hspaced : Spaced item) (sep : Bytes)
    (hsep : ∀ c ∈ sep, isSpace c = true) :
    Settles (fun _ => True) (bracketed item) (bracketText sep text xs) (· = xs)
      (xs ≠ [] ∧ ∀ x ∈ xs, good x) :=
  (closed_settles hE hitem hspaced sep hsep).after (p := [40]) (z := []) fun _ => rfl

end Readers

/-! ## Words -/

section Words

variable {w t d : Bytes} {ws us : List Bytes} {b : Bool}

theorem wordOf_eq_some {p : Nat → Bool} {r : Bytes} (h : wordOf p t = some (d, r)) :
    d ≠ [] ∧ ∀ c ∈ d, p c = true := by
  have hd := (checked_eq_some h).2
  simpa using hd

theorem spaced_wordOf (p : Nat → Bool) : Spaced (wordOf p) := by
  intro r t h
  unfold wordOf checked
  dsimp only
  rw [h]

theorem wordOf_settles {p : Nat → Bool} (hp : ∀ c, p c = true → isWordByte c = true) (w : Bytes) :
    Settles EndsWord (wordOf p) w (· = w) (w ≠ [] ∧ ∀ c ∈ w, p c = true) where
  reads := by
    rintro ⟨hne, hw⟩ t ht
    obtain ⟨c, w', rfl⟩ := List.exists_cons_of_ne_nil hne
    have hspace := isSpace_of_isWordByte (hp c (hw c List.mem_cons_self))
    have hword := word_append (fun c hc => hp c (hw c hc)) ht
    refine ⟨c :: w', t, checked_of ?_ ?_, rfl, rfl⟩
    · rw [List.cons_append, skipSpace_cons hspace, ← List.cons_append, hword]
    · simpa using hw
  fails hbad t ht d r hread hd := hbad (hd ▸ wordOf_eq_some hread)

/-- A word that can stand in a keyword. -/
def IsKeyword (w : Bytes) : Prop := w ≠ [] ∧ ∀ c ∈ w, isWordByte c = true

/-- Words with a space before each of them. -/
def wordsText (ws : List Bytes) : Bytes := ws.flatMap fun w => 32 :: w

theorem endsWord_words (ws : List Bytes) (ht : EndsWord t) : EndsWord (wordsText ws ++ t) := by
  cases ws with
  | nil => exact ht
  | cons w ws => exact endsWord_cons rfl _

theorem keywords_append (hws : ∀ w ∈ ws, IsKeyword w) (ht : EndsWord t) :
    keywords ws (wordsText ws ++ t) = some t := by
  induction ws with
  | nil => rfl
  | cons w ws ih =>
    obtain ⟨⟨hne, hw⟩, hws⟩ := List.forall_mem_cons.mp hws
    have htext : wordsText (w :: ws) ++ t = 32 :: (w ++ (wordsText ws ++ t)) := by simp [wordsText]
    rw [htext, keywords, List.foldlM_cons, keyword_space, keyword_append hne hw (endsWord_words ws ht)]
    exact ih hws

theorem keywords_none (h : keyword w t = none) (ws : List Bytes) : keywords (w :: ws) t = none := by
  rw [keywords, List.foldlM_cons, h]
  rfl

theorem spaced_keywords (w : Bytes) (ws : List Bytes) : Spaced (keywords (w :: ws)) := by
  intro r t h
  unfold keywords
  rw [List.foldlM_cons, List.foldlM_cons, spaced_keyword w h]

/-- What follows the options of a definition begins with none of the words. -/
structure Ahead (ws : List Bytes) (t : Bytes) : Prop where
  endsWord : EndsWord t
  endsText : EndsText t
  first : (word (skipSpace t)).1 ∉ ws

theorem Ahead.keyword_eq_none (h : Ahead ws t) (hw : w ∈ ws) : keyword w t = none := by
  unfold keyword
  dsimp only
  rw [if_neg]
  intro heq
  exact h.first (heq ▸ hw)

theorem Ahead.mono (h : Ahead ws t) (hsub : us ⊆ ws) : Ahead us t :=
  ⟨h.endsWord, h.endsText, fun hmem => h.first (hsub hmem)⟩

/-- A word in capitals. -/
def IsCapital (w : Bytes) : Prop := IsKeyword w ∧ ∀ c ∈ w, isLaggard c = false

theorem ahead_word (hw : IsCapital w) (hnot : w ∉ ws) (ht : EndsWord t) : Ahead ws (32 :: (w ++ t)) := by
  obtain ⟨⟨hne, hbytes⟩, hcapital⟩ := hw
  obtain ⟨c, w', rfl⟩ := List.exists_cons_of_ne_nil hne
  have hspace := isSpace_of_isWordByte (hbytes c List.mem_cons_self)
  have hskip : skipSpace (32 :: (c :: w' ++ t)) = c :: w' ++ t := skipSpace_cons hspace (w' ++ t)
  refine ⟨endsWord_cons rfl _, ⟨c, w' ++ t, hskip, hcapital c List.mem_cons_self⟩, ?_⟩
  rw [hskip, word_append hbytes ht]
  exact hnot

/-- The words that a box stands for. -/
def flagText (ws : List Bytes) (b : Bool) : Bytes := if b then wordsText ws else []

theorem Ahead.flag (h : Ahead (w :: ws) t) (hw : IsCapital w) (hnot : w ∉ ws) (us : List Bytes) (b : Bool) :
    Ahead ws (flagText (w :: us) b ++ t) := by
  cases b with
  | false => exact h.mono (List.subset_cons_self w ws)
  | true =>
    have htext : flagText (w :: us) true ++ t = 32 :: (w ++ (wordsText us ++ t)) := by
      simp [flagText, wordsText]
    rw [htext]
    exact ahead_word hw hnot (endsWord_words us h.endsWord)

theorem flag_settles (w : Bytes) (ws : List Bytes) (hws : ∀ u ∈ w :: ws, IsKeyword u) (b : Bool) :
    Settles (Ahead [w]) (flag (w :: ws)) (flagText (w :: ws) b) (· = b) True := by
  cases b with
  | false =>
    have hmissing := optional_missing nothing fun t (ht : Ahead [w] t) =>
      keywords_none (ht.keyword_eq_none List.mem_cons_self) ws
    exact hmissing.mapped fun x => by cases x <;> simp
  | true =>
    constructor
    · intro _ t ht
      refine ⟨true, t, ?_, rfl, rfl⟩
      rw [flag, mapped, optional, flagText, if_pos rfl, keywords_append hws ht.endsWord]
      rfl
    · exact fun hbad => absurd trivial hbad

end Words

/-! ## Comments and actions -/

section Options

variable {w w' t : Bytes} {ws : List Bytes}

/-- A text between quotes, as it is. -/
def plainText (w : Bytes) : Bytes := quote :: (w ++ [quote])

theorem plainText_append (w t : Bytes) : plainText w ++ t = quote :: (w ++ quote :: t) := by
  simp [plainText]

theorem spaced_stringLiteral : Spaced stringLiteral := by
  intro r t h
  unfold stringLiteral
  rw [h]

theorem stringLiteral_settles (w : Bytes) :
    Settles EndsText stringLiteral (plainText w) (· = w) (isPlain quote isEscape w = true) where
  reads hw t ht := by
    refine ⟨w, t, ?_, rfl, rfl⟩
    rw [plainText_append]
    exact delimited_append escape_backslash hw (ht.head rfl)
  fails hw t ht d r hread := by
    rw [plainText_append] at hread
    exact delimited_plain_avoids ht hw hread

def commentText : Option Bytes → Bytes
  | none => []
  | some w => ascii " COMMENT " ++ plainText w

theorem keyword_comment (t : Bytes) : keyword (ascii "COMMENT") (ascii " COMMENT " ++ t) = some (32 :: t) := by
  have htext : ascii " COMMENT " ++ t = 32 :: (ascii "COMMENT" ++ 32 :: t) := rfl
  rw [htext, keyword_space, keyword_append (by decide) (by decide) (endsWord_cons rfl t)]

/-- The comment can stand between quotes as it is. -/
def PlainComment (c : Option Bytes) : Prop := ∀ w, c = some w → isPlain quote isEscape w = true

theorem someComment_settles (w : Bytes) :
    Settles EndsText comment (commentText (some w)) (· = some w) (isPlain quote isEscape w = true) :=
  ((stringLiteral_settles w).spaced (z := [32]) spaced_stringLiteral (by decide)).optional keyword_comment

theorem comment_settles (c : Option Bytes) :
    Settles (Ahead [ascii "COMMENT"]) comment (commentText c) (· = c) (PlainComment c) := by
  cases c with
  | none =>
    have hmissing := optional_missing stringLiteral fun t (ht : Ahead [ascii "COMMENT"] t) =>
      ht.keyword_eq_none List.mem_cons_self
    exact hmissing.mono (iff_true_intro fun w h => by cases h) fun t ht => ht
  | some w =>
    refine (someComment_settles w).mono ?_ fun t ht => ht.endsText
    constructor
    · exact fun h => h w rfl
    · intro h w' heq
      obtain rfl := Option.some.inj heq
      exact h

/-- Before another comment, only a comment is read as it is meant. -/
theorem comment_settles_before (c : Option Bytes) :
    Settles (fun t => keyword (ascii "COMMENT") t ≠ none ∧ EndsText t) comment (commentText c) (· = c)
      (c ≠ none ∧ PlainComment c) := by
  cases c with
  | none =>
    exact (optional_taken stringLiteral fun t ht => ht.1).mono (by simp) fun t ht => ht
  | some w =>
    refine (someComment_settles w).mono ?_ fun t ht => ht.2
    constructor
    · exact fun h => h.2 w rfl
    · intro h
      refine ⟨Option.some_ne_none w, fun w' heq => ?_⟩
      obtain rfl := Option.some.inj heq
      exact h

def actionText (ws : List Bytes) : Option Action → Bytes
  | none => []
  | some a => wordsText ws ++ wordsText a.words

theorem keyword_other (hw : IsKeyword w) (hne : w ≠ w') (ht : EndsWord t) :
    keyword w' (32 :: (w ++ t)) = none := by
  obtain ⟨c, v, rfl⟩ := List.exists_cons_of_ne_nil hw.1
  have hspace := isSpace_of_isWordByte (hw.2 c List.mem_cons_self)
  rw [keyword_space, keyword, List.cons_append, skipSpace_cons hspace, ← List.cons_append,
    word_append hw.2 ht]
  exact if_neg hne

theorem keywords_other (hw : IsKeyword w) (hne : w ≠ w') (ht : EndsWord t) (us : List Bytes) :
    keywords (w' :: us) (wordsText (w :: ws) ++ t) = none := by
  have htext : wordsText (w :: ws) ++ t = 32 :: (w ++ (wordsText ws ++ t)) := by simp [wordsText]
  rw [htext]
  exact keywords_none (keyword_other hw hne (endsWord_words ws ht)) us

instance (w : Bytes) : Decidable (IsKeyword w) := inferInstanceAs (Decidable (_ ∧ _))

instance (w : Bytes) : Decidable (IsCapital w) := inferInstanceAs (Decidable (_ ∧ _))

theorem ahead_commentText {ws : List Bytes} (ht : Ahead ws t) (hnot : ascii "COMMENT" ∉ ws) (c : Option Bytes) :
    Ahead ws (commentText c ++ t) := by
  cases c with
  | none => exact ht
  | some w =>
    have htext : commentText (some w) ++ t = 32 :: (ascii "COMMENT" ++ 32 :: (plainText w ++ t)) := rfl
    rw [htext]
    exact ahead_word (by decide) hnot (endsWord_cons rfl _)

theorem action_words (a : Action) (ht : EndsWord t) : action (wordsText a.words ++ t) = some (a, t) := by
  have hself (b : Action) : keywords b.words (wordsText b.words ++ t) = some t := by
    refine keywords_append ?_ ht
    cases b <;> decide
  have hother {w w' : Bytes} (us vs : List Bytes) (hw : IsKeyword w) (hne : w ≠ w') :
      keywords (w' :: us) (wordsText (w :: vs) ++ t) = none := keywords_other hw hne ht us
  have hread := hself a
  unfold action
  cases a with
  | cascade => rw [List.findSome?_cons, hread]; rfl
  | setNull =>
    have hcascade : keywords Action.cascade.words (wordsText Action.setNull.words ++ t) = none :=
      hother _ _ (by decide) (by decide)
    rw [List.findSome?_cons, hcascade, List.findSome?_cons, hread]
    rfl
  | noAction =>
    have hcascade : keywords Action.cascade.words (wordsText Action.noAction.words ++ t) = none :=
      hother _ _ (by decide) (by decide)
    have hset : keywords Action.setNull.words (wordsText Action.noAction.words ++ t) = none :=
      hother _ _ (by decide) (by decide)
    rw [List.findSome?_cons, hcascade, List.findSome?_cons, hset, List.findSome?_cons, hread]
    rfl
  | restrict =>
    have hcascade : keywords Action.cascade.words (wordsText Action.restrict.words ++ t) = none :=
      hother _ _ (by decide) (by decide)
    have hset : keywords Action.setNull.words (wordsText Action.restrict.words ++ t) = none :=
      hother _ _ (by decide) (by decide)
    have hno : keywords Action.noAction.words (wordsText Action.restrict.words ++ t) = none :=
      hother _ _ (by decide) (by decide)
    rw [List.findSome?_cons, hcascade, List.findSome?_cons, hset, List.findSome?_cons, hno,
      List.findSome?_cons, hread]
    rfl

/-- No such action follows. -/
def NoAction (ws : List Bytes) (t : Bytes) : Prop := EndsWord t ∧ keywords ws t = none

theorem action_settles (ws : List Bytes) (hws : ∀ w ∈ ws, IsKeyword w) (o : Option Action) :
    Settles (NoAction ws) (optional (keywords ws) action) (actionText ws o) (· = o) True := by
  cases o with
  | none => exact optional_missing action fun t ht => ht.2
  | some a =>
    constructor
    · intro _ t ht
      refine ⟨some a, t, ?_, rfl, rfl⟩
      rw [actionText, List.append_assoc, optional,
        keywords_append hws (endsWord_words a.words ht.1)]
      dsimp only
      rw [action_words a ht.1]
      rfl
    · exact fun hbad => absurd trivial hbad

end Options

/-! ## Columns -/

section Columns

variable {reserved : Bytes → Bool} {E : Bytes → Prop} {good : Prop}

def defaultText (b : Bool) : Bytes := if b then ascii " DEFAULT " ++ plainText [] else []

theorem default_settles (b : Bool) :
    Settles (Ahead [ascii "DEFAULT"]) (optional (keyword (ascii "DEFAULT")) stringLiteral) (defaultText b)
      (fun _ => True) True := by
  cases b with
  | false =>
    have hmissing := optional_missing stringLiteral fun t (ht : Ahead [ascii "DEFAULT"] t) =>
      ht.keyword_eq_none List.mem_cons_self
    exact hmissing.read
  | true =>
    have hkeyword (t : Bytes) : keyword (ascii "DEFAULT") (ascii " DEFAULT " ++ t) = some ([32] ++ t) := by
      have htext : ascii " DEFAULT " ++ t = 32 :: (ascii "DEFAULT" ++ 32 :: t) := rfl
      rw [htext, keyword_space, keyword_append (by decide) (by decide) (endsWord_cons rfl t)]
      rfl
    have hliteral := ((stringLiteral_settles []).spaced (z := [32]) spaced_stringLiteral
      (by decide)).optional hkeyword
    have hread : Settles EndsText (optional (keyword (ascii "DEFAULT")) stringLiteral)
        (ascii " DEFAULT " ++ plainText []) (· = some []) True :=
      hliteral.mono (by decide) fun t ht => ht
    exact hread.read.mono Iff.rfl fun t ht => ht.endsText

theorem Ahead.default {ws : List Bytes} {t : Bytes} (h : Ahead (ascii "DEFAULT" :: ws) t)
    (hnot : ascii "DEFAULT" ∉ ws) (b : Bool) : Ahead ws (defaultText b ++ t) := by
  cases b with
  | false => exact h.mono (List.subset_cons_self _ ws)
  | true =>
    have htext : defaultText true ++ t = 32 :: (ascii "DEFAULT" ++ 32 :: (plainText [] ++ t)) := rfl
    rw [htext]
    exact ahead_word (by decide) hnot (endsWord_cons rfl _)

/-- The words that the options of a column begin with, but for its comment. -/
def optionWords : List Bytes :=
  [ascii "AUTO_INCREMENT", ascii "DEFAULT", ascii "NOT", ascii "ZEROFILL", ascii "UNSIGNED"]

def typeText (c : Column) : Bytes := [32, 32] ++ c.type ++ bracketText [32] id c.arguments

def optionsText (notNull emptyDefault : Bool) (c : Column) : Bytes :=
  flagText [ascii "UNSIGNED"] c.unsigned ++ (flagText [ascii "ZEROFILL"] c.zerofill ++
    (flagText [ascii "NOT", ascii "NULL"] notNull ++ (defaultText emptyDefault ++
      (flagText [ascii "AUTO_INCREMENT"] c.autoIncrement ++ commentText c.comment))))

/-- A column that has arguments. -/
def columnText (notNull emptyDefault : Bool) (c : Column) : Bytes :=
  ticked c.name ++ (typeText c ++ optionsText notNull emptyDefault c)

theorem options_settle (notNull emptyDefault : Bool) (c : Column)
    (hcomment : Settles E comment (commentText c.comment) (· = c.comment) good)
    (hE : ∀ t, E t → Ahead optionWords (commentText c.comment ++ t)) :
    Settles E (pair (flag [ascii "UNSIGNED"]) (pair (flag [ascii "ZEROFILL"])
        (pair (flag [ascii "NOT", ascii "NULL"]) (pair (optional (keyword (ascii "DEFAULT")) stringLiteral)
          (pair (flag [ascii "AUTO_INCREMENT"]) comment)))))
      (optionsText notNull emptyDefault c)
      (fun x => x.1 = c.unsigned ∧ x.2.1 = c.zerofill ∧ True ∧ True ∧ x.2.2.2.2.1 = c.autoIncrement ∧
        x.2.2.2.2.2 = c.comment) good := by
  have hflag (w : Bytes) (ws : List Bytes) : Spaced (flag (w :: ws)) :=
    ((spaced_keywords w ws).optional nothing).mapped _
  have hauto (t : Bytes) (ht : E t) : Ahead [ascii "DEFAULT", ascii "NOT", ascii "ZEROFILL", ascii "UNSIGNED"]
      (flagText [ascii "AUTO_INCREMENT"] c.autoIncrement ++ commentText c.comment ++ t) := by
    rw [List.append_assoc]
    exact (hE t ht).flag (by decide) (by decide) [] c.autoIncrement
  have hdefault (t : Bytes) (ht : E t) : Ahead [ascii "NOT", ascii "ZEROFILL", ascii "UNSIGNED"]
      (defaultText emptyDefault ++ (flagText [ascii "AUTO_INCREMENT"] c.autoIncrement ++
        commentText c.comment) ++ t) := by
    rw [List.append_assoc]
    exact (hauto t ht).default (by decide) emptyDefault
  have hnull (t : Bytes) (ht : E t) : Ahead [ascii "ZEROFILL", ascii "UNSIGNED"]
      (flagText [ascii "NOT", ascii "NULL"] notNull ++ (defaultText emptyDefault ++
        (flagText [ascii "AUTO_INCREMENT"] c.autoIncrement ++ commentText c.comment)) ++ t) := by
    rw [List.append_assoc]
    exact (hdefault t ht).flag (by decide) (by decide) [ascii "NULL"] notNull
  have hzerofill (t : Bytes) (ht : E t) : Ahead [ascii "UNSIGNED"]
      (flagText [ascii "ZEROFILL"] c.zerofill ++ (flagText [ascii "NOT", ascii "NULL"] notNull ++
        (defaultText emptyDefault ++ (flagText [ascii "AUTO_INCREMENT"] c.autoIncrement ++
          commentText c.comment))) ++ t) := by
    rw [List.append_assoc]
    exact (hnull t ht).flag (by decide) (by decide) [] c.zerofill
  have h₁ := (flag_settles (ascii "AUTO_INCREMENT") [] (by decide) c.autoIncrement).pair
    hcomment ((spaced_keyword _).optional _) fun t ht => (hE t ht).mono (by decide)
  have h₂ := (default_settles emptyDefault).pair h₁ ((hflag _ _).pair _)
    fun t ht => (hauto t ht).mono (by decide)
  have h₃ := (flag_settles (ascii "NOT") [ascii "NULL"] (by decide) notNull).read.pair h₂
    (((spaced_keyword _).optional _).pair _) fun t ht => (hdefault t ht).mono (by decide)
  have h₄ := (flag_settles (ascii "ZEROFILL") [] (by decide) c.zerofill).pair h₃
    ((hflag _ _).pair _) fun t ht => (hnull t ht).mono (by decide)
  have h₅ := (flag_settles (ascii "UNSIGNED") [] (by decide) c.unsigned).pair h₄
    ((hflag _ _).pair _) hzerofill
  exact h₅.mono (by simp) fun t ht => ht

/-- A type that takes arguments is a word of letters. -/
theorem isKeyword_of_takesArguments {type : Bytes} {n : Nat} (h : takesArguments type n = true) :
    IsKeyword type := by
  have hlists : ∀ w ∈ fractionTypes ++ integerTypes ++ sizedTypes ++ sizableTypes ++ plainTypes,
      w ≠ [] ∧ ∀ c ∈ w, 97 ≤ c ∧ c ≤ 122 := by decide
  have hfirst (hw : lower type ∈ fractionTypes) :
      lower type ∈ fractionTypes ++ integerTypes ++ sizedTypes ++ sizableTypes ++ plainTypes :=
    List.mem_append_left _ (List.mem_append_left _ (List.mem_append_left _ (List.mem_append_left _ hw)))
  have hmem : lower type ∈ fractionTypes ++ integerTypes ++ sizedTypes ++ sizableTypes ++ plainTypes := by
    unfold takesArguments at h
    simp only [Bool.or_eq_true, Bool.and_eq_true, List.contains_iff_mem] at h
    rcases h with (((⟨hw, -⟩ | ⟨⟨⟨hw, -⟩, -⟩, -⟩) | ⟨hw | hw, -⟩) | ⟨hw, -⟩) | ⟨hw, -⟩
    · exact hfirst hw
    · exact hfirst hw
    · exact List.mem_append_left _ (List.mem_append_left _ (List.mem_append_left _ (List.mem_append_right _ hw)))
    · exact List.mem_append_left _ (List.mem_append_right _ hw)
    · exact List.mem_append_left _ (List.mem_append_left _ (List.mem_append_right _ hw))
    · exact List.mem_append_right _ hw
  obtain ⟨hne, hletters⟩ := hlists _ hmem
  refine ⟨fun hnil => hne (by rw [hnil]; rfl), fun c hc => ?_⟩
  have hletter := hletters _ (List.mem_map_of_mem hc)
  unfold isWordByte isDigit
  simp only [Bool.or_eq_true, Bool.and_eq_true, decide_eq_true_eq]
  split_ifs at hletter <;> omega

theorem typeArguments_settles {args : List Bytes} (hne : args ≠ []) (hargs : ∀ w ∈ args, IsKeyword w) :
    Settles (fun _ => True) typeArguments (bracketText [32] id args) (· = args) True := by
  have hwords : ∀ w ∈ args, Settles EndsWord bareWord (id w) (· = w) (w ≠ [] ∧ ∀ c ∈ w, isWordByte c = true) :=
    fun w _ => wordOf_settles (fun _ hc => hc) w
  have hclosed := closed_settles (fun c t hc => endsWord_cons (by rcases hc with rfl | rfl <;> rfl) t)
    hwords (spaced_wordOf _) [32] (by decide)
  have hopen := hclosed.optional (f := punctuation 40) (p := [40]) (z := []) fun _ => rfl
  have hread : Settles (fun _ => True) typeArguments (bracketText [32] id args) (· = args)
      (args ≠ [] ∧ ∀ w ∈ args, w ≠ [] ∧ ∀ c ∈ w, isWordByte c = true) := by
    refine hopen.mapped fun x => ?_
    cases x with
    | none => simpa using Ne.symm hne
    | some ys => simp
  exact hread.mono (iff_of_true trivial ⟨hne, hargs⟩) fun t ht => ht

/-- **What a column is read as.** -/
theorem column_settles (notNull emptyDefault : Bool) {c : Column} (hne : c.arguments ≠ [])
    (hcomment : Settles E comment (commentText c.comment) (· = c.comment) good)
    (hE : ∀ t, E t → Ahead optionWords (commentText c.comment ++ t)) :
    Settles E (column reserved) (columnText notNull emptyDefault c) (· = c)
      (c.isSound = true ∧ backtick ∉ c.name ∧ good) := by
  by_cases hsound : c.isSound = true
  · have hparts := hsound
    unfold Column.isSound at hparts
    rw [Bool.and_eq_true, Bool.and_eq_true] at hparts
    have htype := isKeyword_of_takesArguments hparts.1.2
    have hargs : ∀ w ∈ c.arguments, IsKeyword w := by
      intro w hw
      have hdigits := List.all_eq_true.mp hparts.1.1 w hw
      simp only [Bool.and_eq_true, Bool.not_eq_true', List.isEmpty_eq_false_iff, List.all_eq_true] at hdigits
      exact ⟨hdigits.1, fun c hc => by simp [isWordByte, hdigits.2 c hc]⟩
    have hword : Settles EndsWord bareWord c.type (· = c.type) True :=
      (wordOf_settles (fun _ hc => hc) c.type).mono (iff_of_true trivial htype) fun t ht => ht
    have hspaces : ∀ c ∈ [32, 32], isSpace c = true := by decide
    have htyped := (typeArguments_settles hne hargs).pair (options_settle notNull emptyDefault c hcomment hE)
      ((((spaced_keywords _ _).optional nothing).mapped _).pair _) fun _ _ => trivial
    have hrest := (hword.spaced (spaced_wordOf _) hspaces).pair htyped
      (((spaced_punctuation 40).optional _).mapped _ |>.pair _) fun t _ => endsWord_cons rfl _
    have hall := (ticked_settles reserved c.name).pair hrest ((spaced_wordOf _).pair _)
      fun t _ => endsName_cons (by decide) _
    have htext : columnText notNull emptyDefault c = ticked c.name ++ ([32, 32] ++ c.type ++
        (bracketText [32] id c.arguments ++ optionsText notNull emptyDefault c)) := by
      simp [columnText, typeText]
    rw [htext]
    have hmapped := hall.mapped (Q := (· = c))
      (g := fun (name, type, arguments, unsigned, zerofill, _, _, autoIncrement, comment) =>
        ({ name, type, arguments, unsigned, zerofill, autoIncrement, comment } : Column)) fun x => by
      obtain ⟨name, type, arguments, unsigned, zerofill, notNull', default', autoIncrement, comment⟩ := x
      obtain ⟨name', type', arguments', unsigned', zerofill', autoIncrement', comment'⟩ := c
      simp
    refine (hmapped.checked fun y hy => hy ▸ hsound).mono ?_ fun t ht => ht
    simp [hsound]
  · constructor
    · exact fun h => absurd h.1 hsound
    · rintro - t - y r hread rfl
      exact hsound (checked_eq_some hread).2

end Columns

end MySqlText
