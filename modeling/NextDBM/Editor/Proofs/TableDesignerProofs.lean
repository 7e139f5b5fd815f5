import NextDBM.Editor.TableDesigner

/-!
# Proofs: the table designer

The text of every column, foreign key and primary key settles what is read of it, and no text of an index is
read as an index. So what is read of the body is decided by its commas.
-/

namespace NextDBM

open MySqlText

variable {reserved : Bytes → Bool}

/-! ## Lists -/

section Lists

variable {α : Type} {text : α → Bytes} {x : α} {xs : List α}

theorem map_zipIdx_succ (text : α → Bytes) (xs : List α) (k : Nat) :
    (xs.zipIdx (k + 1)).map (fun (item, index) => if index = 0 then text item else ascii "," ++ text item) =
      xs.map fun item => 44 :: text item := by
  induction xs generalizing k with
  | nil => rfl
  | cons x xs ih =>
    rw [List.zipIdx_cons, List.map_cons, List.map_cons, ih]
    rfl

theorem listed_cons (text : α → Bytes) (x : α) (xs : List α) :
    listed text (x :: xs) = text x ++ xs.flatMap fun y => 44 :: text y := by
  rw [listed, List.zipIdx_cons, List.map_cons, map_zipIdx_succ, List.flatten_cons, List.flatMap]
  rfl

/-- With a comma at the end, every item has one after it. -/
theorem listed_comma (hne : xs ≠ []) (t : Bytes) :
    listed text xs ++ 44 :: t = (xs.flatMap fun y => text y ++ [44]) ++ t := by
  obtain ⟨x, xs, rfl⟩ := List.exists_cons_of_ne_nil hne
  rw [listed_cons]
  clear hne
  induction xs generalizing x with
  | nil => simp
  | cons y ys ih =>
    have hrest := ih y
    simp only [List.flatMap_cons, List.append_assoc, List.cons_append, List.nil_append] at hrest ⊢
    rw [hrest]

theorem sepText_cons (text : α → Bytes) (x : α) (xs : List α) :
    sepText [] text (x :: xs) = text x ++ xs.flatMap fun y => 44 :: text y := by
  induction xs generalizing x with
  | nil => simp [sepText]
  | cons y ys ih =>
    rw [sepText_cons_cons, ih]
    simp

end Lists

theorem columnsSql_eq (columns : List Bytes) : columnsSql columns = sepText [] ticked columns := by
  cases columns with
  | nil => rfl
  | cons w ws =>
    rw [sepText_cons]
    have htext : ((w :: ws).map fun column => ascii "`" ++ column ++ ascii "`,").flatten =
        ticked w ++ (ws.flatMap fun y => 44 :: ticked y) ++ [44] := by
      induction ws generalizing w with
      | nil => simp [ticked, ascii, backtick]
      | cons v vs ih =>
        have hrest := ih v
        simp only [List.map_cons, List.flatten_cons, List.flatMap_cons] at hrest ⊢
        rw [hrest]
        simp [ticked, ascii, backtick]
    rw [columnsSql, htext, List.dropLast_concat]

/-! ## Columns -/

theorem commentText_entered (w : Bytes) : commentText (if w = [] then none else some w) =
    if w = [] then [] else ascii " COMMENT '" ++ w ++ ascii "'" := by
  by_cases hw : w = []
  · rw [if_pos hw, if_pos hw]
    rfl
  · rw [if_neg hw, if_neg hw, commentText]
    have htext : ascii " COMMENT '" = ascii " COMMENT " ++ [quote] := rfl
    have hquote : ascii "'" = [quote] := rfl
    rw [htext, hquote, plainText]
    simp

theorem fieldSql_eq {item : FieldItem} (htype : item.type ≠ []) : fieldSql item =
    [10, 9] ++ columnText item.isNull (decide (item.defaultValue = emptyString)) item.column := by
  have hstart : ascii "\n\t`" = [10, 9, backtick] := rfl
  have hname : ascii "` " = [backtick, 32] := rfl
  have hspace : ascii " " = [32] := rfl
  have hopen : ascii "(" = [40] := rfl
  have hclose : ascii ")" = [41] := rfl
  have hcomma : ascii ", " = [44, 32] := rfl
  have hunsigned : flagText [ascii "UNSIGNED"] item.unsigned =
      if item.unsigned then ascii " UNSIGNED" else [] := by cases item.unsigned <;> rfl
  have hzerofill : flagText [ascii "ZEROFILL"] item.zeroFill =
      if item.zeroFill then ascii " ZEROFILL" else [] := by cases item.zeroFill <;> rfl
  have hnull : flagText [ascii "NOT", ascii "NULL"] item.isNull =
      if item.isNull then ascii " NOT NULL" else [] := by cases item.isNull <;> rfl
  have hdefault : defaultText (decide (item.defaultValue = emptyString)) =
      if item.defaultValue = emptyString then ascii " DEFAULT ''" else [] := by
    by_cases h : item.defaultValue = emptyString
    · rw [decide_eq_true h, if_pos h]
      rfl
    · rw [decide_eq_false h, if_neg h]
      rfl
  have hincrement : flagText [ascii "AUTO_INCREMENT"] item.automaticIncrement =
      if item.automaticIncrement then ascii " AUTO_INCREMENT" else [] := by
    cases item.automaticIncrement <;> rfl
  have hoptions : optionsText item.isNull (decide (item.defaultValue = emptyString)) item.column =
      (if item.unsigned then ascii " UNSIGNED" else []) ++ ((if item.zeroFill then ascii " ZEROFILL" else []) ++
        ((if item.isNull then ascii " NOT NULL" else []) ++
          ((if item.defaultValue = emptyString then ascii " DEFAULT ''" else []) ++
            ((if item.automaticIncrement then ascii " AUTO_INCREMENT" else []) ++
              (if item.comment = [] then [] else ascii " COMMENT '" ++ item.comment ++ ascii "'"))))) := by
    rw [← hunsigned, ← hzerofill, ← hnull, ← hdefault, ← hincrement, ← commentText_entered]
    rfl
  rw [columnText, hoptions, fieldSql, if_neg htype, typeText, bracketText]
  by_cases hvarchar : item.type = ascii "varchar"
  · have hargs : item.column.arguments = [item.len] := if_pos hvarchar
    rw [if_pos hvarchar, hargs, sepText_singleton, hstart, hname, hspace, hopen, hclose]
    simp only [FieldItem.column, ticked, id, List.append_assoc, List.cons_append, List.nil_append]
  · have hargs : item.column.arguments = [item.len, item.port] := if_neg hvarchar
    rw [if_neg hvarchar, hargs, sepText_cons_cons, sepText_singleton, hstart, hname, hspace, hopen, hclose,
      hcomma]
    simp only [FieldItem.column, ticked, id, List.append_assoc, List.cons_append, List.nil_append]

theorem arguments_ne_nil (item : FieldItem) : item.column.arguments ≠ [] := by
  unfold FieldItem.column
  dsimp only
  split
  · exact List.cons_ne_nil _ _
  · exact List.cons_ne_nil _ _

/-- A column is read as such only if it is sound. -/
theorem isSound_of_definition {c : Column} {t r : Bytes}
    (h : definition reserved t = some (.column c, r)) : c.isSound = true := by
  unfold definition at h
  dsimp only at h
  split_ifs at h
  all_goals
    obtain ⟨⟨x, r'⟩, hread, heq⟩ := Option.map_eq_some_iff.mp h
    obtain ⟨hdefinition, rfl⟩ := Prod.mk.inj heq
    cases hdefinition
  exact (checked_eq_some hread).2

/-- **What the text of a column is read as.** -/
theorem field_settles {E : Bytes → Prop} {good : Prop} (reserved : Bytes → Bool) (item : FieldItem)
    (hcomment : Settles E comment (commentText item.column.comment) (· = item.column.comment) good)
    (hE : ∀ t, E t → Ahead optionWords (commentText item.column.comment ++ t)) :
    Settles E (definition reserved) (fieldSql item) (· = .column item.column)
      (item.column.isSound = true ∧ backtick ∉ item.name ∧ good) := by
  by_cases hsound : item.column.isSound = true
  · have htype : item.type ≠ [] := by
      intro hnil
      have hparts := hsound
      unfold Column.isSound at hparts
      rw [Bool.and_eq_true, Bool.and_eq_true] at hparts
      exact (isKeyword_of_takesArguments hparts.1.2).1 hnil
    rw [fieldSql_eq htype]
    exact column_defines (column_settles item.isNull _ (arguments_ne_nil item) hcomment hE) ⟨_, rfl⟩
  · constructor
    · exact fun h => absurd h.1 hsound
    · rintro - t - x r hread rfl
      exact hsound (isSound_of_definition hread)

theorem takesArguments_varchar : takesArguments (ascii "varchar") 1 = true := by decide

theorem takesArguments_two (type : Bytes) : takesArguments type 2 = true ↔ lower type ∈ fractionTypes := by
  unfold takesArguments
  simp

theorem isSound_iff (item : FieldItem) : item.column.isSound = true ↔ isDigits item.len = true ∧
    (item.type = ascii "varchar" ∧ item.unsigned = false ∧ item.zeroFill = false ∨
      lower item.type ∈ fractionTypes ∧ isDigits item.port = true) := by
  unfold Column.isSound
  by_cases hvarchar : item.type = ascii "varchar"
  · have hargs : item.column.arguments = [item.len] := if_pos hvarchar
    have htype : item.column.type = ascii "varchar" := hvarchar
    have hnumber : isNumberType (ascii "varchar") = false := by decide
    have hfraction : lower (ascii "varchar") ∉ fractionTypes := by decide
    rw [hargs, htype, hvarchar, List.length_singleton, takesArguments_varchar, hnumber]
    simp only [hfraction, false_and, or_false, true_and]
    simp [FieldItem.column, isDigits]
  · have hargs : item.column.arguments = [item.len, item.port] := if_neg hvarchar
    have htype : item.column.type = item.type := rfl
    have hlength : [item.len, item.port].length = 2 := rfl
    rw [hargs, htype, hlength]
    simp only [hvarchar, false_and, false_or, Bool.and_eq_true, takesArguments_two]
    constructor
    · rintro ⟨⟨hdigits, hfraction⟩, -⟩
      obtain ⟨hlen, hport⟩ := List.forall_mem_cons.mp (List.all_eq_true.mp hdigits)
      exact ⟨hlen, hfraction, hport item.port List.mem_cons_self⟩
    · rintro ⟨hlen, hfraction, hport⟩
      have hnumber : isNumberType item.type = true := by
        rw [isNumberType, List.contains_iff_mem.mpr hfraction, Bool.true_or]
      refine ⟨⟨List.all_eq_true.mpr ?_, hfraction⟩, ?_⟩
      · exact List.forall_mem_cons.mpr ⟨hlen, List.forall_mem_singleton.mpr hport⟩
      · rw [hnumber, Bool.or_true]

theorem plainComment_iff (item : FieldItem) :
    PlainComment item.column.comment ↔ isPlain quote isEscape item.comment = true := by
  unfold PlainComment
  by_cases hnil : item.comment = []
  · have hcomment : item.column.comment = none := if_pos hnil
    rw [hcomment, hnil]
    exact iff_of_true (fun w h => by cases h) rfl
  · have hcomment : item.column.comment = some item.comment := if_neg hnil
    rw [hcomment]
    constructor
    · exact fun h => h item.comment rfl
    · intro h w heq
      obtain rfl := Option.some.inj heq
      exact h

theorem FieldItem.writable_iff (item : FieldItem) : item.Writable ↔
    item.column.isSound = true ∧ backtick ∉ item.name ∧ PlainComment item.column.comment := by
  rw [isSound_iff, plainComment_iff]
  constructor
  · exact fun h => ⟨h.type, h.name, h.comment⟩
  · exact fun ⟨htype, hname, hcomment⟩ => ⟨hname, htype, hcomment⟩

/-- A column is read as it is meant exactly if it is writable, and no option follows it. -/
theorem writable_settles (reserved : Bytes → Bool) (item : FieldItem) :
    Settles (Ahead (ascii "COMMENT" :: optionWords)) (definition reserved) (fieldSql item)
      (· = .column item.column) item.Writable := by
  have hcomment : Settles (Ahead (ascii "COMMENT" :: optionWords)) comment
      (commentText item.column.comment) (· = item.column.comment) (PlainComment item.column.comment) :=
    (comment_settles item.column.comment).mono Iff.rfl fun t ht => ht.mono (by decide)
  refine (field_settles reserved item hcomment fun t ht => ?_).mono item.writable_iff fun t ht => ht
  exact ahead_commentText (ht.mono (by decide)) (by decide) item.column.comment

/-! ## Keys -/

theorem actionText_eq (label : String) (ws : List Bytes) (o : Option Action)
    (hlabel : ascii label = wordsText ws ++ [32]) :
    (match o with
      | none => []
      | some action => ascii label ++ actionName action) = actionText ws o := by
  cases o with
  | none => rfl
  | some a =>
    have hwords : [32] ++ actionName a = wordsText a.words := by cases a <;> rfl
    dsimp only
    rw [hlabel, List.append_assoc, hwords]
    rfl

/-- The text of the columns that a foreign key begins with. -/
def fromColumns (item : ForeignKeyItem) : Bytes := 40 :: (ticked ([44].intercalate item.field) ++ [41])

theorem foreignKeySql_eq (item : ForeignKeyItem) :
    foreignKeySql item = [10, 9] ++ foreignKeyText (fromColumns item) item.foreignKey := by
  have hconstraint : ascii "\n\tCONSTRAINT `" = [10, 9] ++ (ascii "CONSTRAINT" ++ [32, backtick]) := rfl
  have hforeign : ascii "` FOREIGN KEY (`" =
      [backtick] ++ (wordsText [ascii "FOREIGN", ascii "KEY"] ++ [32, 40, backtick]) := rfl
  have hreferences : ascii "`) REFERENCES `" =
      [backtick, 41] ++ (wordsText [ascii "REFERENCES"] ++ [32, backtick]) := rfl
  have hdot : ascii "`.`" = [backtick, 46, backtick] := rfl
  have hopen : ascii "` (" = [backtick, 32, 40] := rfl
  have hclose : ascii ")" = [41] := rfl
  have hdelete := actionText_eq " ON DELETE " [ascii "ON", ascii "DELETE"] item.deleteActions rfl
  have hupdate := actionText_eq " ON UPDATE " [ascii "ON", ascii "UPDATE"] item.updateActions rfl
  have hsql : foreignKeySql item = ascii "\n\tCONSTRAINT `" ++ item.name ++ ascii "` FOREIGN KEY (`" ++
      [44].intercalate item.field ++ ascii "`) REFERENCES `" ++ item.database ++ ascii "`.`" ++ item.table ++
      ascii "` (" ++ columnsSql item.columns ++ ascii ")" ++
      actionText [ascii "ON", ascii "DELETE"] item.deleteActions ++
      actionText [ascii "ON", ascii "UPDATE"] item.updateActions := by
    rw [← hdelete, ← hupdate]
    rfl
  rw [hsql, hconstraint, hforeign, hreferences, hdot, hopen, hclose, columnsSql_eq]
  simp only [foreignKeyText, fromColumns, ForeignKeyItem.foreignKey, ticked, qualifiedText, bracketText,
    List.append_assoc, List.cons_append, List.nil_append]

theorem ForeignKeyItem.writable_iff (item : ForeignKeyItem) : item.Writable ↔
    backtick ∉ item.name ∧ (∃ w, item.field = [w] ∧ backtick ∉ w) ∧
      (backtick ∉ item.database ∧ backtick ∉ item.table) ∧ item.columns ≠ [] ∧
        ∀ w ∈ item.columns, backtick ∉ w := by
  constructor
  · exact fun h => ⟨h.name, h.field, ⟨h.database, h.table⟩, h.nonempty, h.columns⟩
  · exact fun ⟨hname, hfield, ⟨hdatabase, htable⟩, hne, hcolumns⟩ =>
      ⟨hname, hfield, hdatabase, htable, hne, hcolumns⟩

/-- **What the text of a foreign key is read as.** -/
theorem foreignKey_item_settles (reserved : Bytes → Bool) (item : ForeignKeyItem) :
    Settles (Ahead [ascii "ON"]) (definition reserved) (foreignKeySql item)
      (· = .foreignKey item.foreignKey) item.Writable := by
  rw [foreignKeySql_eq]
  have hcolumns : Settles (fun _ => True) (bracketed (name reserved)) (fromColumns item)
      (· = item.foreignKey.columns) (∃ w, item.field = [w] ∧ backtick ∉ w) :=
    joined_settles reserved item.field
  exact (foreignKey_defines hcolumns).mono item.writable_iff fun t ht => ht

section PrimaryKeys

variable {params : TableStructure} {t tail : Bytes} {n : Nat}

theorem keys_zipIdx (items : List FieldItem) (k : Nat) :
    ((items.zipIdx (k + 1)).map fun (item, index) =>
      if item.isPrimaryKey then (if index = 0 then [] else ascii ",") ++ backquoted item.name else []).flatten =
      ((items.filter FieldItem.isPrimaryKey).map FieldItem.name).flatMap fun w => 44 :: ticked w := by
  induction items generalizing k with
  | nil => rfl
  | cons item items ih =>
    rw [List.zipIdx_cons, List.map_cons, List.flatten_cons, ih]
    by_cases hkey : item.isPrimaryKey = true
    · rw [List.filter_cons_of_pos hkey, List.map_cons, List.flatMap_cons]
      dsimp only
      rw [if_pos hkey, if_neg (Nat.succ_ne_zero k)]
      rfl
    · rw [List.filter_cons_of_neg hkey]
      dsimp only
      rw [if_neg hkey, List.nil_append]

/-- The key list begins with a comma unless the first column is in the key. -/
theorem keys_cases (params : TableStructure) : params.keys = [] ∧ params.keyNames = [] ∨
    params.keyNames ≠ [] ∧ (params.keys = sepText [] ticked params.keyNames ∨ ∃ s, params.keys = 44 :: s) := by
  unfold TableStructure.keys TableStructure.keyNames
  cases hfields : params.fieldData with
  | nil => exact .inl ⟨rfl, rfl⟩
  | cons item items =>
    rw [List.zipIdx_cons, List.map_cons, List.flatten_cons, keys_zipIdx]
    dsimp only
    by_cases hkey : item.isPrimaryKey = true
    · refine .inr ⟨?_, .inl ?_⟩
      · rw [List.filter_cons_of_pos hkey]
        exact List.cons_ne_nil _ _
      · rw [List.filter_cons_of_pos hkey, List.map_cons, sepText_cons, if_pos hkey, if_pos rfl]
        rfl
    · rw [List.filter_cons_of_neg hkey, if_neg hkey, List.nil_append]
      cases hrest : (items.filter FieldItem.isPrimaryKey).map FieldItem.name with
      | nil => exact .inl ⟨rfl, rfl⟩
      | cons w ws =>
        exact .inr ⟨List.cons_ne_nil w ws, .inr ⟨ticked w ++ ws.flatMap fun w => 44 :: ticked w, rfl⟩⟩

/-- Nothing is defined by a key list that begins with a comma. -/
theorem definition_comma (s : Bytes) :
    definition reserved (ascii "\n\tPRIMARY KEY (" ++ 44 :: s) = none := by
  have hword : (word (skipSpace (ascii "\n\tPRIMARY KEY (" ++ 44 :: s))).1 = ascii "PRIMARY" := rfl
  rw [definition_of_word hword, if_neg (by decide), if_pos rfl]
  by_contra hne
  obtain ⟨⟨d, r⟩, hread⟩ := Option.ne_none_iff_exists'.mp hne
  obtain ⟨⟨names, r'⟩, hkey, -⟩ := Option.map_eq_some_iff.mp hread
  unfold primaryKey after at hkey
  obtain ⟨t', hkeywords, hbracket⟩ := Option.bind_eq_some_iff.mp hkey
  have htext : keywords [ascii "PRIMARY", ascii "KEY"] (ascii "\n\tPRIMARY KEY (" ++ 44 :: s) =
      some ([32] ++ 40 :: 44 :: s) := by
    have hspaced : skipSpace (ascii "\n\tPRIMARY KEY (" ++ 44 :: s) =
        skipSpace (ascii "PRIMARY" ++ (wordsText [ascii "KEY"] ++ [32] ++ 40 :: 44 :: s)) := rfl
    rw [spaced_keywords _ _ hspaced]
    exact keywords_primary _
  rw [htext] at hkeywords
  obtain rfl := Option.some.inj hkeywords
  obtain ⟨-, t₁, x, r₁, hopen, hname, -⟩ := bracketed_ne_nil hbracket
  obtain rfl : 44 :: s = t₁ := Option.some.inj hopen
  have hnone : name reserved (44 :: s) = none := by
    rw [name, skipSpace_cons rfl]
    dsimp only
    rw [if_neg (by decide), if_neg]
    exact fun h => h.1 rfl
  rw [hnone] at hname
  cases hname

/-- **What ends the body**, after a comma: the primary key and the comma after it, or nothing. -/
theorem not_closes_primaryKey :
    ¬ Closes (definition reserved) n (params.primaryKeySql ++ (ascii "\n\n)" ++ t)) params.primaryKeys tail := by
  intro h
  unfold TableStructure.primaryKeySql TableStructure.primaryKeys at h
  rcases keys_cases params with ⟨-, hnil⟩ | ⟨hne, hkeys | ⟨s, hkeys⟩⟩
  · rw [if_pos hnil] at h
    exact not_closes_nil h
  · have hsql : params.keys ≠ [] := by
      intro heq
      obtain ⟨w, ws, hnames⟩ := List.exists_cons_of_ne_nil hne
      rw [hnames, sepText_cons] at hkeys
      rw [heq] at hkeys
      cases hkeys
    have htext : ascii "\n\tPRIMARY KEY (" ++ params.keys ++ ascii ")," ++ (ascii "\n\n)" ++ t) =
        [10, 9] ++ primaryKeyText params.keyNames ++ 44 :: (ascii "\n\n)" ++ t) := by
      have hstart : ascii "\n\tPRIMARY KEY (" =
          [10, 9] ++ (ascii "PRIMARY" ++ (wordsText [ascii "KEY"] ++ [32, 40])) := rfl
      have hcomma : ascii ")," = [41, 44] := rfl
      rw [hstart, hkeys, hcomma]
      simp only [primaryKeyText, bracketText, List.append_assoc, List.cons_append, List.nil_append]
    rw [if_neg hsql, if_neg hne, htext] at h
    obtain ⟨-, m, -, hrest⟩ :=
      (closes_cons (primaryKey_defines reserved params.keyNames) trivial (punctuation_self rfl _)).mp h
    exact not_closes_nil hrest
  · have hsql : params.keys ≠ [] := by
      rw [hkeys]
      exact List.cons_ne_nil 44 s
    rw [if_neg hsql, if_neg hne, hkeys, List.append_assoc, List.append_assoc, List.cons_append] at h
    obtain ⟨r, hread⟩ := h.head
    rw [definition_comma] at hread
    cases hread

end PrimaryKeys

/-! ## Indexes -/

section Indexes

variable {r s t w : Bytes} {us ws : List Bytes}

/-- What a word with other text after it goes on with: neither its own bytes nor a parenthesis. -/
structure Onward (t : Bytes) : Prop where
  endsWord : EndsWord t
  opens : punctuation 40 t = none

/-- The text is empty, or begins with one of the words. -/
def Leads (ws : List Bytes) (s : Bytes) : Prop :=
  s = [] ∨ ∃ w ∈ ws, ∃ z, s = 32 :: (w ++ z) ∧ ∀ t, Onward t → Onward (z ++ t)

theorem onward_space {c : Nat} (hc : isSpace c = true) (h : punctuation 40 t = none) : Onward (c :: t) := by
  constructor
  · refine endsWord_cons ?_ t
    by_contra hword
    have hspace := isSpace_of_isWordByte (eq_true_of_ne_false hword)
    rw [hc] at hspace
    cases hspace
  · have hskip : skipSpace (c :: t) = skipSpace t := List.dropWhile_cons_of_pos hc
    rw [spaced_punctuation 40 hskip]
    exact h

theorem punctuation_word {c : Nat} (hw : IsKeyword w) (hc : isWordByte c = false) (t : Bytes) :
    punctuation c (w ++ t) = none := by
  obtain ⟨d, v, rfl⟩ := List.exists_cons_of_ne_nil hw.1
  have hd := hw.2 d List.mem_cons_self
  refine punctuation_ne (isSpace_of_isWordByte hd) (fun heq => ?_) (v ++ t)
  rw [heq, hc] at hd
  cases hd

theorem Leads.mono (h : Leads ws s) (hsub : ws ⊆ us) : Leads us s := by
  rcases h with rfl | ⟨w, hw, z, rfl, hz⟩
  · exact .inl rfl
  · exact .inr ⟨w, hsub hw, z, rfl, hz⟩

theorem Leads.onward (h : Leads ws s) (hws : ∀ w ∈ ws, IsKeyword w) (ht : Onward t) : Onward (s ++ t) := by
  rcases h with rfl | ⟨w, hw, z, rfl, hz⟩
  · exact ht
  · rw [List.cons_append, List.append_assoc]
    exact onward_space rfl (punctuation_word (hws w hw) rfl (z ++ t))

theorem Leads.append {s' : Bytes} (h : Leads ws s) (h' : Leads ws s') (hws : ∀ w ∈ ws, IsKeyword w) :
    Leads ws (s ++ s') := by
  rcases h with rfl | ⟨w, hw, z, rfl, hz⟩
  · exact h'
  · refine .inr ⟨w, hw, z ++ s', ?_, fun t ht => ?_⟩
    · rw [List.cons_append, List.append_assoc]
    · rw [List.append_assoc]
      exact hz (s' ++ t) (h'.onward hws ht)

theorem leads_word (hw : w ∈ ws) {c : Nat} (hc : isSpace c = true) (z : Bytes)
    (hz : ∀ t, punctuation 40 (z ++ t) = none) : Leads ws (32 :: (w ++ c :: z)) :=
  .inr ⟨w, hw, c :: z, rfl, fun t _ => onward_space hc (hz t)⟩

/-- What begins with none of the words of an index cannot go on as one. -/
theorem Leads.apart (h : Leads ws s) (hws : ∀ w ∈ ws, IsKeyword w ∧ w ∉ indexWords) (ht : Apart t)
    (hend : EndsWord t) : Apart (s ++ t) := by
  rcases h with rfl | ⟨w, hw, z, rfl, hz⟩
  · exact ht
  · have honward := hz t ⟨hend, ht.opens⟩
    have hword : Apart (w ++ (z ++ t)) :=
      apart_word (hws w hw).1 (hws w hw).2 honward.endsWord honward.opens
    refine hword.congr ?_
    rw [List.cons_append, List.append_assoc]
    rfl

/-- The words that the options of an index begin with. -/
def indexOptionWords : List Bytes := [ascii "KEY_BLOCK_SIZE", ascii "USING", ascii "WITH", ascii "COMMENT"]

def indexOptionsText (item : IndexItem) : Bytes :=
  (if item.keyBlockSize = [] then [] else ascii " KEY_BLOCK_SIZE = " ++ item.keyBlockSize) ++
    ((match item.indexFunction with
      | none => []
      | some function => ascii " USING " ++ function.text) ++
    ((if item.btreeWithParser = [] then [] else ascii " WITH PARSER `" ++ item.btreeWithParser ++ ascii "`") ++
    (if item.remark = [] then [] else ascii " COMMENT '" ++ item.remark ++ ascii "'")))

def indexNameText (item : IndexItem) : Bytes :=
  if item.name = [] then []
  else ascii " INDEX" ++ 32 :: quote :: (item.name ++ ascii "' (" ++ listed backquoted item.fileds ++ ascii ")")

def indexKindText (item : IndexItem) : Bytes :=
  match item.indexType.bind IndexType.kind with
  | none => []
  | some k => 32 :: k.keyword

theorem indexKindText_cases (item : IndexItem) :
    indexKindText item = [] ∨ ∃ k, indexKindText item = 32 :: IndexKind.keyword k := by
  unfold indexKindText
  cases item.indexType.bind IndexType.kind with
  | none => exact .inl rfl
  | some k => exact .inr ⟨k, rfl⟩

theorem indexNameText_cases (item : IndexItem) :
    indexNameText item = [] ∨ ∃ s, indexNameText item = ascii " INDEX" ++ 32 :: quote :: s := by
  unfold indexNameText
  split
  · exact .inl rfl
  · exact .inr ⟨_, rfl⟩

theorem indexSql_eq (item : IndexItem) : indexSql item =
    [10, 9] ++ (indexKindText item ++ (indexNameText item ++ indexOptionsText item)) := by
  have hstart : ascii "\n\t" = [10, 9] := rfl
  have hindex : ascii " INDEX '" = ascii " INDEX" ++ [32, quote] := rfl
  have hname : (if item.name = [] then []
      else ascii " INDEX '" ++ item.name ++ ascii "' (" ++ listed backquoted item.fileds ++ ascii ")") =
      indexNameText item := by
    rw [indexNameText, hindex]
    simp
  unfold indexSql indexKindText indexOptionsText
  rw [hname, hstart]
  simp only [List.append_assoc]
  congr 1
  cases item.indexType with
  | none => rfl
  | some type => cases type <;> rfl

theorem indexOptions_lead (item : IndexItem) : Leads indexOptionWords (indexOptionsText item) := by
  have hwords : ∀ w ∈ indexOptionWords, IsKeyword w := by decide
  have hsize : Leads indexOptionWords
      (if item.keyBlockSize = [] then [] else ascii " KEY_BLOCK_SIZE = " ++ item.keyBlockSize) := by
    split
    · exact .inl rfl
    · exact leads_word (w := ascii "KEY_BLOCK_SIZE") (by decide) rfl (61 :: 32 :: item.keyBlockSize)
        fun t => rfl
  have hfunction : Leads indexOptionWords (match item.indexFunction with
      | none => []
      | some function => ascii " USING " ++ function.text) := by
    cases item.indexFunction with
    | none => exact .inl rfl
    | some function =>
      refine leads_word (w := ascii "USING") (by decide) rfl function.text fun t => ?_
      cases function <;> rfl
  have hparser : Leads indexOptionWords (if item.btreeWithParser = [] then []
      else ascii " WITH PARSER `" ++ item.btreeWithParser ++ ascii "`") := by
    split
    · exact .inl rfl
    · rw [List.append_assoc]
      exact leads_word (w := ascii "WITH") (by decide) rfl
        (ascii "PARSER `" ++ (item.btreeWithParser ++ ascii "`")) fun t => rfl
  have hremark : Leads indexOptionWords
      (if item.remark = [] then [] else ascii " COMMENT '" ++ item.remark ++ ascii "'") := by
    split
    · exact .inl rfl
    · rw [List.append_assoc]
      exact leads_word (w := ascii "COMMENT") (by decide) rfl (quote :: (item.remark ++ ascii "'")) fun t => rfl
  exact hsize.append (hfunction.append (hparser.append hremark hwords) hwords) hwords

/-- **No text of an index is read as an index**: its name stands between quotes. -/
theorem not_index (item : IndexItem) (ht : Apart t) (hend : EndsWord t) (i : Index) :
    definition reserved (indexSql item ++ t) ≠ some (.index i, r) := by
  intro hread
  have hindex := index_of_definition hread
  have hoptions : Apart (indexOptionsText item ++ t) :=
    (indexOptions_lead item).apart (by decide) ht hend
  have honward : Onward (indexOptionsText item ++ t) :=
    (indexOptions_lead item).onward (by decide) ⟨hend, ht.opens⟩
  have hquote (s : Bytes) : Apart (32 :: quote :: s) :=
    (apart_byte (c := quote) rfl rfl (by decide) (by decide) s).congr rfl
  have htext : skipSpace (indexSql item ++ t) =
      skipSpace (indexKindText item ++ (indexNameText item ++ (indexOptionsText item ++ t))) := by
    rw [indexSql_eq]
    simp only [List.append_assoc]
    rfl
  rw [spaced_index reserved htext] at hindex
  suffices hnone : index reserved
      (indexKindText item ++ (indexNameText item ++ (indexOptionsText item ++ t))) = none by
    rw [hnone] at hindex
    cases hindex
  refine index_eq_none fun k r hhead => ?_
  rcases indexKindText_cases item with hkind | ⟨k', hkind⟩
  · rcases indexNameText_cases item with hname | ⟨s, hname⟩
    · rw [hkind, hname, List.nil_append, List.nil_append, hoptions.indexHead] at hhead
      cases hhead
    · rw [hkind, hname, List.nil_append, List.append_assoc, List.cons_append, List.cons_append,
        indexHead_index (endsWord_cons rfl _)] at hhead
      obtain ⟨-, rfl⟩ := Prod.mk.inj (Option.some.inj hhead)
      exact hquote _
  · have hspace (z : Bytes) : indexHead (32 :: k'.keyword ++ z) = indexHead (k'.keyword ++ z) := rfl
    rw [hkind, hspace] at hhead
    rcases indexNameText_cases item with hname | ⟨s, hname⟩
    · rw [hname, List.nil_append, indexHead_kind k' hoptions honward.endsWord] at hhead
      obtain ⟨-, rfl⟩ := Prod.mk.inj (Option.some.inj hhead)
      exact hoptions.congr (skipSpace_skipSpace _)
    · rw [hname, List.append_assoc, List.cons_append, List.cons_append,
        indexHead_kind_index k' (endsWord_cons rfl _)] at hhead
      obtain ⟨-, rfl⟩ := Prod.mk.inj (Option.some.inj hhead)
      exact hquote _

end Indexes

/-! ## Bodies -/

section Bodies

variable {params : TableStructure} {i : Index} {items : List IndexItem} {xs : List Definition}
  {t tail : Bytes} {n : Nat}

/-- What follows the columns or the indexes: neither a comma nor a word of theirs. -/
structure Rest (t : Bytes) : Prop where
  ahead : Ahead (ascii "ON" :: ascii "COMMENT" :: optionWords) t
  noComma : punctuation 44 t = none
  apart : Apart t

theorem Rest.spaced {c : Nat} (h : Rest t) (hc : isSpace c = true) : Rest (c :: t) := by
  have hskip : skipSpace (c :: t) = skipSpace t := List.dropWhile_cons_of_pos hc
  refine ⟨h.ahead.spaced hc, ?_, h.apart.congr hskip⟩
  rw [spaced_punctuation 44 hskip]
  exact h.noComma

theorem ahead_newline {w : Bytes} {ws : List Bytes} (hw : IsCapital w) (hnot : w ∉ ws) (ht : EndsWord t) :
    Ahead ws ([10, 9] ++ 32 :: (w ++ t)) :=
  ((ahead_word hw hnot ht).spaced (c := 9) rfl).spaced (c := 10) rfl

theorem rest_newline {w : Bytes} (hw : IsCapital w) (hnot : w ∉ ascii "ON" :: ascii "COMMENT" :: optionWords)
    (hindex : w ∉ indexWords) (ht : Onward t) : Rest ([10, 9] ++ (w ++ t)) := by
  have hskip : skipSpace ([10, 9] ++ (w ++ t)) = skipSpace (w ++ t) := rfl
  refine ⟨?_, ?_, (apart_word hw.1 hindex ht.endsWord ht.opens).congr hskip⟩
  · have hahead := ahead_newline hw hnot ht.endsWord
    exact ⟨endsWord_cons rfl _, hahead.endsText, hahead.first⟩
  · rw [spaced_punctuation 44 hskip]
    exact punctuation_word hw.1 rfl t

/-- The end of a body. -/
def closing (params : TableStructure) : Bytes := params.primaryKeySql ++ (ascii "\n\n)" ++ params.endSql)

theorem rest_close (t : Bytes) : Rest (ascii "\n\n)" ++ t) := by
  refine ⟨?_, rfl, ?_⟩
  · have hahead : Ahead (ascii "ON" :: ascii "COMMENT" :: optionWords) (41 :: t) :=
      ahead_punctuation (.inr rfl) (by decide) t
    exact (hahead.spaced (c := 10) rfl).spaced (c := 10) rfl
  · exact (apart_byte (c := 41) rfl rfl (by decide) (by decide) t).congr rfl

theorem rest_closing (params : TableStructure) : Rest (closing params) := by
  unfold closing TableStructure.primaryKeySql
  split
  · exact rest_close params.endSql
  · have htext : ascii "\n\tPRIMARY KEY (" ++ params.keys ++ ascii ")," ++ (ascii "\n\n)" ++ params.endSql) =
        [10, 9] ++ (ascii "PRIMARY" ++ 32 :: (ascii "KEY (" ++ (params.keys ++ (ascii ")," ++
          (ascii "\n\n)" ++ params.endSql))))) := by
      have hstart : ascii "\n\tPRIMARY KEY (" = [10, 9] ++ (ascii "PRIMARY" ++ 32 :: ascii "KEY (") := rfl
      rw [hstart]
      simp only [List.append_assoc, List.cons_append]
    rw [htext]
    exact rest_newline (by decide) (by decide) (by decide) (onward_space rfl rfl)

/-- The foreign keys and the end. -/
def keysSql (params : TableStructure) : Bytes :=
  listed foreignKeySql params.foreignKeyData ++ (if 1 < params.foreignKeyData.length then ascii "," else []) ++
    closing params

theorem rest_keysSql (params : TableStructure) : Rest (keysSql params) := by
  unfold keysSql
  cases params.foreignKeyData with
  | nil => exact rest_closing params
  | cons item items =>
    rw [listed_cons, foreignKeySql_eq, foreignKeyText]
    simp only [List.append_assoc]
    exact rest_newline (w := ascii "CONSTRAINT") (by decide) (by decide) (by decide) (onward_space rfl rfl)

theorem primaryKeys_eq_nil_iff (params : TableStructure) :
    params.primaryKeys = [] ↔ ∀ item ∈ params.fieldData, item.isPrimaryKey = false := by
  unfold TableStructure.primaryKeys TableStructure.keyNames
  by_cases hnil : (params.fieldData.filter FieldItem.isPrimaryKey).map FieldItem.name = []
  · rw [if_pos hnil]
    rw [List.map_eq_nil_iff, List.filter_eq_nil_iff] at hnil
    exact iff_of_true rfl fun item hitem => eq_false_of_ne_true (hnil item hitem)
  · rw [if_neg hnil]
    refine iff_of_false (List.cons_ne_nil _ _) fun hall => hnil ?_
    rw [List.map_eq_nil_iff, List.filter_eq_nil_iff]
    intro item hitem
    rw [hall item hitem]
    exact Bool.false_ne_true

theorem closing_eq (h : params.primaryKeys = []) : closing params = ascii "\n\n)" ++ params.endSql := by
  have hsql : params.primaryKeySql = [] := by
    unfold TableStructure.primaryKeys at h
    unfold TableStructure.primaryKeySql
    rcases keys_cases params with ⟨hkeys, -⟩ | ⟨hne, -⟩
    · exact if_pos hkeys
    · rw [if_neg hne] at h
      cases h
  rw [closing, hsql, List.nil_append]

theorem punctuation_close (t : Bytes) : punctuation 41 (ascii "\n\n)" ++ t) = some t := rfl

/-- **The keys after a comma**: one foreign key, and no primary key after it. -/
theorem closes_keys : Closes (definition reserved) n (keysSql params)
      (params.foreignKeyData.map (fun item => .foreignKey item.foreignKey) ++ params.primaryKeys) params.endSql ↔
    n ≠ 0 ∧ params.foreignKeyData.length = 1 ∧ (∀ item ∈ params.foreignKeyData, item.Writable) ∧
      ∀ item ∈ params.fieldData, item.isPrimaryKey = false := by
  rw [← primaryKeys_eq_nil_iff]
  unfold keysSql
  have hahead : ∀ t, Rest t → Ahead [ascii "ON"] t := fun t ht => ht.ahead.mono (by decide)
  rcases hkeys : params.foreignKeyData with _ | ⟨item, _ | ⟨item', items⟩⟩
  · refine iff_of_false not_closes_primaryKey ?_
    rintro ⟨-, hone, -⟩
    cases hone
  · have htext : listed foreignKeySql [item] ++ (if 1 < [item].length then ascii "," else []) ++ closing params =
        foreignKeySql item ++ closing params := by simp [listed_cons]
    rw [htext, List.map_singleton, List.singleton_append, closes_last (foreignKey_item_settles reserved item)
      (hahead _ (rest_closing params)) (rest_closing params).noComma]
    constructor
    · rintro ⟨hitem, hn, hnil, -⟩
      exact ⟨hn, rfl, List.forall_mem_singleton.mpr hitem, hnil⟩
    · rintro ⟨hn, -, hitem, hnil⟩
      refine ⟨hitem item List.mem_cons_self, hn, hnil, ?_⟩
      rw [closing_eq hnil]
      exact punctuation_close params.endSql
  · refine iff_of_false (fun hcloses => ?_) ?_
    · rw [if_pos (by simp), List.append_assoc] at hcloses
      have hcomma : ascii "," ++ closing params = 44 :: closing params := rfl
      rw [hcomma, listed_comma (List.cons_ne_nil item (item' :: items))] at hcloses
      have hitems : ∀ k ∈ item :: item' :: items, Settles (Ahead [ascii "ON"]) (definition reserved)
          (foreignKeySql k) (· = .foreignKey k.foreignKey) k.Writable :=
        fun k _ => foreignKey_item_settles reserved k
      obtain ⟨-, m, -, hrest⟩ := (closes_append hitems fun t => ahead_punctuation (.inl rfl) (by decide) t).mp hcloses
      exact not_closes_primaryKey hrest
    · rintro ⟨-, hone, -⟩
      cases hone

/-- What follows an index. -/
theorem apart_items (items : List IndexItem) (h : Rest t) :
    Apart ((items.flatMap fun item => 44 :: indexSql item) ++ t) ∧
      EndsWord ((items.flatMap fun item => 44 :: indexSql item) ++ t) := by
  cases items with
  | nil => exact ⟨h.apart, h.ahead.endsWord⟩
  | cons item items =>
    rw [List.flatMap_cons, List.cons_append, List.cons_append]
    exact ⟨apart_byte rfl rfl (by decide) (by decide) _, endsWord_cons rfl _⟩

/-- **Where an index is meant, none is read.** -/
theorem not_closes_index (item : IndexItem) (items : List IndexItem) (h : Rest t) :
    ¬ Closes (definition reserved) n (listed indexSql (item :: items) ++ t) (.index i :: xs) tail := by
  intro hcloses
  rw [listed_cons, List.append_assoc] at hcloses
  obtain ⟨r, hread⟩ := hcloses.head
  obtain ⟨hapart, hend⟩ := apart_items items h
  exact not_index item hapart hend i hread

/-- The words that the text of an index begins with. -/
def indexTextWords : List Bytes :=
  [ascii "UNIQUE", ascii "FULLTEXT", ascii "SPATIAL", ascii "INDEX", ascii "KEY_BLOCK_SIZE", ascii "USING",
    ascii "WITH", ascii "COMMENT"]

theorem indexText_leads (item : IndexItem) :
    Leads indexTextWords (indexKindText item ++ (indexNameText item ++ indexOptionsText item)) := by
  have hwords : ∀ w ∈ indexTextWords, IsKeyword w := by decide
  have hkind : Leads indexTextWords (indexKindText item) := by
    rcases indexKindText_cases item with hkind | ⟨k, hkind⟩
    · exact .inl hkind
    · refine .inr ⟨k.keyword, by cases k <;> decide, [], ?_, fun t ht => ht⟩
      rw [hkind, List.append_nil]
  have hname : Leads indexTextWords (indexNameText item) := by
    rcases indexNameText_cases item with hname | ⟨s, hname⟩
    · exact .inl hname
    · rw [hname]
      exact leads_word (w := ascii "INDEX") (by decide) rfl (quote :: s) fun t => rfl
  exact hkind.append (hname.append ((indexOptions_lead item).mono (by decide)) hwords) hwords

/-- A column with no comma after it is the last definition. -/
theorem closes_column (item : FieldItem) (h : Ahead (ascii "COMMENT" :: optionWords) t)
    (hcomma : punctuation 44 t = none) :
    Closes (definition reserved) n (fieldSql item ++ t) (.column item.column :: xs) tail ↔
      item.Writable ∧ n ≠ 0 ∧ xs = [] ∧ punctuation 41 t = some tail :=
  closes_last (writable_settles reserved item) h hcomma

/-- The comment of an index that has nothing before it is read as that of the column. -/
theorem closes_comment (item : FieldItem) {z : Bytes} (hz : EndsWord z)
    (h : Closes (definition reserved) n (fieldSql item ++ ([10, 9] ++ 32 :: (ascii "COMMENT" ++ z)))
      (.column item.column :: xs) tail) : xs = [] := by
  have hkeyword : keyword (ascii "COMMENT") ([10, 9] ++ 32 :: (ascii "COMMENT" ++ z)) = some z := by
    have hskip : keyword (ascii "COMMENT") ([10, 9] ++ 32 :: (ascii "COMMENT" ++ z)) =
        keyword (ascii "COMMENT") (ascii "COMMENT" ++ z) := rfl
    rw [hskip, keyword_append (by decide) (by decide) hz]
  have hahead : Ahead optionWords ([10, 9] ++ 32 :: (ascii "COMMENT" ++ z)) :=
    ahead_newline (by decide) (by decide) hz
  have hcomment : Settles (fun t => keyword (ascii "COMMENT") t ≠ none ∧ Ahead optionWords t) comment
      (commentText item.column.comment) (· = item.column.comment)
      (item.column.comment ≠ none ∧ PlainComment item.column.comment) :=
    (comment_settles_before item.column.comment).mono Iff.rfl fun t ht => ⟨ht.1, ht.2.endsText⟩
  have hfield := field_settles reserved item hcomment fun t ht =>
    ahead_commentText ht.2 (by decide) item.column.comment
  have hcomma : punctuation 44 ([10, 9] ++ 32 :: (ascii "COMMENT" ++ z)) = none := rfl
  have hne : keyword (ascii "COMMENT") ([10, 9] ++ 32 :: (ascii "COMMENT" ++ z)) ≠ none := by
    rw [hkeyword]
    exact Option.some_ne_none z
  exact ((closes_last hfield ⟨hne, hahead⟩ hcomma).mp h).2.2.1

/-- **Indexes after the only column**: there is no comma before them. -/
theorem not_closes_column (item : FieldItem) (index : IndexItem) (items : List IndexItem) (h : Rest t) :
    ¬ Closes (definition reserved) n (fieldSql item ++ (listed indexSql (index :: items) ++ t))
      (.column item.column :: .index i :: xs) tail := by
  have hrest (z : Bytes) (hz : Ahead (ascii "COMMENT" :: optionWords) z) (hcomma : punctuation 44 z = none) :
      ¬ Closes (definition reserved) n (fieldSql item ++ z) (.column item.column :: .index i :: xs) tail := by
    intro hcloses
    obtain ⟨-, -, hnil, -⟩ := (closes_column item hz hcomma).mp hcloses
    cases hnil
  obtain ⟨hapart, hend⟩ := apart_items items h
  rw [listed_cons, indexSql_eq, List.append_assoc, List.append_assoc]
  rcases indexText_leads index with hempty | ⟨w, hw, z, htext, hz⟩
  · rw [hempty, List.nil_append]
    cases items with
    | nil =>
      have hspaced := (h.spaced (c := 9) rfl).spaced (c := 10) rfl
      exact hrest _ (hspaced.ahead.mono (by decide)) hspaced.noComma
    | cons next items =>
      intro hcloses
      have hnext : (List.flatMap (fun item => 44 :: indexSql item) (next :: items)) ++ t =
          44 :: (listed indexSql (next :: items) ++ t) := by rw [listed_cons]; simp
      rw [hnext] at hcloses
      have hahead : Ahead (ascii "COMMENT" :: optionWords)
          ([10, 9] ++ 44 :: (listed indexSql (next :: items) ++ t)) :=
        ((ahead_punctuation (.inl rfl) (by decide) _).spaced (c := 9) rfl).spaced (c := 10) rfl
      obtain ⟨-, m, -, hlist⟩ := (closes_cons (writable_settles reserved item) hahead rfl).mp hcloses
      exact not_closes_index next items h hlist
  · have hall : ∀ w ∈ indexTextWords, IsCapital w ∧ w ∉ optionWords := by decide
    obtain ⟨hcapital, hnot⟩ := hall w hw
    have honward := hz _ ⟨hend, hapart.opens⟩
    have hassoc (s : Bytes) : 32 :: (w ++ z) ++ s = 32 :: (w ++ (z ++ s)) := by simp
    rw [htext, hassoc]
    by_cases hcomment : w = ascii "COMMENT"
    · subst hcomment
      intro hcloses
      cases closes_comment item honward.endsWord hcloses
    · refine hrest _ (ahead_newline hcapital ?_ honward.endsWord) ?_
      · exact fun hmem => (List.mem_cons.mp hmem).elim hcomment hnot
      · have hskip (y : Bytes) : punctuation 44 ([10, 9] ++ 32 :: y) = punctuation 44 y := rfl
        rw [hskip]
        exact punctuation_word hcapital.1 rfl _

theorem body_eq (params : TableStructure) : params.bodySql ++ (ascii "\n\n)" ++ params.endSql) =
    listed fieldSql params.fieldData ++ ((if 1 < params.fieldData.length then ascii "," else []) ++
      (listed indexSql params.indexData ++ keysSql params)) := by
  unfold TableStructure.bodySql keysSql closing
  simp only [List.append_assoc]

theorem length_le_flatMap {α : Type} (text : α → Bytes) (xs : List α) :
    xs.length ≤ (xs.flatMap fun x => text x ++ [44]).length := by
  induction xs with
  | nil => exact Nat.le_refl 0
  | cons x xs ih =>
    rw [List.flatMap_cons, List.length_append, List.length_append, List.length_cons, List.length_singleton]
    omega

theorem keysSql_pos (params : TableStructure) : 0 < (keysSql params).length := by
  have hclose : (ascii "\n\n)").length = 3 := rfl
  unfold keysSql closing
  simp only [List.length_append, hclose]
  omega

theorem TableStructure.writable_one {item : FieldItem} (hfields : params.fieldData = [item]) :
    params.Writable ↔ params.indexData = [] ∧ item.Writable ∧ params.foreignKeyData = [] ∧
      params.primaryKeys = [] := by
  rw [primaryKeys_eq_nil_iff]
  constructor
  · intro h
    refine ⟨h.noIndex, h.fields item (hfields ▸ List.mem_cons_self), ?_, h.noKey⟩
    rcases h.commas with ⟨-, hnil⟩ | ⟨htwo, -⟩
    · exact hnil
    · rw [hfields, List.length_singleton] at htwo
      omega
  · rintro ⟨hindex, hitem, hkeys, hprimary⟩
    refine ⟨hindex, hprimary, .inl ⟨by rw [hfields, List.length_singleton], hkeys⟩, ?_, ?_⟩
    · rw [hfields]
      exact List.forall_mem_singleton.mpr hitem
    · rw [hkeys]
      exact fun k hk => absurd hk List.not_mem_nil

theorem TableStructure.writable_many (hfields : 2 ≤ params.fieldData.length) :
    params.Writable ↔ params.indexData = [] ∧ (∀ item ∈ params.fieldData, item.Writable) ∧
      params.foreignKeyData.length = 1 ∧ (∀ item ∈ params.foreignKeyData, item.Writable) ∧
        ∀ item ∈ params.fieldData, item.isPrimaryKey = false := by
  constructor
  · intro h
    refine ⟨h.noIndex, h.fields, ?_, h.foreignKeys, h.noKey⟩
    rcases h.commas with ⟨hone, -⟩ | ⟨-, hkeys⟩
    · omega
    · exact hkeys
  · exact fun ⟨hindex, hitems, hone, hkeys, hprimary⟩ =>
      ⟨hindex, hprimary, .inr ⟨hfields, hone⟩, hitems, hkeys⟩

/-- One column. -/
theorem definesTable_one {item : FieldItem} (hfields : params.fieldData = [item]) :
    params.DefinesTable reserved ↔ params.Writable := by
  rw [TableStructure.writable_one hfields, TableStructure.DefinesTable, parseTableBody_iff, body_eq,
    TableStructure.definitions, hfields]
  have htext (s : Bytes) : listed fieldSql [item] ++ ((if 1 < [item].length then ascii "," else []) ++ s) =
      fieldSql item ++ s := by simp [listed_cons]
  rw [htext, List.map_singleton, List.singleton_append]
  have hrest := rest_keysSql params
  cases hindexes : params.indexData with
  | nil =>
    have hnone : listed indexSql [] ++ keysSql params = keysSql params := rfl
    rw [hnone, List.map_nil, List.nil_append, closes_column item (hrest.ahead.mono (by decide)) hrest.noComma]
    constructor
    · rintro ⟨hitem, -, hnil, -⟩
      obtain ⟨hkeys, hprimary⟩ := List.append_eq_nil_iff.mp hnil
      exact ⟨rfl, hitem, List.map_eq_nil_iff.mp hkeys, hprimary⟩
    · rintro ⟨-, hitem, hkeys, hprimary⟩
      have hend : keysSql params = ascii "\n\n)" ++ params.endSql := by
        rw [keysSql, hkeys, closing_eq hprimary]
        rfl
      refine ⟨hitem, ?_, ?_, ?_⟩
      · have hpos := keysSql_pos params
        rw [List.length_append]
        omega
      · rw [hkeys, hprimary]
        rfl
      · rw [hend]
        exact punctuation_close params.endSql
  | cons index indexes =>
    refine iff_of_false ?_ fun h => absurd h.1 (List.cons_ne_nil index indexes)
    rw [List.map_cons, List.cons_append]
    exact not_closes_column item index indexes hrest

/-- Several columns. -/
theorem definesTable_many (hfields : 2 ≤ params.fieldData.length) :
    params.DefinesTable reserved ↔ params.Writable := by
  have hne : params.fieldData ≠ [] := by
    intro hnil
    rw [hnil] at hfields
    cases hfields
  have hcomma : (if 1 < params.fieldData.length then ascii "," else []) = [44] := if_pos hfields
  have hsettles : ∀ item ∈ params.fieldData, Settles (Ahead (ascii "COMMENT" :: optionWords)) (definition reserved)
      (fieldSql item) (· = .column item.column) item.Writable := fun item _ => writable_settles reserved item
  rw [TableStructure.writable_many hfields, TableStructure.DefinesTable, parseTableBody_iff, body_eq,
    TableStructure.definitions, hcomma, List.singleton_append, listed_comma hne,
    closes_append hsettles fun t => ahead_punctuation (.inl rfl) (by decide) t]
  have hrest := rest_keysSql params
  cases hindexes : params.indexData with
  | nil =>
    have hnone : listed indexSql [] ++ keysSql params = keysSql params := rfl
    rw [hnone, List.map_nil, List.nil_append]
    constructor
    · rintro ⟨hitems, m, -, hcloses⟩
      obtain ⟨-, hkeys⟩ := closes_keys.mp hcloses
      exact ⟨rfl, hitems, hkeys⟩
    · rintro ⟨-, hitems, hkeys⟩
      have hpos := keysSql_pos params
      have hlength := length_le_flatMap fieldSql params.fieldData
      refine ⟨hitems, (List.length (params.fieldData.flatMap fun y => fieldSql y ++ [44]) +
        (keysSql params).length) - params.fieldData.length, ?_, closes_keys.mpr ⟨?_, hkeys⟩⟩
      · rw [List.length_append]
        omega
      · omega
  | cons index indexes =>
    refine iff_of_false ?_ fun h => absurd h.1 (List.cons_ne_nil index indexes)
    rintro ⟨-, m, -, hcloses⟩
    rw [List.map_cons, List.cons_append] at hcloses
    exact not_closes_index index indexes hrest hcloses

end Bodies

/-- **When the body defines the table.** -/
theorem definesTable_iff (reserved : Bytes → Bool) (params : TableStructure) (h : params.fieldData ≠ []) :
    params.DefinesTable reserved ↔ params.Writable := by
  rcases hfields : params.fieldData with _ | ⟨item, _ | ⟨item', items⟩⟩
  · exact absurd hfields h
  · exact definesTable_one hfields
  · refine definesTable_many ?_
    rw [hfields, List.length_cons, List.length_cons]
    omega

/-- Two columns and a foreign key. -/
theorem definesTable_iff_orders : TableStructure.DefinesTable (fun _ => false)
    { tableName := ascii "orders"
      fieldData := [{ name := ascii "id", type := ascii "varchar", len := ascii "20", port := [] },
        { name := ascii "owner", type := ascii "varchar", len := ascii "20", port := [] }]
      foreignKeyData := [
        { name := ascii "fk", field := [ascii "owner"], database := ascii "shop", table := ascii "owners",
          columns := [ascii "id"], deleteActions := some .cascade }] } := by
  refine (definesTable_iff _ _ (List.cons_ne_nil _ _)).mpr ⟨rfl, ?_, .inr ⟨?_, rfl⟩, ?_, ?_⟩
  · decide
  · decide
  · refine List.forall_mem_cons.mpr ⟨⟨by decide, ⟨rfl, .inl ⟨rfl, rfl, rfl⟩⟩, rfl⟩, ?_⟩
    exact List.forall_mem_singleton.mpr ⟨by decide, ⟨rfl, .inl ⟨rfl, rfl, rfl⟩⟩, rfl⟩
  · exact List.forall_mem_singleton.mpr
      ⟨by decide, ⟨_, rfl, by decide⟩, by decide, by decide, List.cons_ne_nil _ _, by decide⟩

/-- A comma stands after the primary key. -/
theorem not_definesTable_primaryKey : ¬ TableStructure.DefinesTable (fun _ => false)
    { tableName := ascii "users"
      fieldData := [
        { name := ascii "id", type := ascii "varchar", len := ascii "20", port := [], isPrimaryKey := true }] } := by
  unfold TableStructure.DefinesTable
  decide +kernel

end NextDBM
