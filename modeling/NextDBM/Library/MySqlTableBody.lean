import NextDBM.Library.MySqlTables

/-!
# Bodies of tables

What a foreign key, a primary key and a whole definition are read as, and how a body is read one
definition after another (`Closes`).
-/

namespace MySqlText

variable {reserved : Bytes → Bool} {r s t w z : Bytes} {ws : List Bytes}

/-! ## Keys -/

/-- A name that goes on after a comma is not read as what stands before it. -/
theorem name_continued (w z : Bytes) : Avoids (name reserved (backtick :: (w ++ 44 :: z))) w := by
  rw [name_backtick]
  have hcomma (w' : Bytes) (hA : ∀ c ∈ w', c = backtick) :
      Avoids (delimited backtick noEscape (44 :: z)) w' := by
    rw [delimited_plain (by decide) rfl]
    exact avoids_push_of_not_mem fun hmem => absurd (hA 44 hmem) (by decide)
  by_cases hw : backtick ∈ w
  · refine delimited_avoids (A := (· = backtick)) rfl (fun w' _ hA => hcomma w' hA) ?_ hw
    intro w' hw' _
    have hhead : (44 :: z).head? ≠ some backtick := fun heq => by cases heq
    rw [delimited_close hhead]
    exact avoids_nil hw'
  · induction w with
    | nil => exact hcomma [] fun c hc => absurd hc List.not_mem_nil
    | cons c w ih =>
      obtain ⟨hc, hw⟩ := not_or.mp (mt List.mem_cons.mpr hw)
      rw [List.cons_append, delimited_plain (Ne.symm hc) rfl]
      refine avoids_push fun w' heq => ?_
      obtain ⟨-, rfl⟩ := List.cons.inj heq
      exact ih hw

theorem bracketed_ne_nil {α : Type} {item : Bytes → Option (α × Bytes)} {xs : List α}
    (h : bracketed item t = some (xs, r)) : xs ≠ [] ∧ ∃ t' x r', punctuation 40 t = some t' ∧
      item t' = some (x, r') ∧ xs.head? = some x := by
  obtain ⟨t', hopen, hrest⟩ := Option.bind_eq_some_iff.mp h
  obtain ⟨⟨ys, r'⟩, hlist, hclose⟩ := Option.bind_eq_some_iff.mp hrest
  obtain ⟨r'', -, heq⟩ := Option.map_eq_some_iff.mp hclose
  obtain ⟨rfl, -⟩ := Prod.mk.inj heq
  have hne := commaList_ne_nil hlist
  obtain ⟨y, ys, rfl⟩ := List.exists_cons_of_ne_nil hne
  obtain ⟨r₃, hread⟩ := commaList_head hlist
  exact ⟨hne, t', y, r₃, hopen, hread, rfl⟩

theorem names_settle (reserved : Bytes → Bool) (names : List Bytes) :
    Settles (fun _ => True) (bracketed (name reserved)) (bracketText [] ticked names) (· = names)
      (names ≠ [] ∧ ∀ w ∈ names, backtick ∉ w) :=
  bracketed_settles (fun c t hc => endsName_cons (by rcases hc with rfl | rfl <;> decide) t)
    (fun w _ => ticked_settles reserved w) (spaced_name reserved) [] fun _ hc => absurd hc List.not_mem_nil

/-- Names that are written as one, with commas between them. -/
theorem joined_settles (reserved : Bytes → Bool) (names : List Bytes) :
    Settles (fun _ => True) (bracketed (name reserved)) (40 :: (ticked ([44].intercalate names) ++ [41]))
      (· = names) (∃ w, names = [w] ∧ backtick ∉ w) := by
  cases names with
  | nil =>
    constructor
    · rintro ⟨w, hw, -⟩
      cases hw
    · intro _ t _ xs r hread hnil
      exact (bracketed_ne_nil hread).1 hnil
  | cons w names =>
    cases names with
    | nil =>
      have hname := names_settle reserved [w]
      have htext : bracketText [] ticked [w] = 40 :: (ticked ([44].intercalate [w]) ++ [41]) := by
        simp [bracketText, sepText]
      rw [← htext]
      refine hname.mono ?_ fun t ht => ht
      simp
    | cons w' names =>
      constructor
      · rintro ⟨v, hv, -⟩
        cases hv
      · rintro - t - xs r hread rfl
        obtain ⟨-, t', x, r', hopen, hname, hhead⟩ := bracketed_ne_nil hread
        obtain rfl := Option.some.inj hhead
        have htext : 40 :: (ticked ([44].intercalate (w :: w' :: names)) ++ [41]) ++ t =
            40 :: (backtick :: (w ++ 44 :: ([44].intercalate (w' :: names) ++ backtick :: 41 :: t))) := by
          simp [ticked, List.intercalate_cons_cons]
        rw [htext] at hopen
        obtain rfl := Option.some.inj hopen
        exact name_continued w _ hname rfl

theorem keywords_space (ws : List Bytes) (hws : ∀ w ∈ ws, IsKeyword w) (t : Bytes) :
    keywords ws (wordsText ws ++ [32] ++ t) = some ([32] ++ t) := by
  rw [List.append_assoc]
  exact keywords_append hws (endsWord_cons rfl t)

theorem keyword_space_append (hw : IsKeyword w) (t : Bytes) :
    keyword w (wordsText [w] ++ [32] ++ t) = some ([32] ++ t) := by
  have htext : wordsText [w] ++ [32] ++ t = 32 :: (w ++ ([32] ++ t)) := by simp [wordsText]
  rw [htext, keyword_space]
  exact keyword_append hw.1 hw.2 (endsWord_cons rfl t)

/-- A foreign key; its columns stand in a text of their own. -/
def foreignKeyText (columns : Bytes) (k : ForeignKey) : Bytes :=
  ascii "CONSTRAINT" ++ [32] ++ (ticked k.name ++ (wordsText [ascii "FOREIGN", ascii "KEY"] ++ [32] ++
    (columns ++ (wordsText [ascii "REFERENCES"] ++ [32] ++ (qualifiedText k.database k.table ++
      ([32] ++ bracketText [] ticked k.references ++
        (actionText [ascii "ON", ascii "DELETE"] k.onDelete ++
          actionText [ascii "ON", ascii "UPDATE"] k.onUpdate)))))))

theorem actions_settle (k : ForeignKey) :
    Settles (Ahead [ascii "ON"]) (pair (optional (keywords [ascii "ON", ascii "DELETE"]) action)
        (optional (keywords [ascii "ON", ascii "UPDATE"]) action))
      (actionText [ascii "ON", ascii "DELETE"] k.onDelete ++ actionText [ascii "ON", ascii "UPDATE"] k.onUpdate)
      (fun x => x.1 = k.onDelete ∧ x.2 = k.onUpdate) True := by
  have hnone (w : Bytes) {t : Bytes} (ht : Ahead [ascii "ON"] t) : NoAction [ascii "ON", w] t :=
    ⟨ht.endsWord, keywords_none (ht.keyword_eq_none List.mem_cons_self) [w]⟩
  have hdelete := action_settles [ascii "ON", ascii "DELETE"] (by decide) k.onDelete
  have hupdate := action_settles [ascii "ON", ascii "UPDATE"] (by decide) k.onUpdate
  have hboth := hdelete.pair (hupdate.mono Iff.rfl fun t ht => hnone _ ht)
    ((spaced_keywords _ _).optional action) fun t ht => ?_
  · exact hboth.mono (by simp) fun t ht => ht
  · cases k.onUpdate with
    | none => exact hnone _ ht
    | some a =>
      refine ⟨endsWord_cons rfl _, ?_⟩
      have htext : actionText [ascii "ON", ascii "UPDATE"] (some a) ++ t =
          32 :: (ascii "ON" ++ (wordsText (ascii "UPDATE" :: a.words) ++ t)) := by
        simp [actionText, wordsText]
      have hother : keywords [ascii "DELETE"] (wordsText (ascii "UPDATE" :: a.words) ++ t) = none :=
        keywords_other (by decide) (by decide) ht.endsWord []
      rw [htext, keywords, List.foldlM_cons, keyword_space,
        keyword_append (by decide) (by decide) (endsWord_words _ ht.endsWord)]
      exact hother

/-- **What a foreign key is read as.** -/
theorem foreignKey_settles {columns : Bytes} {k : ForeignKey} {good : Prop}
    (hcolumns : Settles (fun _ => True) (bracketed (name reserved)) columns (· = k.columns) good) :
    Settles (Ahead [ascii "ON"]) (foreignKey reserved) (foreignKeyText columns k) (· = k)
      (backtick ∉ k.name ∧ good ∧ (backtick ∉ k.database ∧ backtick ∉ k.table) ∧
        k.references ≠ [] ∧ ∀ w ∈ k.references, backtick ∉ w) := by
  have hspaces : ∀ c ∈ [32], isSpace c = true := by decide
  have hreferences := ((names_settle reserved k.references).spaced (spaced_bracketed _) hspaces).pair
    (actions_settle k) (((spaced_keywords _ _).optional action).pair _) fun _ _ => trivial
  have htable := (qualified_settles reserved k.database k.table).pair hreferences
    ((spaced_bracketed _).pair _) fun t _ => endsName_cons (by decide) _
  have hto := (htable.spaced (((spaced_name reserved).pair _).pair _) hspaces).after
    (keyword_space_append (w := ascii "REFERENCES") (by decide))
  have hfrom := (hcolumns.pair hto ((spaced_keyword _).after _) fun _ _ => trivial).spaced
    ((spaced_bracketed _).pair _) hspaces
  have hkey := hfrom.after (keywords_space [ascii "FOREIGN", ascii "KEY"] (by decide))
  have hname := (ticked_settles reserved k.name).pair hkey ((spaced_keywords _ _).after _)
    fun t _ => endsName_cons (by decide) _
  have hconstraint := (hname.spaced ((spaced_name reserved).pair _) hspaces).keyword
    (w := ascii "CONSTRAINT") (by decide) (by decide)
  have hmapped : Settles (Ahead [ascii "ON"]) (foreignKey reserved) (foreignKeyText columns k) (· = k) _ :=
    hconstraint.mapped fun x => by
      obtain ⟨name, columns, ⟨database, table⟩, references, onDelete, onUpdate⟩ := x
      obtain ⟨name', columns', database', table', references', onDelete', onUpdate'⟩ := k
      simp [and_assoc]
  exact hmapped.mono (by simp) fun t ht => ht

def primaryKeyText (names : List Bytes) : Bytes :=
  ascii "PRIMARY" ++ (wordsText [ascii "KEY"] ++ [32] ++ bracketText [] ticked names)

theorem keywords_primary (t : Bytes) : keywords [ascii "PRIMARY", ascii "KEY"]
    (ascii "PRIMARY" ++ (wordsText [ascii "KEY"] ++ [32] ++ t)) = some ([32] ++ t) := by
  have hprimary : keyword (ascii "PRIMARY") (ascii "PRIMARY" ++ (wordsText [ascii "KEY"] ++ [32] ++ t)) =
      some (wordsText [ascii "KEY"] ++ [32] ++ t) := keyword_append (by decide) (by decide) (endsWord_cons rfl _)
  rw [keywords, List.foldlM_cons, hprimary]
  exact keywords_space [ascii "KEY"] (by decide) t

theorem primaryKey_settles (reserved : Bytes → Bool) (names : List Bytes) :
    Settles (fun _ => True) (primaryKey reserved) (primaryKeyText names) (· = names)
      (names ≠ [] ∧ ∀ w ∈ names, backtick ∉ w) := by
  have hnames := (names_settle reserved names).spaced (spaced_bracketed _) (z := [32]) (by decide)
  have hafter := hnames.after (f := keywords [ascii "PRIMARY", ascii "KEY"])
    (p := ascii "PRIMARY" ++ (wordsText [ascii "KEY"] ++ [32])) fun t => by
    rw [List.append_assoc]
    exact keywords_primary t
  have htext : primaryKeyText names =
      ascii "PRIMARY" ++ (wordsText [ascii "KEY"] ++ [32]) ++ bracketText [] ticked names := by
    simp [primaryKeyText]
  rw [htext]
  exact hafter

/-! ## Definitions -/

section Definitions

variable {E : Bytes → Prop} {good : Prop}

theorem ahead_punctuation {c : Nat} (hc : c = 44 ∨ c = 41) (hws : [] ∉ ws) (t : Bytes) :
    Ahead ws (c :: t) := by
  have hspace : isSpace c = false := by rcases hc with rfl | rfl <;> rfl
  have hword : isWordByte c = false := by rcases hc with rfl | rfl <;> rfl
  refine ⟨endsWord_cons hword t, ⟨c, t, skipSpace_cons hspace t, ?_⟩, ?_⟩
  · rcases hc with rfl | rfl <;> rfl
  · have hnil : (word (skipSpace (c :: t))).1 = [] := by
      rw [skipSpace_cons hspace, word, List.takeWhile_cons_of_neg (by simp [hword])]
    rw [hnil]
    exact hws

theorem Ahead.spaced (h : Ahead ws t) {c : Nat} (hc : isSpace c = true) : Ahead ws (c :: t) := by
  have hskip : skipSpace (c :: t) = skipSpace t := List.dropWhile_cons_of_pos hc
  have hword : isWordByte c = false := by
    by_contra hword
    have hnot := isSpace_of_isWordByte (eq_true_of_ne_false hword)
    rw [hc] at hnot
    cases hnot
  obtain ⟨d, t', hd, hlaggard⟩ := h.endsText
  exact ⟨endsWord_cons hword t, ⟨d, t', hskip.trans hd, hlaggard⟩, hskip ▸ h.first⟩

theorem definition_of_word {t : Bytes} (h : (word (skipSpace t)).1 = w) : definition reserved t =
    if w = ascii "CONSTRAINT" then mapped .foreignKey (foreignKey reserved) t
    else if w = ascii "PRIMARY" then mapped .primaryKey (primaryKey reserved) t
    else if indexWords.contains w then mapped .index (index reserved) t
    else mapped .column (column reserved) t := by
  unfold definition
  rw [h]

theorem word_skipSpace (hw : IsKeyword w) (ht : EndsWord t) : word (skipSpace (w ++ t)) = (w, t) := by
  obtain ⟨c, v, rfl⟩ := List.exists_cons_of_ne_nil hw.1
  have hspace := isSpace_of_isWordByte (hw.2 c List.mem_cons_self)
  rw [List.cons_append, skipSpace_cons hspace, ← List.cons_append, word_append hw.2 ht]

theorem spaced_column (reserved : Bytes → Bool) : Spaced (column reserved) :=
  (((spaced_name reserved).pair _).mapped _).checked _

theorem spaced_index (reserved : Bytes → Bool) : Spaced (index reserved) := by
  have hkind : Spaced indexKind := by
    intro r t h
    unfold indexKind
    simp only [spaced_keyword _ h]
  have hhead : Spaced indexHead := by
    intro r t h
    unfold indexHead indexKeyword
    rw [hkind h, spaced_keyword _ h, spaced_keyword _ h]
  exact (hhead.pair _).mapped _

theorem spaced_definition (reserved : Bytes → Bool) : Spaced (definition reserved) := by
  have hforeign : Spaced (foreignKey reserved) := ((spaced_keyword _).after _).mapped _
  have hprimary : Spaced (primaryKey reserved) := (spaced_keywords _ _).after _
  intro r t h
  unfold definition
  rw [h, hforeign.mapped _ h, hprimary.mapped _ h, (spaced_index reserved).mapped _ h,
    (spaced_column reserved).mapped _ h]

theorem column_defines {s : Bytes} {c : Column} (h : Settles E (column reserved) s (· = c) good)
    (hs : ∃ v, s = backtick :: v) :
    Settles E (definition reserved) ([10, 9] ++ s) (· = .column c) good := by
  obtain ⟨v, rfl⟩ := hs
  have hmapped := h.mapped (g := Definition.column) (Q := (· = .column c)) fun x => by simp
  exact (hmapped.congr fun t => definition_of_word (w := []) rfl).spaced (spaced_definition reserved) (by decide)

theorem foreignKey_defines {columns : Bytes} {k : ForeignKey}
    (hcolumns : Settles (fun _ => True) (bracketed (name reserved)) columns (· = k.columns) good) :
    Settles (Ahead [ascii "ON"]) (definition reserved) ([10, 9] ++ foreignKeyText columns k)
      (· = .foreignKey k) (backtick ∉ k.name ∧ good ∧ (backtick ∉ k.database ∧ backtick ∉ k.table) ∧
        k.references ≠ [] ∧ ∀ w ∈ k.references, backtick ∉ w) := by
  have hmapped := (foreignKey_settles hcolumns).mapped (g := Definition.foreignKey)
    (Q := (· = .foreignKey k)) fun x => by simp
  refine (hmapped.congr fun t => ?_).spaced (spaced_definition reserved) (by decide)
  have hword : (word (skipSpace (foreignKeyText columns k ++ t))).1 = ascii "CONSTRAINT" := by
    unfold foreignKeyText
    rw [List.append_assoc, List.append_assoc]
    exact congrArg Prod.fst (word_skipSpace (by decide) (endsWord_cons rfl _))
  rw [definition_of_word hword, if_pos rfl]

theorem primaryKey_defines (reserved : Bytes → Bool) (names : List Bytes) :
    Settles (fun _ => True) (definition reserved) ([10, 9] ++ primaryKeyText names) (· = .primaryKey names)
      (names ≠ [] ∧ ∀ w ∈ names, backtick ∉ w) := by
  have hmapped := (primaryKey_settles reserved names).mapped (g := Definition.primaryKey)
    (Q := (· = .primaryKey names)) fun x => by simp
  refine (hmapped.congr fun t => ?_).spaced (spaced_definition reserved) (by decide)
  have hword : (word (skipSpace (primaryKeyText names ++ t))).1 = ascii "PRIMARY" := by
    unfold primaryKeyText
    rw [List.append_assoc]
    exact congrArg Prod.fst (word_skipSpace (by decide) (endsWord_cons rfl _))
  rw [definition_of_word hword, if_neg (by decide), if_pos rfl]

end Definitions

/-! ## What is no index -/

/-- What cannot go on as the name and the columns of an index. -/
structure Apart (t : Bytes) : Prop where
  first : (word (skipSpace t)).1 ∉ indexWords
  opens : punctuation 40 t = none
  next : punctuation 40 (word (skipSpace t)).2 = none
  tick : (skipSpace t).head? ≠ some backtick

theorem Apart.congr (h : Apart t) (heq : skipSpace r = skipSpace t) : Apart r :=
  ⟨heq ▸ h.first, spaced_punctuation 40 heq ▸ h.opens, heq ▸ h.next, heq ▸ h.tick⟩

theorem apart_word (hw : IsKeyword w) (hnot : w ∉ indexWords) (hend : EndsWord t)
    (ht : punctuation 40 t = none) : Apart (w ++ t) := by
  have hword := word_skipSpace hw hend
  obtain ⟨c, v, rfl⟩ := List.exists_cons_of_ne_nil hw.1
  have hbyte := hw.2 c List.mem_cons_self
  have hskip : skipSpace (c :: v ++ t) = c :: (v ++ t) := skipSpace_cons (isSpace_of_isWordByte hbyte) _
  have hc : c ≠ 40 ∧ c ≠ backtick := by
    constructor <;> rintro rfl <;> cases hbyte
  refine ⟨?_, ?_, ?_, ?_⟩
  · rw [hword]
    exact hnot
  · exact punctuation_ne (isSpace_of_isWordByte hbyte) hc.1 _
  · rw [hword]
    exact ht
  · rw [hskip]
    exact fun heq => hc.2 (Option.some.inj heq)

theorem apart_byte {c : Nat} (hspace : isSpace c = false) (hword : isWordByte c = false) (hc : c ≠ 40)
    (htick : c ≠ backtick) (t : Bytes) : Apart (c :: t) := by
  have hskip : skipSpace (c :: t) = c :: t := skipSpace_cons hspace t
  have hnot : ¬ isWordByte c = true := by simp [hword]
  have hnil : word (c :: t) = ([], c :: t) := by
    rw [word, List.takeWhile_cons_of_neg hnot, List.dropWhile_cons_of_neg hnot]
  refine ⟨?_, punctuation_ne hspace hc t, ?_, ?_⟩
  · rw [hskip, hnil]
    show [] ∉ indexWords
    decide
  · rw [hskip, hnil]
    exact punctuation_ne hspace hc t
  · rw [hskip]
    exact fun heq => htick (Option.some.inj heq)

theorem Apart.keyword (h : Apart t) {w : Bytes} (hw : w ∈ indexWords) : MySqlText.keyword w t = none := by
  unfold MySqlText.keyword
  dsimp only
  rw [if_neg]
  intro heq
  exact h.first (heq ▸ hw)

theorem Apart.indexKeyword (h : Apart t) : MySqlText.indexKeyword t = none := by
  rw [MySqlText.indexKeyword, h.keyword (by decide), h.keyword (by decide)]
  rfl

theorem Apart.indexHead (h : Apart t) : MySqlText.indexHead t = none := by
  have hkind (k : IndexKind) : MySqlText.keyword k.keyword t = none := h.keyword (by cases k <;> decide)
  rw [MySqlText.indexHead, MySqlText.indexKind]
  simp only [List.findSome?_cons, List.findSome?_nil, hkind, Option.map_none]
  rw [h.indexKeyword]
  rfl

theorem Apart.optionalName (h : Apart t) {nm : Option Bytes}
    (hread : optionalName reserved t = some (nm, r)) : punctuation 40 r = none := by
  unfold MySqlText.optionalName at hread
  split at hread
  · obtain ⟨-, rfl⟩ := Prod.mk.inj (Option.some.inj hread)
    rw [spaced_punctuation 40 (skipSpace_skipSpace t)]
    exact h.opens
  next v r' hname =>
    obtain ⟨-, rfl⟩ := Prod.mk.inj (Option.some.inj hread)
    have hnext := h.next
    have htick := h.tick
    unfold name at hname
    split at hname
    · cases hname
    next c t' hskip =>
    rw [hskip] at htick hnext
    have hc : c ≠ backtick := fun heq => htick (congrArg some heq)
    rw [if_neg hc] at hname
    split at hname
    · obtain rfl := congrArg Prod.snd (Option.some.inj hname)
      exact hnext
    · cases hname

theorem index_eq_none (h : ∀ k r, indexHead t = some (k, r) → Apart r) : index reserved t = none := by
  by_contra hne
  obtain ⟨⟨i, r⟩, hread⟩ := Option.ne_none_iff_exists'.mp hne
  obtain ⟨⟨parts, r₁⟩, hparts, -⟩ := Option.map_eq_some_iff.mp hread
  obtain ⟨⟨k, r₂⟩, hhead, hrest⟩ := Option.bind_eq_some_iff.mp hparts
  obtain ⟨⟨x, r₃⟩, hname, -⟩ := Option.map_eq_some_iff.mp hrest
  obtain ⟨⟨nm, r₄⟩, hoptional, hcolumns⟩ := Option.bind_eq_some_iff.mp hname
  obtain ⟨⟨y, r₅⟩, hbracket, -⟩ := Option.map_eq_some_iff.mp hcolumns
  obtain ⟨⟨columns, r₆⟩, hnames, -⟩ := Option.bind_eq_some_iff.mp hbracket
  obtain ⟨-, t', -, -, hopen, -⟩ := bracketed_ne_nil hnames
  rw [(h k r₂ hhead).optionalName hoptional] at hopen
  cases hopen

theorem index_of_definition {i : Index} (h : definition reserved t = some (.index i, r)) :
    index reserved t = some (i, r) := by
  unfold definition at h
  dsimp only at h
  split_ifs at h
  all_goals
    obtain ⟨⟨x, r'⟩, hread, heq⟩ := Option.map_eq_some_iff.mp h
    obtain ⟨hdefinition, rfl⟩ := Prod.mk.inj heq
    cases hdefinition
  exact hread

theorem indexKind_keyword (k : IndexKind) (hend : EndsWord t) :
    indexKind (k.keyword ++ t) = some (k, t) := by
  have hother {w w' : Bytes} (hw : IsKeyword w) (hne : w ≠ w') : keyword w' (w ++ t) = none :=
    keyword_other hw hne hend
  have hself {w : Bytes} (hw : IsKeyword w) : keyword w (w ++ t) = some t := keyword_append hw.1 hw.2 hend
  unfold indexKind
  cases k with
  | unique =>
    simp only [List.findSome?_cons, IndexKind.keyword, hself (w := ascii "UNIQUE") (by decide), Option.map_some]
  | fulltext =>
    have hunique : keyword (ascii "UNIQUE") (ascii "FULLTEXT" ++ t) = none := hother (by decide) (by decide)
    simp only [List.findSome?_cons, IndexKind.keyword, hunique, hself (w := ascii "FULLTEXT") (by decide),
      Option.map_some, Option.map_none]
  | spatial =>
    have hunique : keyword (ascii "UNIQUE") (ascii "SPATIAL" ++ t) = none := hother (by decide) (by decide)
    have hfulltext : keyword (ascii "FULLTEXT") (ascii "SPATIAL" ++ t) = none :=
      hother (by decide) (by decide)
    simp only [List.findSome?_cons, IndexKind.keyword, hunique, hfulltext,
      hself (w := ascii "SPATIAL") (by decide), Option.map_some, Option.map_none]

/-- The kind of an index, and what cannot go on as its name and columns. -/
theorem indexHead_kind (k : IndexKind) (ht : Apart t) (hend : EndsWord t) :
    indexHead (k.keyword ++ t) = some (some k, skipSpace t) := by
  rw [indexHead, indexKind_keyword k hend]
  dsimp only
  rw [ht.indexKeyword]
  rfl

theorem keyword_index (hend : EndsWord t) : indexKeyword (ascii " INDEX" ++ t) = some t := by
  have hread : keyword (ascii "INDEX") (ascii " INDEX" ++ t) = some t :=
    keyword_append (w := ascii "INDEX") (by decide) (by decide) hend
  rw [indexKeyword, hread]
  rfl

theorem indexHead_kind_index (k : IndexKind) (hend : EndsWord t) :
    indexHead (k.keyword ++ (ascii " INDEX" ++ t)) = some (some k, t) := by
  have hkind : indexKind (k.keyword ++ (ascii " INDEX" ++ t)) = some (k, ascii " INDEX" ++ t) :=
    indexKind_keyword k (endsWord_cons rfl _)
  rw [indexHead, hkind]
  dsimp only
  rw [keyword_index hend]
  rfl

theorem indexHead_index (hend : EndsWord t) : indexHead (ascii " INDEX" ++ t) = some (none, t) := by
  have hother (k : IndexKind) : keyword k.keyword (ascii " INDEX" ++ t) = none :=
    keyword_other (w := ascii "INDEX") (by decide) (by cases k <;> decide) hend
  rw [indexHead, indexKind]
  simp only [List.findSome?_cons, List.findSome?_nil, hother, Option.map_none]
  rw [keyword_index hend]
  rfl

/-! ## Bodies -/

section Bodies

variable {α β : Type} {E : Bytes → Prop} {item : Bytes → Option (α × Bytes)} {good : Prop} {x : α}
  {xs : List α} {tail : Bytes} {n : Nat}

/-- The text is read as a list of at most `n` items with a parenthesis after it. -/
def Closes (item : Bytes → Option (α × Bytes)) (n : Nat) (t : Bytes) (xs : List α) (tail : Bytes) : Prop :=
  ∃ r, commaList item n t = some (xs, r) ∧ punctuation 41 r = some tail

theorem parseTableBody_iff {ds : List Definition} :
    parseTableBody reserved t = some (ds, tail) ↔ Closes (definition reserved) t.length t ds tail := by
  constructor
  · intro h
    obtain ⟨⟨ds', r⟩, hlist, hrest⟩ := Option.bind_eq_some_iff.mp h
    obtain ⟨r', hclose, heq⟩ := Option.map_eq_some_iff.mp hrest
    obtain ⟨rfl, rfl⟩ := Prod.mk.inj heq
    exact ⟨r, hlist, hclose⟩
  · rintro ⟨r, hlist, hclose⟩
    have hcommas : commas (definition reserved) t = some (ds, r) := hlist
    rw [parseTableBody, before, hcommas, Option.bind_some]
    dsimp only
    rw [hclose]
    rfl

theorem not_closes_nil : ¬ Closes item n t [] tail := fun ⟨_, hlist, _⟩ => commaList_ne_nil hlist rfl

theorem Closes.head (h : Closes item n t (x :: xs) tail) : ∃ r, item t = some (x, r) := by
  obtain ⟨r, hlist, -⟩ := h
  exact commaList_head hlist

/-- An item before a comma. -/
theorem closes_cons (h : Settles E item s (· = x) good) (hE : E t) (hcomma : punctuation 44 t = some z) :
    Closes item n (s ++ t) (x :: xs) tail ↔ good ∧ ∃ m, n = m + 1 ∧ Closes item m z xs tail := by
  have hstep (hgood : good) (m : Nat) :
      commaList item (m + 1) (s ++ t) = (commaList item m z).map fun y => (x :: y.1, y.2) := by
    obtain ⟨x', r, hread, rfl, hr⟩ := h.reads hgood hE
    rw [commaList, hread, Option.bind_some]
    dsimp only
    rw [spaced_punctuation 44 hr, hcomma]
  constructor
  · rintro ⟨r, hlist, hclose⟩
    obtain ⟨m, rfl⟩ : ∃ m, n = m + 1 := by
      cases n with
      | zero => cases hlist
      | succ m => exact ⟨m, rfl⟩
    have hgood : good := by
      by_contra hbad
      obtain ⟨r', hread⟩ := commaList_head hlist
      exact h.fails hbad hE hread rfl
    rw [hstep hgood] at hlist
    obtain ⟨⟨ys, r'⟩, hrest, heq⟩ := Option.map_eq_some_iff.mp hlist
    obtain ⟨hys, rfl⟩ := Prod.mk.inj heq
    obtain ⟨-, rfl⟩ := List.cons.inj hys
    exact ⟨hgood, m, rfl, r', hrest, hclose⟩
  · rintro ⟨hgood, m, rfl, r, hrest, hclose⟩
    refine ⟨r, ?_, hclose⟩
    rw [hstep hgood, hrest]
    rfl

/-- An item before what is no comma. -/
theorem closes_last (h : Settles E item s (· = x) good) (hE : E t) (hend : punctuation 44 t = none) :
    Closes item n (s ++ t) (x :: xs) tail ↔
      good ∧ n ≠ 0 ∧ xs = [] ∧ punctuation 41 t = some tail := by
  have hstep (hgood : good) (m : Nat) : ∃ r, commaList item (m + 1) (s ++ t) = some ([x], r) ∧
      punctuation 41 r = punctuation 41 t := by
    obtain ⟨x', r, hread, rfl, hr⟩ := h.reads hgood hE
    refine ⟨r, ?_, spaced_punctuation 41 hr⟩
    rw [commaList, hread, Option.bind_some]
    dsimp only
    rw [spaced_punctuation 44 hr, hend]
  constructor
  · rintro ⟨r, hlist, hclose⟩
    obtain ⟨m, rfl⟩ : ∃ m, n = m + 1 := by
      cases n with
      | zero => cases hlist
      | succ m => exact ⟨m, rfl⟩
    have hgood : good := by
      by_contra hbad
      obtain ⟨r', hread⟩ := commaList_head hlist
      exact h.fails hbad hE hread rfl
    obtain ⟨r', hread, hsame⟩ := hstep hgood m
    rw [hread] at hlist
    obtain ⟨hys, rfl⟩ := Prod.mk.inj (Option.some.inj hlist)
    obtain ⟨-, rfl⟩ := List.cons.inj hys
    exact ⟨hgood, Nat.succ_ne_zero m, rfl, hsame ▸ hclose⟩
  · rintro ⟨hgood, hn, rfl, hclose⟩
    obtain ⟨m, rfl⟩ := Nat.exists_eq_succ_of_ne_zero hn
    obtain ⟨r, hread, hsame⟩ := hstep hgood m
    exact ⟨r, hread, hsame.trans hclose⟩

/-- **Items with a comma after each.** -/
theorem closes_append {text : β → Bytes} {g : β → α} {good : β → Prop} {ys : List β}
    (h : ∀ y ∈ ys, Settles E item (text y) (· = g y) (good y)) (hE : ∀ t, E (44 :: t)) :
    Closes item n ((ys.flatMap fun y => text y ++ [44]) ++ t) (ys.map g ++ xs) tail ↔
      (∀ y ∈ ys, good y) ∧ ∃ m, n = m + ys.length ∧ Closes item m t xs tail := by
  induction ys generalizing n with
  | nil => simp
  | cons y ys ih =>
    obtain ⟨hy, hys⟩ := List.forall_mem_cons.mp h
    have htext : ((y :: ys).flatMap fun y => text y ++ [44]) ++ t =
        text y ++ 44 :: ((ys.flatMap fun y => text y ++ [44]) ++ t) := by simp
    rw [htext, List.map_cons, List.cons_append, closes_cons hy (hE _) (punctuation_self rfl _),
      List.forall_mem_cons, and_assoc]
    refine and_congr_right fun _ => ?_
    constructor
    · rintro ⟨m, rfl, hrest⟩
      obtain ⟨hgood, k, rfl, hclose⟩ := (ih hys).mp hrest
      exact ⟨hgood, k, by rw [List.length_cons]; omega, hclose⟩
    · rintro ⟨hgood, k, rfl, hclose⟩
      exact ⟨k + ys.length, by rw [List.length_cons]; omega, (ih hys).mpr ⟨hgood, k, rfl, hclose⟩⟩

end Bodies

end MySqlText
