import NextDBM.Editor.RowConditions

/-!
# Proofs: the conditions of row editing

The condition of `deleteRow` has a literal for each selected row if the key is of integers, and no
literal otherwise. A literal is the text of the number that a script makes of the key.
-/

namespace NextDBM

open MySqlText ScriptNumber

/-! ## Types -/

section Types

variable {u v w : Bytes} {c : Nat}

/-- A word without a code is on one side of it. -/
theorem infix_append_cons (hc : c ∉ w) (h : w <:+: u ++ c :: v) : w <:+: u ∨ w <:+: v := by
  have hbegin {x : Bytes} (h : w <+: x ++ c :: v) : w <+: x := by
    by_cases hle : w.length ≤ x.length
    · exact List.prefix_of_prefix_length_le h (List.prefix_append x _) hle
    · have hlong : x ++ [c] <+: w := by
        refine List.prefix_of_prefix_length_le ?_ h ?_
        · exact ⟨v, by simp⟩
        · rw [List.length_append, List.length_singleton]
          omega
      exact absurd (hlong.subset (List.mem_append_right x List.mem_cons_self)) hc
  induction u with
  | nil =>
    rcases List.infix_cons_iff.mp h with h | h
    · exact .inl (hbegin (x := []) h).isInfix
    · exact .inr h
  | cons a u ih =>
    rcases List.infix_cons_iff.mp h with h | h
    · exact .inl (hbegin (x := a :: u) h).isInfix
    · exact (ih h).imp (fun h => h.trans (List.suffix_cons a u).isInfix) id

theorem not_infix_lengthText {a : Nat} (ha : isDigit a = false) (hclose : a ≠ 41) (hopen : 40 ∉ a :: w)
    (hu : ¬ a :: w <:+: u) (length : Option Nat) : ¬ a :: w <:+: u ++ lengthText length := by
  intro h
  cases length with
  | none =>
    rw [lengthText, List.append_nil] at h
    exact hu h
  | some n =>
    rcases infix_append_cons hopen h with h | h
    · exact hu h
    · rcases List.mem_append.mp (h.subset List.mem_cons_self) with hmem | hmem
      · rw [isDigit_natText n a hmem] at ha
        cases ha
      · exact hclose (List.mem_singleton.mp hmem)

theorem matchesInt_iff {bit : Bool} {type : Bytes} : matchesInt bit type = true ↔
    ascii "int" <:+: type ∨ bit = true ∧ ascii "bit" <:+: type := by
  have hbigint : ascii "bigint" <:+: type → ascii "int" <:+: type :=
    fun h => List.IsInfix.trans ⟨ascii "big", [], rfl⟩ h
  unfold matchesInt
  simp only [Bool.or_eq_true, Bool.and_eq_true, decide_eq_true_eq]
  exact ⟨fun h => h.elim (fun h => .inl (h.elim id hbigint)) .inr, fun h => h.elim (.inl ∘ .inl) .inr⟩

theorem matchesInt_integer (bit : Bool) (base : IntegerBase) (width : Option Nat)
    (unsigned zerofill : Bool) :
    matchesInt bit (KeyType.integer base width unsigned zerofill).text = true := by
  have hbase : ascii "int" <:+: base.word := by cases base <;> decide +kernel
  exact matchesInt_iff.mpr (.inl (hbase.trans (List.prefix_append _ _).isInfix))

/-- The types of strings and dates match neither pattern. -/
theorem matchesInt_other (bit : Bool) {type : KeyType} (h : ∀ base width unsigned zerofill,
    type ≠ .integer base width unsigned zerofill) : matchesInt bit type.text = false := by
  have hnot {base : Bytes} (length : Option Nat) (hint : ¬ ascii "int" <:+: base)
      (hbit : ¬ ascii "bit" <:+: base) : matchesInt bit (base ++ lengthText length) = false := by
    rw [Bool.eq_false_iff, Ne, matchesInt_iff, not_or]
    exact ⟨not_infix_lengthText rfl (by decide) (by decide) hint length,
      fun h => not_infix_lengthText rfl (by decide) (by decide) hbit length h.2⟩
  cases type with
  | integer base width unsigned zerofill => exact absurd rfl (h base width unsigned zerofill)
  | string base length =>
    have hbase : ¬ ascii "int" <:+: base.word ∧ ¬ ascii "bit" <:+: base.word := by
      cases base <;> decide +kernel
    exact hnot length hbase.1 hbase.2
  | date base precision =>
    have hbase : ¬ ascii "int" <:+: base.word ∧ ¬ ascii "bit" <:+: base.word := by
      cases base <;> decide +kernel
    exact hnot precision hbase.1 hbase.2

end Types

theorem TableColumn.IsInteger.matches {item : TableColumn} (h : item.IsInteger) (bit : Bool) :
    matchesInt bit item.type = true := by
  obtain ⟨base, width, unsigned, zerofill, htype⟩ := h
  rw [htype]
  exact matchesInt_integer bit base width unsigned zerofill

theorem TableColumn.not_matches {item : TableColumn} {type : KeyType} (htype : item.type = type.text)
    (h : ¬ item.IsInteger) (bit : Bool) : matchesInt bit item.type = false := by
  rw [htype]
  refine matchesInt_other bit fun base width unsigned zerofill heq => h ?_
  exact ⟨base, width, unsigned, zerofill, by rw [htype, heq]⟩

/-! ## Positions -/

section Positions

variable {name : Bytes}

theorem foldl_position_of_not_mem (xs : List Bytes) (h : name ∉ xs) (i k : Nat) :
    (xs.zipIdx i).foldl (fun k x => if x.1 = name then x.2 else k) k = k := by
  induction xs generalizing i k with
  | nil => rfl
  | cons x xs ih =>
    obtain ⟨hx, hxs⟩ := not_or.mp (mt List.mem_cons.mpr h)
    rw [List.zipIdx_cons, List.foldl_cons, if_neg (Ne.symm hx)]
    exact ih hxs (i + 1) k

theorem foldl_position (xs : List Bytes) (hxs : xs.Nodup) (h : name ∈ xs) (i k : Nat) :
    (xs.zipIdx i).foldl (fun k x => if x.1 = name then x.2 else k) k = i + xs.idxOf name := by
  induction xs generalizing i k with
  | nil => exact absurd h List.not_mem_nil
  | cons x xs ih =>
    obtain ⟨hx, hxs⟩ := List.nodup_cons.mp hxs
    rw [List.zipIdx_cons, List.foldl_cons]
    by_cases heq : x = name
    · subst heq
      rw [if_pos rfl, foldl_position_of_not_mem xs hx, List.idxOf_cons_self, Nat.add_zero]
    · have hmem : name ∈ xs := (List.mem_cons.mp h).resolve_left (Ne.symm heq)
      rw [if_neg heq, ih hxs hmem, List.idxOf_cons_ne _ heq]
      omega

theorem RowParams.keyColumn_eq (p : RowParams) (hcolumns : p.columns.Nodup) {key : TableColumn}
    (h : key.name ∈ p.columns) : p.keyColumn key = p.columns.idxOf key.name := by
  unfold RowParams.keyColumn
  rw [foldl_position p.columns hcolumns h, Nat.zero_add]

end Positions

/-! ## Conditions -/

namespace EditedTable

variable {reserved : Bytes → Bool} {t : EditedTable} {selected : List GridRow} {row row' : GridRow}

theorem mem_tableStruct (t : EditedTable) : t.key ∈ t.params.tableStruct :=
  List.mem_of_find?_eq_some t.isKey

theorem isKey_key (t : EditedTable) : t.key.IsKey := by
  have hkey : decide (t.key.key = ascii "PRI") = true :=
    List.find?_some (p := fun item : TableColumn => decide (item.key = ascii "PRI")) t.isKey
  have heq := of_decide_eq_true hkey
  exact heq

theorem get_keyColumn (t : EditedTable) (row : GridRow) :
    ScriptObject.get row (t.params.keyColumn t.key) = t.params.shown row t.key := by
  rw [t.params.keyColumn_eq t.columns (t.shown t.key t.mem_tableStruct), RowParams.shown]

/-- The texts of the literals of `deleteRow`. -/
def literalTexts (t : EditedTable) (selected : List GridRow) : List Bytes :=
  selected.map fun row => toText (numberOf (t.params.shown row t.key))

theorem deleteWhere_integer (h : t.key.IsInteger) (selected : List GridRow) :
    t.params.deleteWhere t.key selected =
      t.key.name ++ (ascii " IN (" ++ (commaText id (t.literalTexts selected) ++ [41])) := by
  have hrows : (selected.filterMap fun row => if matchesInt true t.key.type then
      some (toText (numberOf (ScriptObject.get row (t.params.keyColumn t.key)))) else none) =
        t.literalTexts selected := by
    rw [h.matches true, literalTexts, ← List.filterMap_eq_map']
    refine List.filterMap_congr fun row _ => ?_
    rw [get_keyColumn]
    rfl
  unfold RowParams.deleteWhere
  dsimp only
  rw [hrows]
  rfl

/-- Strings and dates have no literals. -/
theorem deleteWhere_other (h : ¬ t.key.IsInteger) (selected : List GridRow) :
    t.params.deleteWhere t.key selected = t.key.name ++ (ascii " IN (" ++ [41]) := by
  obtain ⟨type, htype⟩ := t.types t.key t.mem_tableStruct t.isKey_key
  have hrows : (selected.filterMap fun row => if matchesInt true t.key.type then
      some (toText (numberOf (ScriptObject.get row (t.params.keyColumn t.key)))) else none) = [] := by
    rw [TableColumn.not_matches htype h true]
    exact List.filterMap_eq_nil_iff.mpr fun _ _ => rfl
  unfold RowParams.deleteWhere
  dsimp only
  rw [hrows]
  rfl

theorem updateWhere_integer (h : t.key.IsInteger) (row : GridRow) :
    t.params.updateWhere t.key row =
      t.key.name ++ (ascii " = " ++ toText (numberOf (t.params.shown row t.key))) := by
  unfold RowParams.updateWhere
  dsimp only
  rw [h.matches false, get_keyColumn]
  rfl

theorem mass_deleteWhere (t : EditedTable) (selected : List GridRow) :
    mass (t.params.deleteWhere t.key selected) = mass t.key.name := by
  have hopen : mass (ascii " IN (") = 0 := rfl
  have hclose : mass [41] = 0 := rfl
  by_cases h : t.key.IsInteger
  · have hlist : mass (commaText id (t.literalTexts selected)) = 0 := by
      rw [mass_commaText, List.sum_eq_zero]
      intro m hm
      obtain ⟨x, hx, rfl⟩ := List.mem_map.mp hm
      obtain ⟨row, -, rfl⟩ := List.mem_map.mp hx
      exact mass_toText _
    rw [deleteWhere_integer h, mass_append, mass_append, mass_append, hopen, hclose, hlist]
    rfl
  · rw [deleteWhere_other h, mass_append, mass_append, hopen, hclose]
    rfl

/-- The key of a row of integers. -/
theorem exists_shown (h : t.key.IsInteger) (hrow : row ∈ t.rows) :
    ∃ s v, t.params.shown row t.key = some (.text s) ∧ t.keyValue row = some v := by
  obtain ⟨s, hs, hinteger⟩ := t.cells row hrow t.key t.mem_tableStruct t.isKey_key
  obtain ⟨n, hn⟩ := hinteger h
  refine ⟨s, n.value, hs, ?_⟩
  unfold keyValue
  rw [hs]
  exact congrArg (Option.map Numeral.value) hn

/-- **What a condition of numbers holds of.** -/
theorem selects_numbers (h : t.key.IsInteger) (hrow : row ∈ t.rows) (ns : List Numeral) :
    t.Selects { column := t.key.name, keys := ns.map Literal.number } row ↔
      ∃ n ∈ ns, t.keyValue row = some n.value := by
  constructor
  · rintro ⟨item, hitem, hname, s, hs, k, hk, hequals⟩
    obtain rfl : item = t.key := List.inj_on_of_nodup_map t.names hitem t.mem_tableStruct hname
    obtain ⟨n, hn, rfl⟩ := List.mem_map.mp hk
    refine ⟨n, hn, ?_⟩
    unfold keyValue
    rw [hs]
    exact hequals
  · rintro ⟨n, hn, hvalue⟩
    obtain ⟨s, v, hs, -⟩ := exists_shown h hrow
    refine ⟨t.key, t.mem_tableStruct, rfl, s, hs, .number n, List.mem_map_of_mem hn, ?_⟩
    unfold keyValue at hvalue
    rw [hs] at hvalue
    exact hvalue

/-- The condition of an update is one number, that of the key as it is written. -/
theorem parseWhere_updateWhere (hword : IsWord reserved t.key.name) (h : t.key.IsInteger)
    (row : GridRow) : parseWhere reserved (t.params.updateWhere t.key row) =
      (asNumeral (toText (numberOf (t.params.shown row t.key)))).map fun n =>
        { column := t.key.name, keys := [n].map Literal.number } := by
  rw [updateWhere_integer h, parseWhere_eq hword (isRead_toText _), Option.map_map]
  rfl

theorem parseWhere_deleteWhere (hword : IsWord reserved t.key.name) (h : t.key.IsInteger)
    (hne : selected ≠ []) : parseWhere reserved (t.params.deleteWhere t.key selected) =
      ((t.literalTexts selected).mapM fun y => (asNumeral y).map Literal.number).map fun keys =>
        { column := t.key.name, keys } := by
  have hne' : t.literalTexts selected ≠ [] := fun h => hne (List.map_eq_nil_iff.mp h)
  rw [deleteWhere_integer h]
  refine parseWhere_in hword hne' fun y hy => ?_
  obtain ⟨row, -, rfl⟩ := List.mem_map.mp hy
  exact isRead_toText _

/-- Keys that scripts keep are read as they are. -/
theorem exists_numbers (h : t.key.IsInteger) (hselected : ∀ row ∈ selected, row ∈ t.rows)
    (hkept : ∀ row ∈ selected, t.Kept row) :
    ∃ ns : List Numeral, ((t.literalTexts selected).mapM fun y => (asNumeral y).map Literal.number) =
        some (ns.map Literal.number) ∧
      ∀ v, (∃ n ∈ ns, some v = some n.value) ↔ ∃ row ∈ selected, t.keyValue row = some v := by
  induction selected with
  | nil => exact ⟨[], rfl, fun v => by simp⟩
  | cons row selected ih =>
    obtain ⟨hrow, hrows⟩ := List.forall_mem_cons.mp hselected
    obtain ⟨hfirst, hrest⟩ := List.forall_mem_cons.mp hkept
    obtain ⟨ns, hns, hvalues⟩ := ih hrows hrest
    obtain ⟨s, v, -, hv⟩ := exists_shown h hrow
    unfold Kept at hfirst
    rw [hv] at hfirst
    obtain ⟨n, hn, hvalue⟩ := Option.map_eq_some_iff.mp hfirst
    refine ⟨n :: ns, ?_, fun v' => ?_⟩
    · unfold literalTexts at hns ⊢
      rw [List.map_cons, List.mapM_cons, hn, hns]
      rfl
    · rw [List.exists_mem_cons_iff, List.exists_mem_cons_iff, hvalues v', hv, hvalue]
      exact or_congr_left eq_comm

theorem RightlyKeyed.hits (hselected : ∀ row ∈ selected, row ∈ t.rows)
    (h : RightlyKeyed reserved t selected) : Hits reserved t selected := by
  constructor
  · obtain ⟨ns, hns, hvalues⟩ := exists_numbers h.integer hselected h.kept
    refine ⟨ns.map Literal.number, ?_, fun row hrow => ?_⟩
    · rw [parseWhere_deleteWhere h.word h.integer h.nonempty, hns, Option.map_some]
    · obtain ⟨s, v, -, hv⟩ := exists_shown h.integer hrow
      rw [selects_numbers h.integer hrow, hv, hvalues v]
      constructor
      · rintro ⟨row', hrow', heq⟩
        exact h.alone row' hrow' row hrow (hv.trans heq.symm) ▸ hrow'
      · exact fun hmem => ⟨row, hmem, hv⟩
  · intro oldRow hold
    obtain ⟨s, v, -, hv⟩ := exists_shown h.integer (hselected oldRow hold)
    have hkept := h.kept oldRow hold
    unfold Kept at hkept
    rw [hv] at hkept
    obtain ⟨n, hn, hvalue⟩ := Option.map_eq_some_iff.mp hkept
    refine ⟨[n].map Literal.number, ?_, fun row hrow => ?_⟩
    · rw [parseWhere_updateWhere h.word h.integer, hn, Option.map_some]
    · rw [selects_numbers h.integer hrow, List.exists_mem_cons_iff, hvalue]
      constructor
      · rintro (heq | ⟨n', hn', -⟩)
        · exact h.alone oldRow hold row hrow (heq.trans hv.symm)
        · exact absurd hn' List.not_mem_nil
      · rintro rfl
        exact .inl hv

theorem Hits.rightlyKeyed (hselected : ∀ row ∈ selected, row ∈ t.rows)
    (h : Hits reserved t selected) : RightlyKeyed reserved t selected := by
  obtain ⟨keys, hparse, -⟩ := h.delete
  have hword : IsWord reserved t.key.name := isWord_of_parseWhere (t.mass_deleteWhere selected) hparse
  have hinteger : t.key.IsInteger := by
    by_contra hnot
    rw [deleteWhere_other hnot, parseWhere_in_nil hword] at hparse
    cases hparse
  -- A literal that is read shows the key, if the condition holds of the row.
  have hupdate : ∀ row ∈ selected, ∃ n, asNumeral (toText (numberOf (t.params.shown row t.key))) =
      some n ∧ ∀ row' ∈ t.rows, t.keyValue row' = some n.value ↔ row' = row := by
    intro row hrow
    obtain ⟨keys, hparse, hselects⟩ := h.update row hrow
    rw [parseWhere_updateWhere hword hinteger] at hparse
    obtain ⟨n, hn, hkeys⟩ := Option.map_eq_some_iff.mp hparse
    obtain rfl := (Condition.mk.inj hkeys).2
    refine ⟨n, hn, fun row' hrow' => ?_⟩
    have hchosen : _ ↔ row' = row := hselects row' hrow'
    rw [← hchosen, selects_numbers hinteger hrow', List.exists_mem_cons_iff]
    exact ⟨.inl, fun h => h.elim id fun ⟨n', hn', _⟩ => absurd hn' List.not_mem_nil⟩
  have hvalue {row : GridRow} (hrow : row ∈ selected) {n : Numeral}
      (hn : ∀ row' ∈ t.rows, t.keyValue row' = some n.value ↔ row' = row) :
      t.keyValue row = some n.value := (hn row (hselected row hrow)).mpr rfl
  refine ⟨hword, hinteger, ?_, fun row hrow => ?_, fun row hrow row' hrow' heq => ?_⟩
  · rintro rfl
    rw [deleteWhere_integer hinteger] at hparse
    have hnil : commaText id (t.literalTexts []) ++ [41] = [41] := rfl
    rw [hnil, parseWhere_in_nil hword] at hparse
    cases hparse
  · obtain ⟨n, hn, hrows⟩ := hupdate row hrow
    unfold Kept
    rw [hvalue hrow hrows]
    exact congrArg (Option.map Numeral.value) hn
  · obtain ⟨n, -, hrows⟩ := hupdate row hrow
    exact (hrows row' hrow').mp (heq.trans (hvalue hrow hrows))

/-- **When the statements choose the selected rows.** -/
theorem hits_iff (reserved : Bytes → Bool) (t : EditedTable) (selected : List GridRow)
    (hselected : ∀ row ∈ selected, row ∈ t.rows) :
    Hits reserved t selected ↔ RightlyKeyed reserved t selected :=
  ⟨Hits.rightlyKeyed hselected, RightlyKeyed.hits hselected⟩

end EditedTable

/-! ## Tables of one column -/

def rowOf (s : Bytes) : GridRow := [("0", .text s)]

def idColumn (type : KeyType) : TableColumn := ⟨ascii "id", type.text, ascii "PRI"⟩

def idParams (type : KeyType) : RowParams :=
  { database := ascii "app", tableName := ascii "users", tableStruct := [idColumn type]
    columns := [ascii "id"] }

theorem shown_rowOf (type : KeyType) (s : Bytes) :
    (idParams type).shown (rowOf s) (idColumn type) = some (.text s) := by
  have hposition : (idParams type).columns.idxOf (idColumn type).name = 0 := List.idxOf_cons_self
  have hindex : ("0" == toString 0) = true := by decide
  unfold RowParams.shown ScriptObject.get
  rw [hposition, rowOf, List.find?_cons, hindex]
  rfl

/-- A table of one column, which is its key. -/
def idTable (type : KeyType) (keys : List Bytes)
    (h : ∀ s ∈ keys, (idColumn type).IsInteger → ∃ n, asNumeral s = some n) : EditedTable where
  params := idParams type
  rows := keys.map rowOf
  key := idColumn type
  isKey := rfl
  columns := List.nodup_singleton _
  names := List.nodup_singleton _
  shown item hitem := by
    rw [List.mem_singleton.mp hitem]
    exact List.mem_cons_self
  types item hitem _ := by
    rw [List.mem_singleton.mp hitem]
    exact ⟨type, rfl⟩
  cells row hrow item hitem _ := by
    obtain rfl := List.mem_singleton.mp hitem
    obtain ⟨s, hs, rfl⟩ := List.mem_map.mp hrow
    exact ⟨s, shown_rowOf type s, h s hs⟩
  keyed row hrow row' hrow' hsame := by
    obtain ⟨s, -, rfl⟩ := List.mem_map.mp hrow
    obtain ⟨s', -, rfl⟩ := List.mem_map.mp hrow'
    have hid := hsame (idColumn type) List.mem_cons_self rfl
    rw [shown_rowOf, shown_rowOf] at hid
    rw [Cell.text.inj (Option.some.inj hid)]

def numbersTable : EditedTable :=
  idTable (.integer .int none false false) [ascii "1", ascii "2"] fun s hs _ => by
    rcases List.mem_cons.mp hs with rfl | hs
    · exact ⟨_, rfl⟩
    · rw [List.mem_singleton.mp hs]
      exact ⟨_, rfl⟩

theorem not_isInteger_varchar : ¬ (idColumn (.string .varchar (some 20))).IsInteger := by
  intro h
  have hmatches := h.matches true
  revert hmatches
  decide +kernel

def namesTable : EditedTable :=
  idTable (.string .varchar (some 20)) [ascii "ann", ascii "bob"] fun _ _ h =>
    absurd h not_isInteger_varchar

theorem hits_iff_numbers :
    EditedTable.Hits (fun _ => false) numbersTable [rowOf (ascii "2")] ↔
      EditedTable.RightlyKeyed (fun _ => false) numbersTable [rowOf (ascii "2")] :=
  EditedTable.hits_iff _ _ _ fun row hrow => by
    rw [List.mem_singleton.mp hrow]
    exact List.mem_map_of_mem (List.mem_cons_of_mem _ List.mem_cons_self)

/-- A row with a name for its key is not deleted: the condition has no literal. -/
theorem not_hits_names : ¬ EditedTable.Hits (fun _ => false) namesTable [rowOf (ascii "bob")] := by
  intro h
  obtain ⟨keys, hparse, -⟩ := h.delete
  have hnone : parseWhere (fun _ => false)
      (namesTable.params.deleteWhere namesTable.key [rowOf (ascii "bob")]) = none := by
    rw [EditedTable.deleteWhere_other not_isInteger_varchar]
    rfl
  rw [hnone] at hparse
  cases hparse

end NextDBM
