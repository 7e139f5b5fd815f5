import NextDBM.Library.ScriptNumber

/-!
# Statements about rows

Literals are numbers, strings and `NULL`. `parseWhere` reads a condition that compares a column with
literals, `col = x` or `col IN (x, y)`. Where every item of a list is read in one way whatever follows
it, the list is read as the items are (`commaList_isRead`).
-/

namespace MySqlText

open ScriptNumber (Numeral Stops numeral asNumeral)

inductive Literal
  | null
  | text (d : Bytes)
  | number (n : Numeral)
  deriving DecidableEq, Repr

/-- A numeral that does not go on as a name. -/
def numberLiteral (t : Bytes) : Option (Literal × Bytes) :=
  match numeral t with
  | none => none
  | some (n, r) => if r.head?.any isWordByte then none else some (.number n, r)

/-- A literal that no space stands before. -/
def bareLiteral (t : Bytes) : Option (Literal × Bytes) :=
  if (word t).1 = [78, 85, 76, 76] then some (.null, (word t).2)
  else if t.head?.any isStringQuote then (literals t.length t).map fun (d, r) => (.text d, r)
  else numberLiteral t

def literal (t : Bytes) : Option (Literal × Bytes) := bareLiteral (skipSpace t)

/-- The column is one of the literals. -/
structure Condition where
  column : Bytes
  keys : List Literal
  deriving DecidableEq, Repr

def parseWhere (reserved : Bytes → Bool) (t : Bytes) : Option Condition := do
  let (column, t) ← name reserved t
  match keyword (ascii "IN") t with
  | some t =>
    let t ← punctuation 40 t
    let (keys, t) ← commaList literal t.length t
    let t ← punctuation 41 t
    if skipSpace t = [] then some { column, keys } else none
  | none =>
    let t ← punctuation 61 t
    let (key, t) ← literal t
    if skipSpace t = [] then some { column, keys := [key] } else none

/-! ## What follows an item -/

/-- Nothing of the text belongs to a literal before it. -/
structure Follows (t : Bytes) : Prop where
  stops : ∀ c ∈ t.head?, Stops c ∧ isWordByte c = false
  quotes : (skipSpace t).head?.any isStringQuote = false

/-- The text is read in one way (or not at all), whatever follows it. -/
def IsRead {α : Type} (item : Bytes → Option (α × Bytes)) (s : Bytes) (x : Option α) : Prop :=
  ∀ ⦃t⦄, Follows t → item (s ++ t) = x.map fun x => (x, t)

variable {s t r w d : Bytes} {n : Numeral} {reserved : Bytes → Bool}

theorem follows_nil : Follows [] := ⟨fun _ hc => absurd hc (Option.not_mem_none _), rfl⟩

theorem follows_comma (t : Bytes) : Follows (44 :: t) := by
  refine ⟨fun c hc => ?_, rfl⟩
  obtain rfl := Option.some.inj hc
  decide

theorem follows_close (t : Bytes) : Follows (41 :: t) := by
  refine ⟨fun c hc => ?_, rfl⟩
  obtain rfl := Option.some.inj hc
  decide

theorem Follows.endsWord (h : Follows t) : EndsWord t := fun c hc => (h.stops c hc).2

theorem Follows.numeral (ht : Follows t) (h : ScriptNumber.numeral s = some (n, r)) :
    ScriptNumber.numeral (s ++ t) = some (n, r ++ t) := by
  cases t with
  | nil => rw [List.append_nil, List.append_nil, h]
  | cons c t => exact ScriptNumber.numeral_append (ht.stops c rfl).1 h t

theorem literal_space (t : Bytes) : literal (32 :: t) = literal t := rfl

theorem numberLiteral_append (ht : Follows t) (h : asNumeral s = some n) :
    numberLiteral (s ++ t) = some (.number n, t) := by
  have hword : t.head?.any isWordByte = false := by
    cases t with
    | nil => rfl
    | cons c t => exact (ht.stops c rfl).2
  unfold numberLiteral
  rw [ht.numeral (ScriptNumber.numeral_of_asNumeral h), List.nil_append]
  dsimp only
  rw [hword]
  rfl

/-- What a numeral begins with. -/
def BeginsNumeral (c : Nat) : Prop :=
  isDigit c = true ∨ c = ScriptNumber.dot ∨ c = ScriptNumber.plus ∨ c = ScriptNumber.minus

theorem exists_beginsNumeral (h : asNumeral s = some n) :
    ∃ c s', s = c :: s' ∧ BeginsNumeral c := by
  have hread := ScriptNumber.numeral_of_asNumeral h
  cases s with
  | nil => cases hread
  | cons c s' =>
    refine ⟨c, s', rfl, ?_⟩
    by_contra hnot
    unfold BeginsNumeral at hnot
    simp only [not_or] at hnot
    obtain ⟨hdigit, hdot, hplus, hminus⟩ := hnot
    have hsign : ScriptNumber.sign (c :: s') = (false, c :: s') := by
      rw [ScriptNumber.sign_cons, if_neg hminus, if_neg hplus]
    have hdigits : ScriptNumber.digits (c :: s') = ([], c :: s') := by
      unfold ScriptNumber.digits
      rw [List.takeWhile_cons_of_neg hdigit, List.dropWhile_cons_of_neg hdigit]
    have hfraction : ScriptNumber.fraction (c :: s') = ([], c :: s') := by
      rw [ScriptNumber.fraction_cons, if_neg hdot]
    unfold numeral ScriptNumber.unsigned at hread
    rw [hsign] at hread
    dsimp only at hread
    rw [hdigits] at hread
    dsimp only at hread
    rw [hfraction] at hread
    cases hread

theorem BeginsNumeral.plain {c : Nat} (h : BeginsNumeral c) :
    isSpace c = false ∧ isStringQuote c = false ∧ c ≠ 78 := by
  unfold BeginsNumeral isDigit ScriptNumber.dot ScriptNumber.plus ScriptNumber.minus at h
  unfold isSpace isStringQuote quote doubleQuote
  simp only [Bool.and_eq_true, decide_eq_true_eq] at h
  simp only [Bool.or_eq_false_iff, Bool.and_eq_false_iff, decide_eq_false_iff_not]
  omega

/-- A numeral is read as a number. -/
theorem isRead_number (h : asNumeral s = some n) : IsRead literal s (some (.number n)) := by
  intro t ht
  have hnumber := numberLiteral_append ht h
  obtain ⟨c, s', rfl, hbegins⟩ := exists_beginsNumeral h
  obtain ⟨hspace, hquote, hnull⟩ := hbegins.plain
  unfold literal bareLiteral
  rw [List.cons_append, skipSpace_cons hspace, if_neg, if_neg, ← List.cons_append, hnumber]
  · rfl
  · rw [List.head?_cons, Option.any_some, hquote]
    exact Bool.false_ne_true
  · intro hword
    have hhead := congrArg List.head? hword
    unfold word at hhead
    by_cases hc : isWordByte c = true
    · rw [List.takeWhile_cons_of_pos hc] at hhead
      exact hnull (Option.some.inj hhead)
    · rw [List.takeWhile_cons_of_neg hc] at hhead
      cases hhead

/-! ## Lists -/

section Lists

variable {α β : Type} {item : Bytes → Option (α × Bytes)} {text : β → Bytes} {value : β → Option α}
  {xs : List β}

/-- **A list is read as its items are.** -/
theorem commaList_isRead (hspace : ∀ t, item (32 :: t) = item t)
    (hitem : ∀ x ∈ xs, IsRead item (text x) (value x)) (hne : xs ≠ []) {n : Nat}
    (hn : xs.length ≤ n) (ht : Follows t) (hend : punctuation 44 t = none) :
    commaList item n (commaText text xs ++ t) = (xs.mapM value).map fun ys => (ys, t) := by
  induction xs generalizing n with
  | nil => exact absurd rfl hne
  | cons x xs ih =>
    obtain ⟨hx, hxs⟩ := List.forall_mem_cons.mp hitem
    obtain ⟨n, rfl⟩ : ∃ m, n = m + 1 := Nat.exists_eq_succ_of_ne_zero (by
      rw [List.length_cons] at hn
      omega)
    rw [List.mapM_cons]
    cases xs with
    | nil =>
      have htext : commaText text [x] = text x := by simp [commaText]
      rw [htext, commaList, hx ht]
      cases value x with
      | none => rfl
      | some y =>
        rw [Option.map_some, Option.bind_some]
        dsimp only
        rw [hend]
        rfl
    | cons x' xs =>
      have hlen : (x' :: xs).length ≤ n := by
        rw [List.length_cons] at hn
        omega
      have hrest := ih hxs (List.cons_ne_nil x' xs) hlen
      have hskip : commaList item n (32 :: (commaText text (x' :: xs) ++ t)) =
          commaList item n (commaText text (x' :: xs) ++ t) := by
        cases n with
        | zero => rfl
        | succ n => rw [commaList, commaList, hspace]
      rw [commaText_cons_cons, List.append_assoc, List.cons_append, List.cons_append, commaList,
        hx (follows_comma _)]
      cases value x with
      | none => rfl
      | some y =>
        rw [Option.map_some, Option.bind_some]
        dsimp only
        rw [punctuation_self rfl]
        dsimp only
        rw [hskip, hrest]
        cases (x' :: xs).mapM value with
        | none => rfl
        | some ys => rfl

theorem length_le_length_commaText (xs : List β) : xs.length ≤ (commaText text xs).length + 1 := by
  induction xs with
  | nil => exact Nat.zero_le _
  | cons x xs ih =>
    cases xs with
    | nil => exact Nat.le_add_left 1 _
    | cons x' xs =>
      rw [commaText_cons_cons]
      simp only [List.length_append, List.length_cons] at ih ⊢
      omega

end Lists

/-! ## Conditions -/

theorem name_append (h : IsWord reserved w) (hr : EndsWord r) : name reserved (w ++ r) = some (w, r) := by
  obtain ⟨c, w', rfl⟩ := List.exists_cons_of_ne_nil h.1
  have hword := h.2.1 c List.mem_cons_self
  have hc : c ≠ backtick := by
    rintro rfl
    revert hword
    decide
  rw [name, List.cons_append, skipSpace_cons (isSpace_of_isWordByte hword)]
  dsimp only
  rw [if_neg hc, ← List.cons_append, word_append h.2.1 hr, if_pos h]

theorem endsWord_cons {c : Nat} (hc : isWordByte c = false) (t : Bytes) : EndsWord (c :: t) := by
  intro d hd
  obtain rfl := Option.some.inj hd
  exact hc

/-- A list of literals, of which each is read in one way. -/
theorem parseWhere_in {ys : List Bytes} {value : Bytes → Option Literal} (h : IsWord reserved w)
    (hne : ys ≠ []) (hys : ∀ y ∈ ys, IsRead literal y (value y)) :
    parseWhere reserved (w ++ (ascii " IN (" ++ (commaText id ys ++ [41]))) =
      (ys.mapM value).map fun keys => { column := w, keys } := by
  have hkeyword (t : Bytes) : keyword (ascii "IN") (ascii " IN (" ++ t) = some (32 :: 40 :: t) := by
    have htext : ascii " IN (" ++ t = 32 :: (ascii "IN" ++ 32 :: 40 :: t) := rfl
    rw [htext, keyword_space, keyword_append (by decide) (by decide) (endsWord_cons rfl _)]
  have hopen (t : Bytes) : punctuation 40 (32 :: 40 :: t) = some t := rfl
  have hclose : punctuation 41 [41] = some [] := rfl
  have hlen : ys.length ≤ (commaText id ys ++ [41]).length := by
    rw [List.length_append]
    exact length_le_length_commaText ys
  have hlist : commaList literal (commaText id ys ++ [41]).length (commaText id ys ++ [41]) =
      (ys.mapM value).map fun keys => (keys, [41]) :=
    commaList_isRead literal_space hys hne hlen (follows_close []) rfl
  have hends : EndsWord (ascii " IN (" ++ (commaText id ys ++ [41])) := endsWord_cons rfl _
  unfold parseWhere
  rw [name_append h hends]
  simp only [Option.bind_eq_bind, Option.bind_some, hkeyword, hopen]
  rw [hlist]
  cases ys.mapM value with
  | none => rfl
  | some keys => rfl

theorem parseWhere_eq {y : Bytes} {key : Option Literal} (h : IsWord reserved w)
    (hy : IsRead literal y key) :
    parseWhere reserved (w ++ (ascii " = " ++ y)) = key.map fun key => { column := w, keys := [key] } := by
  have hkeyword : keyword (ascii "IN") (ascii " = " ++ y) = none := rfl
  have hequals : punctuation 61 (ascii " = " ++ y) = some (32 :: y) := rfl
  have hread := hy follows_nil
  rw [List.append_nil] at hread
  have hends : EndsWord (ascii " = " ++ y) := endsWord_cons rfl _
  unfold parseWhere
  rw [name_append h hends]
  simp only [Option.bind_eq_bind, Option.bind_some, hkeyword, hequals, literal_space]
  rw [hread]
  cases key with
  | none => rfl
  | some key => rfl

/-- A condition with no literal is not well formed. -/
theorem parseWhere_in_nil (h : IsWord reserved w) :
    parseWhere reserved (w ++ (ascii " IN (" ++ [41])) = none := by
  have hends : EndsWord (ascii " IN (" ++ [41]) := endsWord_cons rfl _
  unfold parseWhere
  rw [name_append h hends]
  rfl

/-- The column of a condition that is read is a word, if its text weighs no less than the whole. -/
theorem isWord_of_parseWhere {keys : List Literal} (ht : mass t = mass w)
    (h : parseWhere reserved t = some { column := w, keys }) : IsWord reserved w := by
  obtain ⟨⟨column, r⟩, hname, hrest⟩ := Option.bind_eq_some_iff.mp h
  have hcolumn : column = w := by
    dsimp only at hrest
    split at hrest
    · obtain ⟨t₁, -, hrest⟩ := Option.bind_eq_some_iff.mp hrest
      obtain ⟨⟨keys', t₂⟩, -, hrest⟩ := Option.bind_eq_some_iff.mp hrest
      obtain ⟨t₃, -, hrest⟩ := Option.bind_eq_some_iff.mp hrest
      dsimp only at hrest
      split at hrest
      · exact congrArg Condition.column (Option.some.inj hrest)
      · cases hrest
    · obtain ⟨t₁, -, hrest⟩ := Option.bind_eq_some_iff.mp hrest
      obtain ⟨⟨key, t₂⟩, -, hrest⟩ := Option.bind_eq_some_iff.mp hrest
      dsimp only at hrest
      split at hrest
      · exact congrArg Condition.column (Option.some.inj hrest)
      · cases hrest
  rw [hcolumn] at hname
  obtain ⟨hle, hgood⟩ := name_costs hname
  exact hgood (by omega)

/-! ## Texts of numbers -/

section Numbers

open ScriptNumber

theorem weight_of_isDigit {c : Nat} (h : isDigit c = true) : weight c = 0 := by
  refine weight_eq_zero (.inr ?_)
  unfold isWordByte
  rw [h]
  rfl

theorem mass_digits {ds : Bytes} (h : ∀ c ∈ ds, isDigit c = true) : mass ds = 0 :=
  mass_eq_zero fun c hc => weight_of_isDigit (h c hc)

theorem mass_decimalText (s : Nat) (p : Int) : mass (decimalText s p) = 0 := by
  have hdigits := mass_digits (isDigit_natText s)
  have htake (k : Nat) : mass ((natText s).take k) = 0 :=
    mass_digits fun c hc => isDigit_natText s c (List.mem_of_mem_take hc)
  have hdrop (k : Nat) : mass ((natText s).drop k) = 0 :=
    mass_digits fun c hc => isDigit_natText s c (List.mem_of_mem_drop hc)
  have hzeros (k : Nat) : mass (zeros k) = 0 := mass_digits (isDigit_zeros k)
  have hnat (k : Nat) : mass (natText k) = 0 := mass_digits (isDigit_natText k)
  have hdot : weight dot = 0 := rfl
  have hzero : weight 48 = 0 := rfl
  have he : weight 101 = 0 := rfl
  have hsign (e : Int) : weight (if 0 ≤ e then plus else minus) = 0 := by
    split <;> rfl
  unfold decimalText
  dsimp only
  split
  · rw [mass_append, hdigits, hzeros]
  · split
    · rw [mass_append, mass_cons, htake, hdrop, hdot]
    · split
      · rw [mass_cons, mass_cons, mass_append, hzeros, hdigits, hdot, hzero]
      · rw [mass_append, mass_cons, mass_cons, hnat, hsign, he]
        split
        · rw [hdigits]
        · rw [mass_append, mass_cons, htake, hdrop, hdot]

theorem mass_toText (x : Number) : mass (toText x) = 0 := by
  cases x with
  | nan => rfl
  | infinite negative => cases negative <;> rfl
  | finite negative d =>
    unfold toText
    dsimp only
    split
    · rfl
    · have hminus : mass [minus] = 0 := rfl
      rw [mass_append, mass_decimalText]
      split
      · rw [hminus]
      · rfl

/-- A word that is no literal. -/
theorem isRead_word {w : Bytes} (hw : ∀ c ∈ w, isWordByte c = true) (hnull : w ≠ ascii "NULL")
    (hspace : ∀ t, skipSpace (w ++ t) = w ++ t)
    (hquote : ∀ t, (w ++ t).head?.any isStringQuote = false) (hnumeral : ∀ t, numeral (w ++ t) = none) :
    IsRead literal w none := by
  intro t ht
  have hnull' : ¬ (w, t).1 = [78, 85, 76, 76] := hnull
  unfold literal bareLiteral numberLiteral
  rw [hspace, word_append hw ht.endsWord, if_neg hnull', hquote, if_neg Bool.false_ne_true, hnumeral]
  rfl

/-- The text of a number is read as a number, or not at all. -/
theorem isRead_toText (x : Number) :
    IsRead literal (toText x) ((asNumeral (toText x)).map Literal.number) := by
  cases x with
  | finite negative d =>
    obtain ⟨n, hn⟩ := isSome_asNumeral_toText negative d
    rw [hn]
    exact isRead_number hn
  | nan =>
    exact isRead_word (w := ascii "NaN") (by decide) (by decide) (fun _ => rfl) (fun _ => rfl)
      fun _ => rfl
  | infinite negative =>
    cases negative with
    | false =>
      exact isRead_word (w := ascii "Infinity") (by decide) (by decide) (fun _ => rfl) (fun _ => rfl)
        fun _ => rfl
    | true =>
      intro t ht
      rfl

end Numbers

end MySqlText
