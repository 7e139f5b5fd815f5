import Mathlib.Algebra.BigOperators.Group.List.Basic
import Mathlib.Algebra.GroupWithZero.Nat
import Mathlib.Data.List.TakeWhile

/-!
# The text of an INSERT statement

How MySQL reads names and string literals, in its default mode: a name is a word, or any text between
backticks with the backticks in it doubled; a string literal stands between quotes or double quotes,
with these doubled or escaped in it and `\` before other escaped characters; literals next to each other
are one. Texts are lists of bytes. `parseInsert` reads a statement that inserts one row of literals.

Quotes, backslashes and backticks have a weight. Reading consumes at least the weight of what is read,
and that of the delimiters. It consumes no more only where the text stands as it is. So a writer that
delimits every text by quotes is read right only where no text needs another form.
-/

namespace MySqlText

abbrev Bytes : Type := List Nat

def doubleQuote : Nat := 34
def quote : Nat := 39
def backslash : Nat := 92
def backtick : Nat := 96

def isSpace (c : Nat) : Bool := c = 32 || (9 ≤ c && c ≤ 13)

def isDigit (c : Nat) : Bool := 48 ≤ c && c ≤ 57

def isHexDigit (c : Nat) : Bool := isDigit c || (65 ≤ c && c ≤ 70) || (97 ≤ c && c ≤ 102)

/-- Bytes of words: letters, digits, `$`, `_`, and what is not ASCII. -/
def isWordByte (c : Nat) : Bool :=
  isDigit c || (65 ≤ c && c ≤ 90) || (97 ≤ c && c ≤ 122) || c = 36 || c = 95 || 128 ≤ c

/-- Words that begin as a number does: digits alone, digits with an exponent, and the prefixes `0x` and
`0b`. -/
def isNumber (w : Bytes) : Bool :=
  let rest := w.dropWhile isDigit
  let exponent := match rest with
    | c :: d :: _ => (c = 69 || c = 101) && isDigit d
    | _ => false
  let based := match w with
    | 48 :: 120 :: d :: ds => (d :: ds).all isHexDigit
    | 48 :: 98 :: d :: ds => (d :: ds).all fun c => c = 48 || c = 49
    | _ => false
  rest.isEmpty || (isDigit (w.headD 0) && exponent) || based

def skipSpace (t : Bytes) : Bytes := t.dropWhile isSpace

/-- A word, and what is left. -/
def word (t : Bytes) : Bytes × Bytes := (t.takeWhile isWordByte, t.dropWhile isWordByte)

/-- What is read after a byte. -/
def push (d : Bytes) (x : Option (Bytes × Bytes)) : Option (Bytes × Bytes) :=
  x.map fun y => (d ++ y.1, y.2)

/-- What an escaped byte stands for. Before `%` and `_` the backslash stays. -/
def unescape (c : Nat) : Bytes :=
  if c = 37 ∨ c = 95 then [backslash, c]
  else if c = 48 then [0]
  else if c = 98 then [8]
  else if c = 110 then [10]
  else if c = 114 then [13]
  else if c = 116 then [9]
  else if c = 90 then [26]
  else [c]

def isEscape (c : Nat) : Bool := c = backslash

def noEscape (_ : Nat) : Bool := false

/-- A text after its delimiter, up to the next one that is not doubled. -/
def delimited (q : Nat) (escapes : Nat → Bool) : Bytes → Option (Bytes × Bytes)
  | [] => none
  | c :: t =>
    if c = q then
      match t with
      | [] => some ([], [])
      | c' :: t' => if c' = q then push [q] (delimited q escapes t') else some ([], c' :: t')
    else if escapes c then
      match t with
      | [] => none
      | c' :: t' => push (unescape c') (delimited q escapes t')
    else push [c] (delimited q escapes t)

def isStringQuote (c : Nat) : Bool := c = quote || c = doubleQuote

/-- String literals next to each other, at most `n` of them. -/
def literals : Nat → Bytes → Option (Bytes × Bytes)
  | 0, _ => none
  | n + 1, t =>
    match skipSpace t with
    | [] => none
    | c :: t' =>
      if isStringQuote c then
        (delimited c isEscape t').bind fun (d, r) =>
          if (skipSpace r).head?.any isStringQuote then push d (literals n r) else some (d, r)
      else none

/-- A literal: `none` is `NULL`. -/
def value (t : Bytes) : Option (Option Bytes × Bytes) :=
  let (w, r) := word (skipSpace t)
  if w = [78, 85, 76, 76] then some (none, r)
  else (literals t.length t).map fun (d, r) => (some d, r)

section Reserved

variable (reserved : Bytes → Bool)

/-- A word that is a name. -/
def IsWord (w : Bytes) : Prop :=
  w ≠ [] ∧ (∀ c ∈ w, isWordByte c = true) ∧ isNumber w = false ∧ reserved w = false

instance (w : Bytes) : Decidable (IsWord reserved w) := inferInstanceAs (Decidable (_ ∧ _))

def name (t : Bytes) : Option (Bytes × Bytes) :=
  match skipSpace t with
  | [] => none
  | c :: t' =>
    if c = backtick then delimited backtick noEscape t'
    else if IsWord reserved (word (c :: t')).1 then some (word (c :: t')) else none

/-- A byte that stands for itself. -/
def punctuation (c : Nat) (t : Bytes) : Option Bytes :=
  match skipSpace t with
  | [] => none
  | d :: t' => if d = c then some t' else none

/-- A keyword in capitals. -/
def keyword (w t : Bytes) : Option Bytes :=
  let (w', r) := word (skipSpace t)
  if w' = w then some r else none

/-- One item or more, with commas between them; at most `n` of them. -/
def commaList {α : Type} (item : Bytes → Option (α × Bytes)) : Nat → Bytes → Option (List α × Bytes)
  | 0, _ => none
  | n + 1, t =>
    (item t).bind fun (x, r) =>
      match punctuation 44 r with
      | none => some ([x], r)
      | some r' => (commaList item n r').map fun (xs, r'') => (x :: xs, r'')

/-- A list in parentheses, which may be empty. -/
def parenthesized {α : Type} (item : Bytes → Option (α × Bytes)) (t : Bytes) :
    Option (List α × Bytes) :=
  (punctuation 40 t).bind fun t =>
    match punctuation 41 t with
    | some r => some ([], r)
    | none => (commaList item t.length t).bind fun (xs, r) => (punctuation 41 r).map fun r => (xs, r)

/-- A statement that inserts a row of literals. -/
structure Insert where
  table : Bytes
  columns : List Bytes
  values : List (Option Bytes)
  deriving DecidableEq, Repr

/-- The bytes of a text of ASCII characters. -/
def ascii (s : String) : Bytes := s.toList.map Char.toNat

def parseInsert (t : Bytes) : Option Insert := do
  let t ← keyword (ascii "INSERT") t
  let t ← keyword (ascii "INTO") t
  let (table, t) ← name reserved t
  let (columns, t) ← parenthesized (name reserved) t
  let t ← keyword (ascii "VALUES") t
  let (values, t) ← parenthesized value t
  let t ← punctuation 59 t
  if skipSpace t = [] then some { table, columns, values } else none

end Reserved

/-! ## What reading consumes -/

def weight (c : Nat) : Nat :=
  if c = doubleQuote then 2 else if c = quote ∨ c = backslash ∨ c = backtick then 1 else 0

def mass (t : Bytes) : Nat := (t.map weight).sum

/-- The text stands as it is between delimiters `q`. -/
def isPlain (q : Nat) (escapes : Nat → Bool) : Bytes → Bool
  | [] => true
  | c :: t =>
    if c = q then false
    else if escapes c then
      match t with
      | [] => false
      | c' :: t' => (c' = 37 || c' = 95) && isPlain q escapes t'
    else isPlain q escapes t

/-- Reading an item consumes its cost, and no more only if the item is a good one. -/
def Costs {α : Type} (item : Bytes → Option (α × Bytes)) (cost : α → Nat) (Good : α → Prop) : Prop :=
  ∀ ⦃t x r⦄, item t = some (x, r) → mass r + cost x ≤ mass t ∧ (mass r + cost x = mass t → Good x)

variable {t r d : Bytes} {c q n : Nat} {escapes : Nat → Bool} {reserved : Bytes → Bool}

theorem mass_cons (c : Nat) (t : Bytes) : mass (c :: t) = weight c + mass t := by
  rw [mass, List.map_cons, List.sum_cons, mass]

theorem mass_append (t r : Bytes) : mass (t ++ r) = mass t + mass r := by
  rw [mass, List.map_append, List.sum_append, mass, mass]

theorem mass_eq_zero (h : ∀ c ∈ t, weight c = 0) : mass t = 0 := by
  induction t with
  | nil => rfl
  | cons c t ih =>
    obtain ⟨hc, ht⟩ := List.forall_mem_cons.mp h
    rw [mass_cons, hc, ih ht]

theorem weight_eq_zero (h : isSpace c = true ∨ isWordByte c = true) : weight c = 0 := by
  unfold weight
  rw [if_neg, if_neg]
  · rintro (rfl | rfl | rfl) <;> revert h <;> decide
  · rintro rfl
    revert h
    decide

theorem mass_skipSpace (t : Bytes) : mass (skipSpace t) = mass t := by
  have hsplit : t.takeWhile isSpace ++ skipSpace t = t := List.takeWhile_append_dropWhile
  have hspace : mass (t.takeWhile isSpace) = 0 :=
    mass_eq_zero fun c hc => weight_eq_zero (.inl (List.mem_takeWhile_imp hc))
  have hmass := congrArg mass hsplit
  rw [mass_append, hspace, Nat.zero_add] at hmass
  exact hmass

theorem mass_word (t : Bytes) : mass (word t).1 = 0 ∧ mass (word t).2 = mass t := by
  have hsplit : (word t).1 ++ (word t).2 = t := List.takeWhile_append_dropWhile
  have hword : mass (word t).1 = 0 :=
    mass_eq_zero fun c hc => weight_eq_zero (.inr (List.mem_takeWhile_imp hc))
  have hmass := congrArg mass hsplit
  rw [mass_append, hword, Nat.zero_add] at hmass
  exact ⟨hword, hmass⟩

theorem push_eq_some {x : Option (Bytes × Bytes)} {a : Bytes} (h : push a x = some (d, r)) :
    ∃ d', x = some (d', r) ∧ d = a ++ d' := by
  obtain ⟨⟨d', r'⟩, hx, heq⟩ := Option.map_eq_some_iff.mp h
  obtain ⟨rfl, rfl⟩ := Prod.mk.inj heq
  exact ⟨d', hx, rfl⟩

/-- An escape weighs at least what it stands for, and more unless it stays. -/
theorem mass_unescape (c : Nat) : (c = 37 ∨ c = 95) ∧ unescape c = [backslash, c] ∨
    ¬ (c = 37 ∨ c = 95) ∧ mass (unescape c) ≤ weight c := by
  by_cases hkeep : c = 37 ∨ c = 95
  · refine .inl ⟨hkeep, ?_⟩
    rw [unescape, if_pos hkeep]
  · refine .inr ⟨hkeep, ?_⟩
    rw [unescape, if_neg hkeep]
    split_ifs with h0 hb hn hr ht hz
    all_goals first | exact Nat.zero_le _ | exact Nat.le_of_eq (mass_cons c [])

theorem delimited_costs (hq : 0 < weight q) (hesc : ∀ c, escapes c = true → c = backslash)
    (h : delimited q escapes t = some (d, r)) :
    mass r + mass d + weight q ≤ mass t ∧
      (mass r + mass d + weight q = mass t → isPlain q escapes d = true) := by
  fun_induction delimited q escapes t generalizing d with
  | case1 => cases h
  | case2 =>
    obtain ⟨rfl, rfl⟩ := Prod.mk.inj (Option.some.inj h)
    rw [mass_cons]
    exact ⟨by show 0 + 0 + _ ≤ _; omega, fun _ => rfl⟩
  | case3 t' ih =>
    obtain ⟨d', hd', rfl⟩ := push_eq_some h
    obtain ⟨hle, -⟩ := ih hd'
    rw [mass_cons, mass_cons, List.singleton_append, mass_cons]
    exact ⟨by omega, fun heq => by omega⟩
  | case4 c' t' hc' =>
    obtain ⟨rfl, rfl⟩ := Prod.mk.inj (Option.some.inj h)
    rw [mass_cons q]
    exact ⟨by show _ + 0 + _ ≤ _; omega, fun _ => rfl⟩
  | case5 => cases h
  | case6 c hc hc' c' t' ih =>
    obtain ⟨d', hd', rfl⟩ := push_eq_some h
    obtain ⟨hle, hplain⟩ := ih hd'
    have hback : weight backslash = 1 := rfl
    obtain rfl := hesc c hc'
    rw [mass_cons, mass_cons, mass_append]
    rcases mass_unescape c' with ⟨hkeep, hun⟩ | ⟨-, hun⟩
    · rw [hun, mass_cons, mass_cons]
      have hnil : mass ([] : Bytes) = 0 := rfl
      refine ⟨by omega, fun heq => ?_⟩
      rw [List.cons_append, List.singleton_append, isPlain, if_neg hc, if_pos hc', hplain (by omega), Bool.and_true]
      simpa using hkeep
    · exact ⟨by omega, fun heq => by omega⟩
  | case7 c t hc hc' ih =>
    obtain ⟨d', hd', rfl⟩ := push_eq_some h
    obtain ⟨hle, hplain⟩ := ih hd'
    rw [mass_cons, List.singleton_append, mass_cons]
    refine ⟨by omega, fun heq => ?_⟩
    unfold isPlain
    rw [if_neg hc, if_neg hc']
    exact hplain (by omega)

theorem isStringQuote_iff : isStringQuote c = true ↔ c = quote ∨ c = doubleQuote := by
  unfold isStringQuote
  rw [Bool.or_eq_true, decide_eq_true_eq, decide_eq_true_eq]

theorem escape_backslash (c : Nat) (h : isEscape c = true) : c = backslash := of_decide_eq_true h

theorem skipSpace_mass_cons (h : skipSpace t = c :: r) : weight c + mass r = mass t := by
  rw [← mass_skipSpace t, h, mass_cons]

/-- String literals cost two quotes, and more if there are double quotes or several of them. -/
theorem literals_costs (h : literals n t = some (d, r)) :
    mass r + mass d + 2 ≤ mass t ∧
      (mass r + mass d + 2 = mass t → isPlain quote isEscape d = true) := by
  induction n generalizing t d r with
  | zero => cases h
  | succ n ih =>
    unfold literals at h
    split at h
    · cases h
    next c t' hskip =>
    split at h
    next hquote =>
      obtain ⟨⟨d', r'⟩, hbody, hrest⟩ := Option.bind_eq_some_iff.mp h
      have hweight := skipSpace_mass_cons hskip
      have hpos : 0 < weight c := by
        rcases isStringQuote_iff.mp hquote with rfl | rfl <;> decide
      obtain ⟨hle, hplain⟩ := delimited_costs hpos escape_backslash hbody
      have htwo : c = quote ∧ weight c = 1 ∨ 2 ≤ weight c := by
        rcases isStringQuote_iff.mp hquote with rfl | rfl
        · exact .inl ⟨rfl, rfl⟩
        · exact .inr (Nat.le_refl 2)
      dsimp only at hrest
      split at hrest
      · obtain ⟨d'', hd'', rfl⟩ := push_eq_some hrest
        obtain ⟨hle', -⟩ := ih hd''
        rw [mass_append]
        exact ⟨by omega, fun heq => by omega⟩
      · obtain ⟨rfl, rfl⟩ := Prod.mk.inj (Option.some.inj hrest)
        refine ⟨by omega, fun heq => ?_⟩
        rcases htwo with ⟨rfl, hone⟩ | htwo
        · exact hplain (by omega)
        · omega
    · cases h

def valueCost : Option Bytes → Nat
  | none => 0
  | some d => mass d + 2

/-- The value can stand between quotes as it is. -/
def PlainValue (v : Option Bytes) : Prop := ∀ d, v = some d → isPlain quote isEscape d = true

instance (v : Option Bytes) : Decidable (PlainValue v) := by
  unfold PlainValue
  infer_instance

theorem value_costs : Costs value valueCost PlainValue := by
  intro t v r h
  unfold value at h
  dsimp only at h
  split at h
  · obtain ⟨rfl, rfl⟩ := Prod.mk.inj (Option.some.inj h)
    have hmass : mass (word (skipSpace t)).2 = mass t := by rw [(mass_word _).2, mass_skipSpace]
    exact ⟨by show _ + 0 ≤ _; omega, fun _ d hd => by cases hd⟩
  · obtain ⟨⟨d, r'⟩, hlit, heq⟩ := Option.map_eq_some_iff.mp h
    obtain ⟨rfl, rfl⟩ := Prod.mk.inj heq
    obtain ⟨hle, hplain⟩ := literals_costs hlit
    refine ⟨by show _ + (_ + 2) ≤ _; omega, fun heq d' hd' => ?_⟩
    obtain rfl := Option.some.inj hd'
    have heq' : mass r' + (mass d + 2) = mass t := heq
    exact hplain (by omega)

theorem noEscape_backslash (c : Nat) (h : noEscape c = true) : c = backslash := by cases h

/-- Words cost nothing, and other names their backticks. -/
theorem name_costs : Costs (name reserved) mass (fun w => IsWord reserved w) := by
  intro t w r h
  unfold name at h
  split at h
  · cases h
  next c t' hskip =>
  have hweight := skipSpace_mass_cons hskip
  split at h
  next hc =>
    have hback : weight backtick = 1 := rfl
    obtain ⟨hle, -⟩ := delimited_costs (by decide) noEscape_backslash h
    rw [hc] at hweight
    exact ⟨by omega, fun heq => by omega⟩
  · split at h
    next hword =>
      obtain ⟨hzero, hrest⟩ := mass_word (c :: t')
      have hread : (word (c :: t')).1 = w ∧ (word (c :: t')).2 = r := Prod.mk.inj (Option.some.inj h)
      rw [hread.1] at hzero hword
      rw [hread.2, mass_cons] at hrest
      exact ⟨by omega, fun _ => hword⟩
    · cases h

theorem punctuation_mass {c : Nat} (h : punctuation c t = some r) : mass r ≤ mass t := by
  unfold punctuation at h
  split at h
  · cases h
  next d t' hskip =>
  have hweight := skipSpace_mass_cons hskip
  split at h
  · obtain rfl := Option.some.inj h
    omega
  · cases h

theorem keyword_mass {w : Bytes} (h : keyword w t = some r) : mass r ≤ mass t := by
  unfold keyword at h
  dsimp only at h
  split at h
  · obtain rfl := Option.some.inj h
    rw [(mass_word _).2, mass_skipSpace]
  · cases h

section Lists

variable {α : Type} {item : Bytes → Option (α × Bytes)} {cost : α → Nat} {Good : α → Prop}

theorem commaList_costs (hitem : Costs item cost Good) (n : Nat) :
    Costs (commaList item n) (fun xs => (xs.map cost).sum) (fun xs => ∀ x ∈ xs, Good x) := by
  induction n with
  | zero => intro t xs r h; cases h
  | succ n ih =>
    intro t xs r h
    obtain ⟨⟨x, r'⟩, hx, hrest⟩ := Option.bind_eq_some_iff.mp h
    obtain ⟨hle, hgood⟩ := hitem hx
    dsimp only at hrest
    split at hrest
    · obtain ⟨rfl, rfl⟩ := Prod.mk.inj (Option.some.inj hrest)
      have hsum : ([x].map cost).sum = cost x := by simp
      dsimp only
      rw [hsum]
      refine ⟨hle, fun heq y hy => ?_⟩
      rw [List.mem_singleton.mp hy]
      exact hgood heq
    next r'' hcomma =>
      obtain ⟨⟨ys, r₃⟩, hys, heq⟩ := Option.map_eq_some_iff.mp hrest
      obtain ⟨rfl, rfl⟩ := Prod.mk.inj heq
      obtain ⟨hle', hgood'⟩ := ih hys
      have hpass := punctuation_mass hcomma
      have hsum : ((x :: ys).map cost).sum = cost x + (ys.map cost).sum := by simp
      dsimp only at hle' hgood' ⊢
      rw [hsum]
      refine ⟨by omega, fun heq => ?_⟩
      exact List.forall_mem_cons.mpr ⟨hgood (by omega), hgood' (by omega)⟩

theorem parenthesized_costs (hitem : Costs item cost Good) :
    Costs (parenthesized item) (fun xs => (xs.map cost).sum) (fun xs => ∀ x ∈ xs, Good x) := by
  intro t xs r h
  obtain ⟨t₁, hopen, hrest⟩ := Option.bind_eq_some_iff.mp h
  have hopen' := punctuation_mass hopen
  dsimp only at hrest
  split at hrest
  next r' hclose =>
    obtain ⟨rfl, rfl⟩ := Prod.mk.inj (Option.some.inj hrest)
    have hclose' := punctuation_mass hclose
    exact ⟨by show _ + 0 ≤ _; omega, fun _ x hx => absurd hx List.not_mem_nil⟩
  · obtain ⟨⟨ys, t₂⟩, hlist, hrest⟩ := Option.bind_eq_some_iff.mp hrest
    obtain ⟨hle, hgood⟩ := commaList_costs hitem t₁.length hlist
    obtain ⟨r', hclose, heq⟩ := Option.map_eq_some_iff.mp hrest
    obtain ⟨rfl, rfl⟩ := Prod.mk.inj heq
    have hclose' := punctuation_mass hclose
    dsimp only at hle hgood hclose' ⊢
    exact ⟨by omega, fun heq => hgood (by omega)⟩

end Lists

/-! ## What is read of a text -/

theorem isSpace_of_isWordByte (h : isWordByte c = true) : isSpace c = false := by
  unfold isWordByte isDigit at h
  unfold isSpace
  simp only [Bool.or_eq_true, Bool.and_eq_true, decide_eq_true_eq] at h
  simp only [Bool.or_eq_false_iff, Bool.and_eq_false_iff, decide_eq_false_iff_not]
  omega

theorem skipSpace_cons (h : isSpace c = false) (t : Bytes) : skipSpace (c :: t) = c :: t := by
  rw [skipSpace, List.dropWhile_cons_of_neg (by rw [h]; exact Bool.false_ne_true)]

/-- What follows a word is not a part of it. -/
def EndsWord (r : Bytes) : Prop := ∀ c ∈ r.head?, isWordByte c = false

theorem word_append {w : Bytes} (hw : ∀ c ∈ w, isWordByte c = true) (hr : EndsWord r) :
    word (w ++ r) = (w, r) := by
  have htake : r.takeWhile isWordByte = [] ∧ r.dropWhile isWordByte = r := by
    cases r with
    | nil => exact ⟨rfl, rfl⟩
    | cons c r =>
      have hc : ¬ isWordByte c = true := by
        rw [hr c rfl]
        exact Bool.false_ne_true
      exact ⟨List.takeWhile_cons_of_neg hc, List.dropWhile_cons_of_neg hc⟩
  rw [word, List.takeWhile_append_of_pos hw, List.dropWhile_append_of_pos hw, htake.1, htake.2,
    List.append_nil]

theorem keyword_append {w : Bytes} (hne : w ≠ []) (hw : ∀ c ∈ w, isWordByte c = true)
    (hr : EndsWord r) : keyword w (w ++ r) = some r := by
  obtain ⟨c, w', rfl⟩ := List.exists_cons_of_ne_nil hne
  have hc := isSpace_of_isWordByte (hw c List.mem_cons_self)
  unfold keyword
  rw [List.cons_append, skipSpace_cons hc, ← List.cons_append, word_append hw hr]
  exact if_pos rfl

theorem keyword_space (w t : Bytes) : keyword w (32 :: t) = keyword w t := rfl

theorem punctuation_self (h : isSpace c = false) (t : Bytes) : punctuation c (c :: t) = some t := by
  rw [punctuation, skipSpace_cons h]
  exact if_pos rfl

theorem punctuation_ne {d : Nat} (h : isSpace d = false) (hne : d ≠ c) (t : Bytes) :
    punctuation c (d :: t) = none := by
  rw [punctuation, skipSpace_cons h]
  exact if_neg hne

theorem delimited_append (hesc : ∀ c, escapes c = true → c = backslash)
    (h : isPlain q escapes d = true) (hr : r.head? ≠ some q) :
    delimited q escapes (d ++ q :: r) = some (d, r) := by
  fun_induction isPlain q escapes d with
  | case1 =>
    cases r with
    | nil =>
      show delimited q escapes [q] = _
      unfold delimited
      exact if_pos rfl
    | cons c r =>
      have hc : c ≠ q := fun heq => hr (congrArg some heq)
      show delimited q escapes (q :: c :: r) = _
      unfold delimited
      rw [if_pos rfl]
      exact if_neg hc
  | case2 => cases h
  | case3 => cases h
  | case4 c hc hc' c' t' ih =>
    rw [Bool.and_eq_true] at h
    obtain rfl := hesc c hc'
    have hkeep : unescape c' = [backslash, c'] := if_pos (by simpa using h.1)
    rw [List.cons_append, List.cons_append, delimited, if_neg hc, if_pos hc', ih h.2, hkeep]
    rfl
  | case5 c t hc hc' ih =>
    rw [List.cons_append]
    unfold delimited
    rw [if_neg hc, if_neg hc', ih h]
    rfl

/-- An item is read from a text that a comma or a parenthesis follows. -/
structure Reads {α : Type} (item : Bytes → Option (α × Bytes)) (x : α) (s : Bytes) : Prop where
  head : ∃ c s', s = c :: s' ∧ isSpace c = false ∧ c ≠ 41
  reads : ∀ ⦃c r⦄, c = 44 ∨ c = 41 →
    item (s ++ c :: r) = some (x, c :: r) ∧ item (32 :: (s ++ c :: r)) = some (x, c :: r)

theorem name_reads {w : Bytes} (h : IsWord reserved w) : Reads (name reserved) w w := by
  obtain ⟨c, w', rfl⟩ := List.exists_cons_of_ne_nil h.1
  have hword := h.2.1 c List.mem_cons_self
  have hc : c ≠ 41 ∧ c ≠ backtick := by
    constructor <;> rintro rfl <;> revert hword <;> decide
  refine ⟨⟨c, w', rfl, isSpace_of_isWordByte hword, hc.1⟩, fun d r hd => ?_⟩
  have hends : EndsWord (d :: r) := by
    intro e he
    obtain rfl := Option.some.inj he
    rcases hd with rfl | rfl <;> rfl
  have hread : name reserved (c :: w' ++ d :: r) = some (c :: w', d :: r) := by
    rw [name, List.cons_append, skipSpace_cons (isSpace_of_isWordByte hword)]
    dsimp only
    rw [if_neg hc.2, ← List.cons_append, word_append h.2.1 hends, if_pos h]
  exact ⟨hread, hread⟩

/-- A value as it stands in a statement. -/
def valueText : Option Bytes → Bytes
  | none => ascii "NULL"
  | some d => quote :: (d ++ [quote])

theorem literals_append (hd : isPlain quote isEscape d = true) (hc : c = 44 ∨ c = 41) :
    literals (n + 1) (quote :: (d ++ quote :: c :: r)) = some (d, c :: r) := by
  have hne : (c :: r).head? ≠ some quote := by
    rw [List.head?_cons, Ne, Option.some.injEq]
    rcases hc with rfl | rfl <;> decide
  have hspace : isSpace c = false := by rcases hc with rfl | rfl <;> rfl
  have hquote : isStringQuote c = false := by rcases hc with rfl | rfl <;> rfl
  unfold literals
  rw [skipSpace_cons rfl]
  dsimp only
  rw [if_pos (show isStringQuote quote = true from rfl), delimited_append escape_backslash hd hne,
    Option.bind_some]
  dsimp only
  rw [skipSpace_cons hspace, if_neg]
  rw [List.head?_cons, Option.any_some, hquote]
  exact Bool.false_ne_true

theorem value_reads {v : Option Bytes} (h : PlainValue v) : Reads value v (valueText v) := by
  cases v with
  | none =>
    refine ⟨⟨78, [85, 76, 76], rfl, rfl, by decide⟩, fun c r hc => ?_⟩
    have hends : EndsWord (c :: r) := by
      intro e he
      obtain rfl := Option.some.inj he
      rcases hc with rfl | rfl <;> rfl
    have hword : word (ascii "NULL" ++ c :: r) = ([78, 85, 76, 76], c :: r) :=
      word_append (by decide) hends
    have hread : ∀ t, skipSpace t = ascii "NULL" ++ c :: r → value t = some (none, c :: r) := by
      intro t ht
      rw [value, ht, hword]
      exact if_pos rfl
    exact ⟨hread _ rfl, hread _ rfl⟩
  | some d =>
    have hd := h d rfl
    refine ⟨⟨quote, d ++ [quote], rfl, rfl, by decide⟩, fun c r hc => ?_⟩
    have htext : valueText (some d) ++ c :: r = quote :: (d ++ quote :: c :: r) := by
      simp [valueText]
    have hread : ∀ t, skipSpace t = quote :: (d ++ quote :: c :: r) →
        literals t.length t = some (d, c :: r) → value t = some (some d, c :: r) := by
      intro t ht hlit
      rw [value, ht, hlit]
      rfl
    rw [htext]
    exact ⟨hread _ rfl (literals_append hd hc), hread _ rfl (literals_append hd hc)⟩

section Lists

variable {α : Type} {item : Bytes → Option (α × Bytes)} {text : α → Bytes} {xs : List α}

/-- The texts of the items, with commas between them. -/
def commaText (text : α → Bytes) (xs : List α) : Bytes := [44, 32].intercalate (xs.map text)

theorem commaText_cons_cons (x y : α) (xs : List α) :
    commaText text (x :: y :: xs) = text x ++ (44 :: 32 :: commaText text (y :: xs)) := by
  simp [commaText, List.intercalate_cons_cons]

theorem commaList_reads (hne : xs ≠ []) (h : ∀ x ∈ xs, Reads item x (text x)) (hn : xs.length ≤ n) :
    commaList item n (commaText text xs ++ 41 :: r) = some (xs, 41 :: r) ∧
      commaList item n (32 :: (commaText text xs ++ 41 :: r)) = some (xs, 41 :: r) := by
  induction xs generalizing n with
  | nil => exact absurd rfl hne
  | cons x xs ih =>
    obtain ⟨hx, hxs⟩ := List.forall_mem_cons.mp h
    obtain ⟨n, rfl⟩ : ∃ m, n = m + 1 := Nat.exists_eq_succ_of_ne_zero (by
      rw [List.length_cons] at hn
      omega)
    cases xs with
    | nil =>
      have htext : commaText text [x] = text x := by simp [commaText]
      obtain ⟨hread, hspace⟩ := hx.reads (c := 41) (r := r) (.inr rfl)
      rw [htext]
      unfold commaList
      rw [hread, hspace]
      exact ⟨rfl, rfl⟩
    | cons y ys =>
      have hrest := (ih (List.cons_ne_nil y ys) hxs (by simpa using hn)).2
      obtain ⟨hread, hspace⟩ :=
        hx.reads (c := 44) (r := 32 :: (commaText text (y :: ys) ++ 41 :: r)) (.inl rfl)
      rw [commaText_cons_cons, List.append_assoc, List.cons_append, List.cons_append]
      unfold commaList
      rw [hread, hspace, Option.bind_some]
      dsimp only
      rw [punctuation_self rfl]
      dsimp only
      rw [hrest]
      exact ⟨rfl, rfl⟩

theorem length_le_commaText (h : ∀ x ∈ xs, Reads item x (text x)) :
    xs.length ≤ (commaText text xs).length := by
  induction xs with
  | nil => exact Nat.zero_le _
  | cons x xs ih =>
    obtain ⟨hx, hxs⟩ := List.forall_mem_cons.mp h
    obtain ⟨c, s', htext, -⟩ := hx.head
    have hpos : 0 < (text x).length := by rw [htext]; exact Nat.succ_pos _
    cases xs with
    | nil =>
      have hone : commaText text [x] = text x := by simp [commaText]
      rw [hone]
      exact hpos
    | cons y ys =>
      have hle := ih hxs
      rw [commaText_cons_cons]
      simp only [List.length_append, List.length_cons] at hle ⊢
      omega

theorem parenthesized_reads (text : α → Bytes) (h : ∀ x ∈ xs, Reads item x (text x)) :
    parenthesized item (40 :: (commaText text xs ++ 41 :: r)) = some (xs, r) := by
  unfold parenthesized
  rw [punctuation_self rfl, Option.bind_some]
  cases xs with
  | nil => rfl
  | cons x xs =>
    obtain ⟨c, s', htext, hspace, hne⟩ := (h x List.mem_cons_self).head
    have hfirst : ∃ t, commaText text (x :: xs) = c :: t := by
      cases xs with
      | nil => exact ⟨s', by simp [commaText, htext]⟩
      | cons y ys => exact ⟨_, by rw [commaText_cons_cons, htext, List.cons_append]⟩
    obtain ⟨t, ht⟩ := hfirst
    have hlen : (x :: xs).length ≤ (commaText text (x :: xs) ++ 41 :: r).length := by
      have hle := length_le_commaText h
      rw [List.length_append]
      omega
    have hclose : punctuation 41 (commaText text (x :: xs) ++ 41 :: r) = none := by
      rw [ht, List.cons_append]
      exact punctuation_ne hspace hne _
    rw [hclose]
    dsimp only
    rw [(commaList_reads (List.cons_ne_nil x xs) h hlen).1, Option.bind_some]
    dsimp only
    rw [punctuation_self rfl]
    rfl

end Lists

/-! ## Statements -/

/-- The statement in which the name of the table stands between backticks, and the names of the columns
and the values as they are. -/
def insertText (i : Insert) : Bytes :=
  ascii "INSERT INTO " ++ backtick :: (i.table ++ backtick :: (ascii "  " ++ 40 ::
    (commaText id i.columns ++ 41 :: (ascii " VALUES " ++ 40 ::
      (commaText valueText i.values ++ 41 :: [59])))))

theorem keyword_insert (t : Bytes) : keyword (ascii "INSERT") (ascii "INSERT INTO " ++ t) =
    some (ascii " INTO " ++ t) := by
  have htext : ascii "INSERT INTO " ++ t = ascii "INSERT" ++ (ascii " INTO " ++ t) := rfl
  rw [htext, keyword_append (by decide) (by decide)]
  intro c hc
  obtain rfl := Option.some.inj hc
  rfl

theorem keyword_into (t : Bytes) : keyword (ascii "INTO") (ascii " INTO " ++ t) = some (32 :: t) := by
  have htext : ascii " INTO " ++ t = 32 :: (ascii "INTO" ++ 32 :: t) := rfl
  rw [htext, keyword_space, keyword_append (by decide) (by decide)]
  intro c hc
  obtain rfl := Option.some.inj hc
  rfl

/-- What reading a statement consumes after the first backtick. -/
theorem parseInsert_costs {i : Insert}
    (h : parseInsert reserved (ascii "INSERT INTO " ++ backtick :: t) = some i) :
    1 + mass i.table + (i.columns.map mass).sum + (i.values.map valueCost).sum ≤ mass t ∧
      (1 + mass i.table + (i.columns.map mass).sum + (i.values.map valueCost).sum = mass t →
        isPlain backtick noEscape i.table = true ∧ (∀ w ∈ i.columns, IsWord reserved w) ∧
          ∀ v ∈ i.values, PlainValue v) := by
  have hname : name reserved (32 :: backtick :: t) = delimited backtick noEscape t := rfl
  unfold parseInsert at h
  rw [keyword_insert] at h
  simp only [Option.bind_eq_bind, Option.bind_some, keyword_into, hname] at h
  obtain ⟨⟨table, t₁⟩, htable, h⟩ := Option.bind_eq_some_iff.mp h
  obtain ⟨⟨columns, t₂⟩, hcolumns, h⟩ := Option.bind_eq_some_iff.mp h
  obtain ⟨t₃, hkeyword, h⟩ := Option.bind_eq_some_iff.mp h
  obtain ⟨⟨values, t₄⟩, hvalues, h⟩ := Option.bind_eq_some_iff.mp h
  obtain ⟨t₅, hend, h⟩ := Option.bind_eq_some_iff.mp h
  dsimp only at hcolumns hkeyword hvalues hend h
  split at h
  · obtain rfl := Option.some.inj h
    have hback : weight backtick = 1 := rfl
    obtain ⟨htableLe, htablePlain⟩ := delimited_costs (by decide) noEscape_backslash htable
    obtain ⟨hcolumnsLe, hcolumnsGood⟩ := parenthesized_costs name_costs hcolumns
    obtain ⟨hvaluesLe, hvaluesGood⟩ := parenthesized_costs value_costs hvalues
    have hkeywordLe := keyword_mass hkeyword
    dsimp only at hcolumnsLe hcolumnsGood hvaluesLe hvaluesGood ⊢
    refine ⟨by omega, fun heq => ⟨htablePlain (by omega), hcolumnsGood (by omega),
      hvaluesGood (by omega)⟩⟩
  · cases h

/-- A statement of plain texts is read back. -/
theorem parseInsert_insertText {i : Insert} (htable : isPlain backtick noEscape i.table = true)
    (hcolumns : ∀ w ∈ i.columns, IsWord reserved w) (hvalues : ∀ v ∈ i.values, PlainValue v) :
    parseInsert reserved (insertText i) = some i := by
  have hname (t : Bytes) : name reserved (32 :: backtick :: t) = delimited backtick noEscape t := rfl
  have hspaces (t : Bytes) : parenthesized (name reserved) (ascii "  " ++ t) =
      parenthesized (name reserved) t := rfl
  have hvaluesKeyword (t : Bytes) : keyword (ascii "VALUES") (ascii " VALUES " ++ t) =
      some (32 :: t) := by
    have htext : ascii " VALUES " ++ t = 32 :: (ascii "VALUES" ++ 32 :: t) := rfl
    rw [htext, keyword_space, keyword_append (by decide) (by decide)]
    intro c hc
    obtain rfl := Option.some.inj hc
    rfl
  have hspace (t : Bytes) : parenthesized value (32 :: t) = parenthesized value t := rfl
  have hnames := parenthesized_reads id (r := ascii " VALUES " ++ 40 ::
    (commaText valueText i.values ++ 41 :: [59])) fun w hw => name_reads (hcolumns w hw)
  have htexts := parenthesized_reads valueText (r := [59]) fun v hv =>
    value_reads (hvalues v hv)
  unfold parseInsert insertText
  rw [keyword_insert]
  simp only [Option.bind_eq_bind, Option.bind_some, keyword_into, hname]
  rw [delimited_append noEscape_backslash htable (ne_of_eq_of_ne (b := some 32) rfl (by decide))]
  simp only [Option.bind_some, hspaces]
  rw [hnames]
  simp only [Option.bind_some, hvaluesKeyword, hspace]
  rw [htexts]
  rfl

theorem mass_commaText {α : Type} (text : α → Bytes) (xs : List α) :
    mass (commaText text xs) = (xs.map fun x => mass (text x)).sum := by
  induction xs with
  | nil => rfl
  | cons x xs ih =>
    cases xs with
    | nil => simp [commaText]
    | cons y ys =>
      rw [commaText_cons_cons, mass_append, mass_cons, mass_cons, ih]
      simp only [List.map_cons, List.sum_cons]
      have hcomma : weight 44 = 0 := rfl
      have hspace : weight 32 = 0 := rfl
      omega

theorem mass_valueText (v : Option Bytes) : mass (valueText v) = valueCost v := by
  cases v with
  | none => rfl
  | some d =>
    have hquote : mass [quote] = 1 := rfl
    have hweight : weight quote = 1 := rfl
    rw [valueText, mass_cons, mass_append, hquote, hweight, valueCost]
    omega

/-- **What is read right.** A statement without escapes is read as what was written exactly when no
text in it needs any. -/
theorem parseInsert_insertText_iff (i : Insert) :
    parseInsert reserved (insertText i) = some i ↔
      isPlain backtick noEscape i.table = true ∧ (∀ w ∈ i.columns, IsWord reserved w) ∧
        ∀ v ∈ i.values, PlainValue v := by
  constructor
  · intro h
    refine (parseInsert_costs h).2 ?_
    have hspaces : mass (ascii "  ") = 0 := rfl
    have hvalues : mass (ascii " VALUES ") = 0 := rfl
    have hend : mass [59] = 0 := rfl
    have hopen : weight 40 = 0 := rfl
    have hclose : weight 41 = 0 := rfl
    have hback : weight backtick = 1 := rfl
    have hcosts : (i.values.map fun v => mass (valueText v)).sum = (i.values.map valueCost).sum := by
      rw [List.map_congr_left fun v _ => mass_valueText v]
    have hnames : (i.columns.map fun w => mass (id w)).sum = (i.columns.map mass).sum := rfl
    simp only [mass_append, mass_cons, mass_commaText, hspaces, hvalues, hend, hopen, hclose, hback,
      hcosts, hnames]
    omega
  · rintro ⟨htable, hcolumns, hvalues⟩
    exact parseInsert_insertText htable hcolumns hvalues

end MySqlText
