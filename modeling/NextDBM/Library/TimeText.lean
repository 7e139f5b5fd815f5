import Mathlib.Data.List.TakeWhile
import NextDBM.Library.Calendar

/-!
# Times written as `2006-01-02 15:04:05`

`format` writes a date and time in this layout, `parse` reads it: years of four digits, hours of one or two,
all other numbers of two, and a fraction of the second that the layout does not have. Texts are lists of
characters.
-/

namespace TimeText

open Calendar

/-! ## Writing -/

/-- `appendInt`: the number with zeros before it up to a width. -/
def appendInt (x : Int) (width : Nat) : List Char :=
  let u := x.natAbs
  let digits := if width = 2 ∧ u < 100 then [Nat.digitChar (u / 10), Nat.digitChar (u % 10)]
    else if width = 4 ∧ u < 10000 then
      [Nat.digitChar (u / 1000), Nat.digitChar (u / 100 % 10), Nat.digitChar (u / 10 % 10),
        Nat.digitChar (u % 10)]
    else List.replicate (width - (Nat.toDigits 10 u).length) '0' ++ Nat.toDigits 10 u
  if x < 0 then '-' :: digits else digits

def format (t : DateTime) : List Char :=
  appendInt t.date.year 4 ++ '-' :: appendInt t.date.month 2 ++ '-' :: appendInt t.date.day 2 ++
    ' ' :: appendInt t.hour 2 ++ ':' :: appendInt t.minute 2 ++ ':' :: appendInt t.second 2

/-! ## Reading -/

inductive ParseError
  | bad
  /-- A number out of its range, by the name of the field. -/
  | range (what : String)
  | extraText
  deriving DecidableEq

def digit (c : Char) : Nat := c.toNat - 48

/-- The number that digits write. -/
def number (digits : List Char) : Nat := digits.foldl (fun n c => 10 * n + digit c) 0

/-- The year: the next four characters. -/
def getYear : List Char → Except ParseError (Nat × List Char)
  | a :: b :: c :: d :: rest =>
    if a.isDigit && b.isDigit && c.isDigit && d.isDigit then .ok (number [a, b, c, d], rest)
    else .error .bad
  | _ => .error .bad

/-- `getnum`: two digits, or one where the width is not fixed. -/
def getnum (fixed : Bool) : List Char → Except ParseError (Nat × List Char)
  | [] => .error .bad
  | c :: rest =>
    if c.isDigit then
      match rest with
      | d :: rest' =>
        if d.isDigit then .ok (number [c, d], rest')
        else if fixed then .error .bad
        else .ok (number [c], rest)
      | [] => if fixed then .error .bad else .ok (number [c], [])
    else .error .bad

/-- `skip` of one character of the layout; a space stands for any number of spaces, and for none at the
end of the text. -/
def skip (c : Char) (value : List Char) : Except ParseError (List Char) :=
  match value with
  | [] => if c = ' ' then .ok [] else .error .bad
  | d :: rest => if d = c then .ok (if c = ' ' then rest.dropWhile (· == ' ') else rest) else .error .bad

def inRange (what : String) (ok : Bool) : Except ParseError Unit :=
  if ok then .ok () else .error (.range what)

def commaOrPeriod (c : Char) : Bool := c = ',' || c = '.'

abbrev Nanoseconds : Type := { n : Nat // n < 1000000000 }

def noNanoseconds : Nanoseconds := ⟨0, Nat.zero_lt_succ _⟩

theorem number_lt {digits : List Char} (h : ∀ c ∈ digits, c.isDigit = true) :
    number digits < 10 ^ digits.length := by
  have hloop (digits : List Char) (h : ∀ c ∈ digits, c.isDigit = true) (n k : Nat) (hn : n < 10 ^ k) :
      digits.foldl (fun n c => 10 * n + digit c) n < 10 ^ (k + digits.length) := by
    induction digits generalizing n k with
    | nil => exact hn
    | cons c digits ih =>
      rw [List.forall_mem_cons] at h
      have hc : digit c < 10 := by
        have := h.1
        simp only [Char.isDigit, Bool.and_eq_true, decide_eq_true_eq, UInt32.le_iff_toNat_le] at this
        have hval : c.val.toNat = c.toNat := rfl
        have h57 : '9'.val.toNat = 57 := rfl
        unfold digit
        omega
      have hstep : 10 * n + digit c < 10 ^ (k + 1) := by
        rw [Nat.pow_succ]
        omega
      have hrest := ih h.2 _ _ hstep
      rw [List.length_cons, show k + (digits.length + 1) = k + 1 + digits.length by omega]
      exact hrest
  have hall := hloop digits h 0 0 (by omega)
  rwa [Nat.zero_add] at hall

/-- The digits of a fraction in nanoseconds; those after the ninth are dropped. -/
def nanoseconds (digits : List Char) : Nat :=
  number (digits.take 9) * 10 ^ (9 - (digits.take 9).length)

theorem nanoseconds_lt {digits : List Char} (h : ∀ c ∈ digits, c.isDigit = true) :
    nanoseconds digits < 1000000000 := by
  have htake : ∀ c ∈ digits.take 9, c.isDigit = true := fun c hc => h c (List.mem_of_mem_take hc)
  have hnumber := number_lt htake
  have hlength : (digits.take 9).length ≤ 9 := List.length_take_le 9 digits
  calc nanoseconds digits
      < 10 ^ (digits.take 9).length * 10 ^ (9 - (digits.take 9).length) :=
        Nat.mul_lt_mul_of_pos_right hnumber (Nat.pow_pos (by omega))
    _ = 10 ^ ((digits.take 9).length + (9 - (digits.take 9).length)) := (Nat.pow_add 10 _ _).symm
    _ = 10 ^ 9 := by rw [Nat.add_sub_cancel' hlength]
    _ = 1000000000 := rfl

theorem nanoseconds_takeWhile_lt (rest : List Char) :
    nanoseconds (rest.takeWhile Char.isDigit) < 1000000000 :=
  nanoseconds_lt fun _ hc => List.mem_takeWhile_imp hc

/-- A fraction after the seconds. -/
def fraction : List Char → Nanoseconds × List Char
  | p :: rest =>
    if commaOrPeriod p && !(rest.takeWhile Char.isDigit).isEmpty then
      (⟨nanoseconds (rest.takeWhile Char.isDigit), nanoseconds_takeWhile_lt rest⟩,
        rest.dropWhile Char.isDigit)
    else (noNanoseconds, p :: rest)
  | [] => (noNanoseconds, [])

/-- The time and the nanoseconds. Of the day only the end of the month is not checked before the whole text
is read. -/
def parse (value : List Char) : Except ParseError (DateTime × Nanoseconds) := do
  let (year, value) ← getYear value
  let value ← skip '-' value
  let (month, value) ← getnum true value
  inRange "month" (1 ≤ month && month ≤ 12)
  let value ← skip '-' value
  let (day, value) ← getnum true value
  let value ← skip ' ' value
  let (hour, value) ← getnum false value
  inRange "hour" (hour < 24)
  let value ← skip ':' value
  let (minute, value) ← getnum true value
  inRange "minute" (minute < 60)
  let value ← skip ':' value
  let (second, value) ← getnum true value
  inRange "second" (second < 60)
  let (nsec, value) := fraction value
  if value ≠ [] then .error .extraText
  else if h : (1 ≤ month ∧ month ≤ 12) ∧ (1 ≤ day ∧ day ≤ daysIn month year) ∧
      hour < 24 ∧ minute < 60 ∧ second < 60 then
    .ok ({ date := { year, month, day, month_mem := h.1, day_mem := h.2.1 }, hour, minute, second,
           hour_lt := h.2.2.1, minute_lt := h.2.2.2.1, second_lt := h.2.2.2.2 }, nsec)
  else .error (.range "day")

/-! ## What is written is read

A year with more or less than four digits is not. -/

variable {rest : List Char} {n : Nat} {t : DateTime}

theorem isDigit_digitChar (h : n < 10) : (Nat.digitChar n).isDigit = true := by
  revert n
  decide

theorem digit_digitChar (h : n < 10) : digit (Nat.digitChar n) = n := by
  revert n
  decide

theorem number_two {a b : Nat} (ha : a < 10) (hb : b < 10) :
    number [Nat.digitChar a, Nat.digitChar b] = 10 * a + b := by
  simp only [number, List.foldl_cons, List.foldl_nil, digit_digitChar ha, digit_digitChar hb]
  omega

theorem number_four {a b c d : Nat} (ha : a < 10) (hb : b < 10) (hc : c < 10) (hd : d < 10) :
    number [Nat.digitChar a, Nat.digitChar b, Nat.digitChar c, Nat.digitChar d] =
      1000 * a + 100 * b + 10 * c + d := by
  simp only [number, List.foldl_cons, List.foldl_nil, digit_digitChar ha, digit_digitChar hb,
    digit_digitChar hc, digit_digitChar hd]
  omega

theorem appendInt_two (h : n < 100) :
    appendInt n 2 = [Nat.digitChar (n / 10), Nat.digitChar (n % 10)] := by
  unfold appendInt
  rw [Int.natAbs_natCast, if_neg (by omega), if_pos ⟨rfl, h⟩]

theorem appendInt_four (h : n < 10000) :
    appendInt n 4 = [Nat.digitChar (n / 1000), Nat.digitChar (n / 100 % 10),
      Nat.digitChar (n / 10 % 10), Nat.digitChar (n % 10)] := by
  unfold appendInt
  rw [Int.natAbs_natCast, if_neg (by omega), if_neg (by omega), if_pos ⟨rfl, h⟩]

theorem getnum_appendInt (h : n < 100) (fixed : Bool) :
    getnum fixed (appendInt n 2 ++ rest) = .ok (n, rest) := by
  have ha : n / 10 < 10 := by omega
  have hb : n % 10 < 10 := by omega
  rw [appendInt_two h]
  show (if (Nat.digitChar (n / 10)).isDigit then
    if (Nat.digitChar (n % 10)).isDigit then _ else _ else _) = _
  rw [if_pos (isDigit_digitChar ha), if_pos (isDigit_digitChar hb), number_two ha hb]
  congr 2
  omega

theorem getYear_appendInt (h : n < 10000) : getYear (appendInt n 4 ++ rest) = .ok (n, rest) := by
  have ha : n / 1000 < 10 := by omega
  have hb : n / 100 % 10 < 10 := by omega
  have hc : n / 10 % 10 < 10 := by omega
  have hd : n % 10 < 10 := by omega
  rw [appendInt_four h]
  show (if (Nat.digitChar (n / 1000)).isDigit && (Nat.digitChar (n / 100 % 10)).isDigit &&
    (Nat.digitChar (n / 10 % 10)).isDigit && (Nat.digitChar (n % 10)).isDigit then _ else _) = _
  rw [isDigit_digitChar ha, isDigit_digitChar hb, isDigit_digitChar hc, isDigit_digitChar hd,
    number_four ha hb hc hd]
  show Except.ok _ = _
  congr 2
  omega

theorem skip_self {c : Char} (h : c ≠ ' ') : skip c (c :: rest) = .ok rest := by
  rw [skip, if_pos rfl, if_neg h]

theorem skip_appendInt (h : n < 100) :
    skip ' ' (' ' :: (appendInt n 2 ++ rest)) = .ok (appendInt n 2 ++ rest) := by
  have hspace : (Nat.digitChar (n / 10) == ' ') = false := by
    have hdigit := isDigit_digitChar (show n / 10 < 10 by omega)
    rw [beq_eq_false_iff_ne]
    intro heq
    rw [heq] at hdigit
    cases hdigit
  rw [skip, if_pos rfl, if_pos rfl, appendInt_two h, List.cons_append, List.dropWhile_cons, hspace]
  rfl

theorem inRange_of {what : String} {ok : Bool} (h : ok = true) : inRange what ok = .ok () := if_pos h

theorem parse_format (h0 : 0 ≤ t.date.year) (h : t.date.year ≤ 9999) :
    parse (format t) = .ok (t, noNanoseconds) := by
  obtain ⟨⟨year, month, day, hmonth, hday⟩, hour, minute, second, hhour, hminute, hsecond⟩ := t
  obtain ⟨y, rfl⟩ := Int.eq_ofNat_of_zero_le h0
  have hdays := daysIn_le month y
  have hcond : (1 ≤ month ∧ month ≤ 12) ∧ (1 ≤ day ∧ day ≤ daysIn month y) ∧
      hour < 24 ∧ minute < 60 ∧ second < 60 := ⟨hmonth, hday, hhour, hminute, hsecond⟩
  have hy : y < 10000 := by
    change (y : Int) ≤ 9999 at h
    omega
  have hsecond' : getnum true (appendInt second 2) = .ok (second, []) := by
    rw [← List.append_nil (appendInt second 2)]
    exact getnum_appendInt (by omega) true
  unfold parse format
  simp only [List.append_assoc, List.cons_append]
  rw [getYear_appendInt hy]
  simp only [bind, Except.bind, skip_self (show '-' ≠ ' ' by decide),
    skip_self (show ':' ≠ ' ' by decide), getnum_appendInt (show month < 100 by omega),
    getnum_appendInt (show day < 100 by omega), getnum_appendInt (show hour < 100 by omega),
    getnum_appendInt (show minute < 100 by omega), skip_appendInt (show hour < 100 by omega), hsecond',
    inRange_of (show (1 ≤ month && month ≤ 12 : Bool) = true by simp [hmonth.1, hmonth.2]),
    inRange_of (decide_eq_true hhour), inRange_of (decide_eq_true hminute),
    inRange_of (decide_eq_true hsecond)]
  rw [if_neg (fun hne => hne rfl), dif_pos hcond]
  rfl

theorem getYear_of_not_isDigit {c : Char} (h : c.isDigit = false) :
    getYear (c :: rest) = .error .bad := by
  unfold getYear
  split
  · next heq =>
    cases heq
    rw [h]
    rfl
  · rfl

/-- A year of more digits is followed by a digit where the dash is read. -/
theorem skip_getYear {ds : List Char} (hds : ∀ c ∈ ds, c.isDigit = true) (hlength : 4 < ds.length) :
    (getYear (ds ++ rest) >>= fun r => skip '-' r.2) = .error .bad := by
  obtain ⟨a, b, c, d, e, ds, rfl⟩ : ∃ a b c d e ds', ds = a :: b :: c :: d :: e :: ds' := by
    match ds, hlength with
    | a :: b :: c :: d :: e :: ds', _ => exact ⟨a, b, c, d, e, ds', rfl⟩
  have he : e ≠ '-' := by
    rintro rfl
    have := hds '-' (by simp)
    cases this
  simp only [List.cons_append, getYear, hds a (by simp), hds b (by simp), hds c (by simp),
    hds d (by simp), Bool.and_true, if_true]
  show skip '-' (e :: (ds ++ rest)) = _
  rw [skip, if_neg he]

theorem appendInt_of_neg {x : Int} (h : x < 0) (width : Nat) :
    ∃ digits, appendInt x width = '-' :: digits := by
  unfold appendInt
  exact ⟨_, if_pos h⟩

theorem length_toDigits_of_ge (h : 10000 ≤ n) : 4 < (Nat.toDigits 10 n).length := by
  by_contra hle
  rw [Nat.not_lt, Nat.length_toDigits_le_iff (by omega) (by omega)] at hle
  omega

theorem appendInt_of_ge (h : 10000 ≤ n) : appendInt n 4 = Nat.toDigits 10 n := by
  have hlength := length_toDigits_of_ge h
  unfold appendInt
  rw [Int.natAbs_natCast, if_neg (by omega), if_neg (by omega), if_neg (by omega),
    Nat.sub_eq_zero_of_le (by omega), List.replicate_zero, List.nil_append]

theorem parse_of_bad {value : List Char}
    (h : (getYear value >>= fun r => skip '-' r.2) = .error .bad) : parse value = .error .bad := by
  unfold parse
  cases hyear : getYear value with
  | error e =>
    rw [hyear] at h
    obtain rfl : e = .bad := Except.error.inj h
    rfl
  | ok r =>
    obtain ⟨year, rest⟩ := r
    rw [hyear] at h
    change skip '-' rest = .error .bad at h
    show (skip '-' rest >>= _) = _
    rw [h]
    rfl

theorem parse_format_of_not (h : ¬ (0 ≤ t.date.year ∧ t.date.year ≤ 9999)) :
    parse (format t) = .error .bad := by
  refine parse_of_bad ?_
  unfold format
  simp only [List.append_assoc, List.cons_append]
  by_cases hneg : t.date.year < 0
  · obtain ⟨digits, hdigits⟩ := appendInt_of_neg hneg 4
    rw [hdigits, List.cons_append, getYear_of_not_isDigit rfl]
    rfl
  · obtain ⟨y, hy⟩ := Int.eq_ofNat_of_zero_le (show 0 ≤ t.date.year by omega)
    have hge : 10000 ≤ y := by omega
    rw [hy, appendInt_of_ge hge]
    refine skip_getYear (fun c hc => Nat.isDigit_of_mem_toDigits (by omega) (by omega) hc)
      (length_toDigits_of_ge hge)

theorem mem_appendInt {x : Int} {width : Nat} {c : Char} (h : c ∈ appendInt x width) :
    c = '-' ∨ c.isDigit = true := by
  have hdigits (ds : List Char) (hds : ∀ c ∈ ds, c.isDigit = true)
      (h : c ∈ if x < 0 then '-' :: ds else ds) : c = '-' ∨ c.isDigit = true := by
    split at h
    · rcases List.mem_cons.mp h with hc | hc
      · exact .inl hc
      · exact .inr (hds c hc)
    · exact .inr (hds c h)
  refine hdigits _ ?_ h
  split
  · next hwidth =>
    have h10 : x.natAbs / 10 < 10 := by omega
    intro d hd
    rcases List.mem_pair.mp hd with rfl | rfl
    · exact isDigit_digitChar h10
    · exact isDigit_digitChar (Nat.mod_lt _ (by omega))
  · split
    · next hwidth =>
      have h1000 : x.natAbs / 1000 < 10 := by omega
      rw [List.forall_mem_cons, List.forall_mem_cons, List.forall_mem_cons, List.forall_mem_singleton]
      exact ⟨isDigit_digitChar h1000, isDigit_digitChar (Nat.mod_lt _ (by omega)),
        isDigit_digitChar (Nat.mod_lt _ (by omega)), isDigit_digitChar (Nat.mod_lt _ (by omega))⟩
    · intro d hd
      rcases List.mem_append.mp hd with hd | hd
      · rw [List.eq_of_mem_replicate hd]
        rfl
      · exact Nat.isDigit_of_mem_toDigits (by omega) (by omega) hd

/-- What is written has no quotes. -/
theorem quote_not_mem_format : '"' ∉ format t := by
  have hint (x : Int) (width : Nat) : '"' ∉ appendInt x width := by
    intro h
    rcases mem_appendInt h with h | h
    · cases h
    · cases h
  simp [format, hint]

end TimeText
