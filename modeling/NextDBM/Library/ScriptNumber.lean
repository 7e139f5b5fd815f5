import Mathlib.Data.Rat.Defs
import NextDBM.Library.MySqlText

/-!
# Numbers of a script

Decimal numerals, what `Number` makes of a text, and how a number is turned into a text again. A number
is the double nearest to what the numeral says, and its text is the shortest one that is read as the
same double. Texts are lists of codes; only ASCII codes and spaces matter here.
-/

namespace ScriptNumber

open MySqlText (Bytes isDigit isHexDigit ascii)

/-! ## Numerals -/

/-- A decimal numeral: its sign, its digits without the dot, and the power of ten. -/
structure Numeral where
  negative : Bool
  mantissa : Nat
  exponent : Int
  deriving DecidableEq, Repr

def digitsValue (ds : Bytes) : Nat := ds.foldl (fun n d => 10 * n + (d - 48)) 0

/-- Digits, and what is left. -/
def digits (t : Bytes) : Bytes × Bytes := (t.takeWhile isDigit, t.dropWhile isDigit)

def dot : Nat := 46
def plus : Nat := 43
def minus : Nat := 45

/-- A sign, if there is one. -/
def sign : Bytes → Bool × Bytes
  | [] => (false, [])
  | c :: t => if c = minus then (true, t) else if c = plus then (false, t) else (false, c :: t)

/-- A dot and digits, if there is a dot. -/
def fraction : Bytes → Bytes × Bytes
  | [] => ([], [])
  | c :: t => if c = dot then digits t else ([], c :: t)

/-- `e`, a sign and digits; nothing if there are no digits. -/
def exponentPart : Bytes → Int × Bytes
  | [] => (0, [])
  | c :: t =>
    if c = 69 ∨ c = 101 then
      match digits (sign t).2 with
      | ([], _) => (0, c :: t)
      | (d :: ds, r) =>
        (if (sign t).1 then -(digitsValue (d :: ds) : Int) else digitsValue (d :: ds), r)
    else (0, c :: t)

/-- A numeral without a sign at the beginning of a text. -/
def unsigned (negative : Bool) (t : Bytes) : Option (Numeral × Bytes) :=
  let (whole, r) := digits t
  let (part, r) := fraction r
  let (e, r) := exponentPart r
  if whole = [] ∧ part = [] then none
  else some (⟨negative, digitsValue (whole ++ part), e - part.length⟩, r)

/-- A numeral at the beginning of a text. -/
def numeral (t : Bytes) : Option (Numeral × Bytes) := unsigned (sign t).1 (sign t).2

/-- The numeral that a text is. -/
def asNumeral (t : Bytes) : Option Numeral :=
  match numeral t with
  | some (n, []) => some n
  | _ => none

namespace Numeral

/-- The amount as a fraction. -/
def fraction (n : Numeral) : Nat × Nat :=
  if 0 ≤ n.exponent then (n.mantissa * 10 ^ n.exponent.toNat, 1)
  else (n.mantissa, 10 ^ (-n.exponent).toNat)

def value (n : Numeral) : ℚ :=
  mkRat (if n.negative then -(n.fraction.1 : Int) else n.fraction.1) n.fraction.2

end Numeral

/-! ## Doubles -/

/-- The nearest natural number to a fraction, the even one of two. -/
def roundDiv (n d : Nat) : Nat :=
  if 2 * (n % d) < d ∨ 2 * (n % d) = d ∧ n / d % 2 = 0 then n / d else n / d + 1

/-- A fraction over a power. -/
def scale (b : Nat) (p : Int) (x : Nat × Nat) : Nat × Nat :=
  if 0 ≤ p then (x.1, x.2 * b ^ p.toNat) else (x.1 * b ^ (-p).toNat, x.2)

/-- `m * b ^ p` as a fraction. -/
def power (b : Nat) (p : Int) (m : Nat) : Nat × Nat :=
  if 0 ≤ p then (m * b ^ p.toNat, 1) else (m, b ^ (-p).toNat)

/-- The exponent `e` of a positive fraction between `2 ^ e` and `2 ^ (e + 1)`. -/
def binaryExponent (x : Nat × Nat) : Int :=
  let e : Int := (Nat.log2 x.1 : Int) - Nat.log2 x.2
  let scaled := scale 2 e x
  if scaled.2 ≤ scaled.1 then e else e - 1

/-- A double that is not negative: `m * 2 ^ p`. -/
structure Double where
  m : Nat
  p : Int
  deriving DecidableEq, Repr

/-- The double nearest to a fraction; `none` is infinity. -/
def double (x : Nat × Nat) : Option Double :=
  if x.1 = 0 then some ⟨0, 0⟩
  else
    let p := max (binaryExponent x - 52) (-1074)
    let scaled := scale 2 p x
    let m := roundDiv scaled.1 scaled.2
    -- Rounding up to the next power of two gives the smallest double with the next exponent.
    let d : Double := if m = 2 ^ 53 then ⟨2 ^ 52, p + 1⟩ else ⟨m, p⟩
    if 971 < d.p then none else some d

def Double.fraction (d : Double) : Nat × Nat := power 2 d.p d.m

inductive Number
  | nan
  | infinite (negative : Bool)
  | finite (negative : Bool) (d : Double)
  deriving DecidableEq, Repr

def Number.ofFraction (negative : Bool) (x : Nat × Nat) : Number :=
  match double x with
  | none => .infinite negative
  | some d => .finite negative d

/-- White space and line ends of a script. -/
def isScriptSpace (c : Nat) : Bool :=
  (9 ≤ c && c ≤ 13) || c = 32 || c = 160 || c = 5760 || (8192 ≤ c && c ≤ 8202) || c = 8232 ||
    c = 8233 || c = 8239 || c = 8287 || c = 12288 || c = 65279

def trim (t : Bytes) : Bytes := ((t.dropWhile isScriptSpace).reverse.dropWhile isScriptSpace).reverse

def hexDigit (c : Nat) : Nat := if isDigit c then c - 48 else if c < 97 then c - 55 else c - 87

/-- The numbers with `0x`, `0o` and `0b`. -/
def based : Bytes → Option Nat
  | 48 :: b :: d :: ds =>
    let base := if b = 120 ∨ b = 88 then 16 else if b = 111 ∨ b = 79 then 8
      else if b = 98 ∨ b = 66 then 2 else 0
    if (d :: ds).all fun c => isHexDigit c && hexDigit c < base then
      some ((d :: ds).foldl (fun n c => base * n + hexDigit c) 0)
    else none
  | _ => none

/-- `Number(s)` of a text. -/
def number (s : Bytes) : Number :=
  let t := trim s
  if t = [] then .finite false ⟨0, 0⟩
  else match based t with
    | some n => .ofFraction false (n, 1)
    | none =>
      if (sign t).2 = ascii "Infinity" then .infinite (sign t).1
      else match asNumeral t with
        | some n => .ofFraction n.negative n.fraction
        | none => .nan

/-! ## Texts of numbers -/

/-- The decimal digits of a number, in their order; at most `fuel` of them. -/
def decimals : Nat → Nat → Bytes
  | 0, _ => []
  | fuel + 1, n => if n < 10 then [48 + n] else decimals fuel (n / 10) ++ [48 + n % 10]

def natText (n : Nat) : Bytes := decimals (Nat.log2 n + 1) n

/-- Cut the zeros at the end of `s * 10 ^ p`. -/
def cutZeros : Nat → Nat × Int → Nat × Int
  | 0, x => x
  | fuel + 1, (s, p) => if s ≠ 0 ∧ s % 10 = 0 then cutZeros fuel (s / 10, p + 1) else (s, p)

/-- The number of digits before the dot of a positive fraction. -/
def decimalExponent (x : Nat × Nat) : Int :=
  let e : Int := ((natText x.1).length : Int) - (natText x.2).length
  let scaled := scale 10 e x
  if scaled.2 ≤ scaled.1 then e + 1 else e

/-- The number with `k` digits that is read as the double, the nearest one of two. -/
def candidate (d : Double) (k : Nat) : Option (Nat × Int) :=
  let p := decimalExponent d.fraction - k
  let scaled := scale 10 p d.fraction
  let s := scaled.1 / scaled.2
  let below := double (power 10 p s) = some d
  let above := double (power 10 p (s + 1)) = some d
  if below ∧ (2 * (scaled.1 % scaled.2) ≤ scaled.2 ∨ ¬ above) then some (s, p)
  else if above then some (s + 1, p) else none

/-- The shortest decimal that is read as the double: `s * 10 ^ p`. Seventeen digits are enough. -/
def shortest (d : Double) : Nat × Int :=
  match (List.range 17).findSome? fun k => candidate d (k + 1) with
  | some x => cutZeros 20 x
  | none => (d.m, 0)

def zeros (n : Nat) : Bytes := List.replicate n 48

/-- A positive decimal as `Number.prototype.toString` writes it. -/
def decimalText (s : Nat) (p : Int) : Bytes :=
  let ds := natText s
  let n : Int := ds.length + p
  if 0 ≤ p ∧ n ≤ 21 then ds ++ zeros p.toNat
  else if 0 < n ∧ n ≤ 21 then ds.take n.toNat ++ dot :: ds.drop n.toNat
  else if -6 < n ∧ n ≤ 0 then 48 :: dot :: (zeros (-n).toNat ++ ds)
  else
    let e := n - 1
    (if ds.length = 1 then ds else ds.take 1 ++ dot :: ds.drop 1) ++
      101 :: (if 0 ≤ e then plus else minus) :: natText e.natAbs

def toText : Number → Bytes
  | .nan => ascii "NaN"
  | .infinite negative => if negative then ascii "-Infinity" else ascii "Infinity"
  | .finite negative d =>
    if d.m = 0 then [48]
    else
      let (s, p) := shortest d
      (if negative then [minus] else []) ++ decimalText s p

/-- `String(Number(s))` -/
def numberText (s : Bytes) : Bytes := toText (number s)

/-! ## Reading on -/

/-- A code that no numeral goes on with. -/
def Stops (c : Nat) : Prop :=
  isDigit c = false ∧ c ≠ dot ∧ c ≠ 69 ∧ c ≠ 101 ∧ c ≠ plus ∧ c ≠ minus

instance (c : Nat) : Decidable (Stops c) := inferInstanceAs (Decidable (_ ∧ _))

section ReadingOn

variable {c : Nat} {n : Numeral}

theorem digits_append (hc : Stops c) (t r : Bytes) :
    digits (t ++ c :: r) = ((digits t).1, (digits t).2 ++ c :: r) := by
  have hdigit : ¬ isDigit c = true := by
    rw [hc.1]
    exact Bool.false_ne_true
  unfold digits
  induction t with
  | nil =>
    rw [List.nil_append, List.takeWhile_cons_of_neg hdigit, List.dropWhile_cons_of_neg hdigit]
    rfl
  | cons d t ih =>
    rw [List.cons_append]
    by_cases hd : isDigit d = true
    · rw [List.takeWhile_cons_of_pos hd, List.takeWhile_cons_of_pos hd,
        List.dropWhile_cons_of_pos hd, List.dropWhile_cons_of_pos hd]
      exact Prod.ext (congrArg (d :: ·) (Prod.mk.inj ih).1) (Prod.mk.inj ih).2
    · rw [List.takeWhile_cons_of_neg hd, List.takeWhile_cons_of_neg hd,
        List.dropWhile_cons_of_neg hd, List.dropWhile_cons_of_neg hd, List.cons_append]

theorem sign_cons (d : Nat) (t : Bytes) :
    sign (d :: t) = if d = minus then (true, t) else if d = plus then (false, t) else (false, d :: t) :=
  rfl

theorem sign_append (hc : Stops c) (t r : Bytes) :
    sign (t ++ c :: r) = ((sign t).1, (sign t).2 ++ c :: r) := by
  cases t with
  | nil =>
    rw [List.nil_append, sign_cons, if_neg hc.2.2.2.2.2, if_neg hc.2.2.2.2.1]
    rfl
  | cons d t =>
    rw [List.cons_append, sign_cons, sign_cons]
    split
    · rfl
    · split <;> rfl

theorem fraction_cons (d : Nat) (t : Bytes) :
    fraction (d :: t) = if d = dot then digits t else ([], d :: t) := rfl

theorem fraction_append (hc : Stops c) (t r : Bytes) :
    fraction (t ++ c :: r) = ((fraction t).1, (fraction t).2 ++ c :: r) := by
  cases t with
  | nil =>
    rw [List.nil_append, fraction_cons, if_neg hc.2.1]
    rfl
  | cons d t =>
    rw [List.cons_append, fraction_cons, fraction_cons]
    split
    · exact digits_append hc t r
    · rfl

theorem exponentPart_cons (d : Nat) (t : Bytes) :
    exponentPart (d :: t) =
      if d = 69 ∨ d = 101 then
        match digits (sign t).2 with
        | ([], _) => (0, d :: t)
        | (e :: ds, r) =>
          (if (sign t).1 then -(digitsValue (e :: ds) : Int) else digitsValue (e :: ds), r)
      else (0, d :: t) := rfl

theorem exponentPart_append (hc : Stops c) (t r : Bytes) :
    exponentPart (t ++ c :: r) = ((exponentPart t).1, (exponentPart t).2 ++ c :: r) := by
  cases t with
  | nil =>
    have hnot : ¬ (c = 69 ∨ c = 101) := not_or.mpr ⟨hc.2.2.1, hc.2.2.2.1⟩
    rw [List.nil_append, exponentPart_cons, if_neg hnot]
    rfl
  | cons d t =>
    rw [List.cons_append, exponentPart_cons, exponentPart_cons]
    split
    · rw [sign_append hc, digits_append hc]
      rcases digits (sign t).2 with ⟨_ | ⟨e, ds⟩, r'⟩ <;> rfl
    · rfl

/-- A numeral ends where it did. -/
theorem numeral_append {t r' : Bytes} (hc : Stops c) (h : numeral t = some (n, r')) (r : Bytes) :
    numeral (t ++ c :: r) = some (n, r' ++ c :: r) := by
  unfold numeral unsigned at h ⊢
  rw [sign_append hc, digits_append hc]
  dsimp only at h ⊢
  rw [fraction_append hc, exponentPart_append hc]
  dsimp only
  split at h
  · cases h
  next hne =>
    obtain ⟨rfl, rfl⟩ := Prod.mk.inj (Option.some.inj h)
    rw [if_neg hne]

theorem numeral_of_asNumeral {t : Bytes} (h : asNumeral t = some n) : numeral t = some (n, []) := by
  unfold asNumeral at h
  split at h
  next heq =>
    obtain rfl := Option.some.inj h
    exact heq
  · cases h

theorem asNumeral_eq_some {t : Bytes} : asNumeral t = some n ↔ numeral t = some (n, []) := by
  refine ⟨numeral_of_asNumeral, fun h => ?_⟩
  unfold asNumeral
  rw [h]

end ReadingOn

/-! ## Texts of numbers are numerals -/

section Texts

variable {ds fs es t : Bytes}

/-- Digits end at what is no digit. -/
theorem digits_prefix (hds : ∀ c ∈ ds, isDigit c = true) (ht : ∀ c ∈ t.head?, isDigit c = false) :
    digits (ds ++ t) = (ds, t) := by
  have hrest : t.takeWhile isDigit = [] ∧ t.dropWhile isDigit = t := by
    cases t with
    | nil => exact ⟨rfl, rfl⟩
    | cons c t =>
      have hc : ¬ isDigit c = true := by
        rw [ht c rfl]
        exact Bool.false_ne_true
      exact ⟨List.takeWhile_cons_of_neg hc, List.dropWhile_cons_of_neg hc⟩
  rw [digits, List.takeWhile_append_of_pos hds, List.dropWhile_append_of_pos hds, hrest.1, hrest.2,
    List.append_nil]

theorem isDigit_decimals (fuel n : Nat) : ∀ c ∈ decimals fuel n, isDigit c = true := by
  have hdigit {m : Nat} (hm : m < 10) : isDigit (48 + m) = true := by
    unfold isDigit
    rw [Bool.and_eq_true, decide_eq_true_eq, decide_eq_true_eq]
    omega
  induction fuel generalizing n with
  | zero => exact fun c hc => absurd hc List.not_mem_nil
  | succ fuel ih =>
    intro c hc
    unfold decimals at hc
    split at hc
    next hlt =>
      rw [List.mem_singleton.mp hc]
      exact hdigit hlt
    · rcases List.mem_append.mp hc with hc | hc
      · exact ih _ c hc
      · rw [List.mem_singleton.mp hc]
        exact hdigit (Nat.mod_lt n (by decide))

theorem isDigit_natText (n : Nat) : ∀ c ∈ natText n, isDigit c = true := isDigit_decimals _ n

theorem natText_ne_nil (n : Nat) : natText n ≠ [] := by
  unfold natText decimals
  split
  · exact List.cons_ne_nil _ _
  · exact List.append_ne_nil_of_right_ne_nil _ (List.cons_ne_nil _ _)

theorem isDigit_zeros (n : Nat) : ∀ c ∈ zeros n, isDigit c = true := by
  intro c hc
  rw [(List.mem_replicate.mp hc).2]
  rfl

/-- An exponent with its sign. -/
theorem exponentPart_text (negative : Bool) (hes : ∀ c ∈ es, isDigit c = true) (hne : es ≠ []) :
    ∃ e, exponentPart (101 :: (if negative then minus else plus) :: es) = (e, []) := by
  obtain ⟨d, ds, rfl⟩ := List.exists_cons_of_ne_nil hne
  have hdigits : digits (d :: ds) = (d :: ds, []) := by
    have hread := digits_prefix (t := []) hes fun c hc => absurd hc (Option.not_mem_none c)
    rwa [List.append_nil] at hread
  rw [exponentPart_cons, if_pos (.inr rfl)]
  cases negative with
  | false =>
    have hsign : sign (plus :: d :: ds) = (false, d :: ds) := rfl
    simp only [Bool.false_eq_true, if_false, hsign, hdigits]
    exact ⟨_, rfl⟩
  | true =>
    have hsign : sign (minus :: d :: ds) = (true, d :: ds) := rfl
    simp only [if_true, hsign, hdigits]
    exact ⟨_, rfl⟩

/-- What stands after the digits before the dot of a numeral. -/
def IsTail (t : Bytes) : Prop :=
  ∃ fs es, (∀ c ∈ fs, isDigit c = true) ∧ (t = es ∨ t = dot :: (fs ++ es)) ∧
    (∃ e, exponentPart es = (e, [])) ∧ ∀ c ∈ es.head?, c = 101

theorem isSome_unsigned (negative : Bool) (hds : ∀ c ∈ ds, isDigit c = true) (hne : ds ≠ [])
    (ht : IsTail t) : ∃ n, unsigned negative (ds ++ t) = some (n, []) := by
  obtain ⟨fs, es, hfs, ht, ⟨e, he⟩, hhead⟩ := ht
  have hstop : ∀ c ∈ es.head?, isDigit c = false := by
    intro c hc
    rw [hhead c hc]
    rfl
  have hwhole : digits (ds ++ t) = (ds, t) := by
    refine digits_prefix hds fun c hc => ?_
    rcases ht with rfl | rfl
    · exact hstop c hc
    · obtain rfl := Option.some.inj hc
      rfl
  have hpart : ∃ part, fraction t = (part, es) := by
    rcases ht with rfl | rfl
    · cases t with
      | nil => exact ⟨[], rfl⟩
      | cons c t =>
        obtain rfl := hhead c rfl
        exact ⟨[], rfl⟩
    · exact ⟨fs, digits_prefix hfs hstop⟩
  obtain ⟨part, hpart⟩ := hpart
  refine ⟨⟨negative, digitsValue (ds ++ part), e - part.length⟩, ?_⟩
  unfold unsigned
  rw [hwhole]
  dsimp only
  rw [hpart]
  dsimp only
  rw [he]
  exact if_neg fun h => hne h.1

theorem isTail_nil : IsTail [] :=
  ⟨[], [], fun _ hc => absurd hc List.not_mem_nil, .inl rfl, ⟨0, rfl⟩,
    fun c hc => absurd hc (Option.not_mem_none c)⟩

theorem isTail_fraction (hfs : ∀ c ∈ fs, isDigit c = true) : IsTail (dot :: fs) :=
  ⟨fs, [], hfs, .inr (by rw [List.append_nil]), ⟨0, rfl⟩,
    fun c hc => absurd hc (Option.not_mem_none c)⟩

theorem isTail_exponent (negative : Bool) (n : Nat) (hfs : ∀ c ∈ fs, isDigit c = true) :
    IsTail (101 :: (if negative then minus else plus) :: natText n) ∧
      IsTail (dot :: (fs ++ 101 :: (if negative then minus else plus) :: natText n)) := by
  have hexponent := exponentPart_text negative (isDigit_natText n) (natText_ne_nil n)
  have hhead : ∀ c ∈ (101 :: (if negative then minus else plus) :: natText n).head?, c = 101 :=
    fun _ hc => (Option.some.inj hc).symm
  exact ⟨⟨[], _, fun c hc => absurd hc List.not_mem_nil, .inl rfl, hexponent, hhead⟩,
    ⟨fs, _, hfs, .inr rfl, hexponent, hhead⟩⟩

/-- A decimal begins with digits, and the rest of it is that of a numeral. -/
theorem decimalText_eq (s : Nat) (p : Int) :
    ∃ ds t, decimalText s p = ds ++ t ∧ (∀ c ∈ ds, isDigit c = true) ∧ ds ≠ [] ∧ IsTail t := by
  have hdigits := isDigit_natText s
  have hne := natText_ne_nil s
  have htake (k : Nat) : ∀ c ∈ (natText s).take k, isDigit c = true :=
    fun c hc => hdigits c (List.mem_of_mem_take hc)
  have hdrop (k : Nat) : ∀ c ∈ (natText s).drop k, isDigit c = true :=
    fun c hc => hdigits c (List.mem_of_mem_drop hc)
  have htake_ne {k : Nat} (hk : 0 < k) : (natText s).take k ≠ [] := by
    intro h
    rcases List.take_eq_nil_iff.mp h with h | h
    · omega
    · exact hne h
  unfold decimalText
  dsimp only
  split
  · refine ⟨natText s ++ zeros p.toNat, [], (List.append_nil _).symm, fun c hc => ?_, ?_, isTail_nil⟩
    · exact (List.mem_append.mp hc).elim (hdigits c) (isDigit_zeros _ c)
    · exact List.append_ne_nil_of_left_ne_nil hne _
  · split
    next h => exact ⟨_, _, rfl, htake _, htake_ne (by omega), isTail_fraction (hdrop _)⟩
    · split
      · refine ⟨[48], _, rfl, fun c hc => ?_, List.cons_ne_nil _ _, isTail_fraction fun c hc => ?_⟩
        · rw [List.mem_singleton.mp hc]
          rfl
        · exact (List.mem_append.mp hc).elim (isDigit_zeros _ c) (hdigits c)
      · have hsign (e : Int) : (if 0 ≤ e then plus else minus) =
            if decide (¬ 0 ≤ e) then minus else plus := by
          by_cases he : 0 ≤ e
          · rw [if_pos he, if_neg (by simpa using he)]
          · rw [if_neg he, if_pos (by simpa using he)]
        rw [hsign]
        obtain ⟨hplain, hpart⟩ := isTail_exponent (decide (¬ 0 ≤ (natText s).length + p - 1))
          ((natText s).length + p - 1).natAbs (hdrop 1)
        split
        · exact ⟨_, _, rfl, hdigits, hne, hplain⟩
        · exact ⟨_, _, by rw [List.append_assoc, List.cons_append], htake 1, htake_ne (by decide), hpart⟩

/-- **The text of a finite number is a numeral.** -/
theorem isSome_asNumeral_toText (negative : Bool) (d : Double) :
    ∃ n, asNumeral (toText (.finite negative d)) = some n := by
  unfold toText
  dsimp only
  split
  · exact ⟨_, rfl⟩
  · obtain ⟨ds, t, htext, hds, hne, ht⟩ := decimalText_eq (shortest d).1 (shortest d).2
    obtain ⟨n, hn⟩ := isSome_unsigned negative hds hne ht
    refine ⟨n, asNumeral_eq_some.mpr ?_⟩
    rw [htext]
    cases negative with
    | true => exact hn
    | false =>
      obtain ⟨c, ds', rfl⟩ := List.exists_cons_of_ne_nil hne
      have hc := hds c List.mem_cons_self
      have hsign : sign (c :: ds' ++ t) = (false, c :: ds' ++ t) := by
        rw [List.cons_append, sign_cons, if_neg, if_neg]
        · rintro rfl
          cases hc
        · rintro rfl
          cases hc
      unfold numeral
      rw [if_neg Bool.false_ne_true, List.nil_append, hsign]
      exact hn

end Texts

/-! ## Spaces around numerals -/

section Spaces

variable {t r a b core : Bytes} {n : Numeral}

/-- What a numeral consists of. -/
def isNumeralByte (c : Nat) : Bool :=
  isDigit c || c = dot || c = plus || c = minus || c = 69 || c = 101

theorem sign_bytes (t : Bytes) : ∃ p, t = p ++ (sign t).2 ∧ ∀ c ∈ p, isNumeralByte c = true := by
  cases t with
  | nil => exact ⟨[], rfl, fun c hc => absurd hc List.not_mem_nil⟩
  | cons c t =>
    rw [sign_cons]
    by_cases hminus : c = minus
    · rw [if_pos hminus, hminus]
      exact ⟨[minus], rfl, by decide⟩
    · by_cases hplus : c = plus
      · rw [if_neg hminus, if_pos hplus, hplus]
        exact ⟨[plus], rfl, by decide⟩
      · rw [if_neg hminus, if_neg hplus]
        exact ⟨[], rfl, fun c hc => absurd hc List.not_mem_nil⟩

theorem digits_bytes (t : Bytes) : ∃ p, t = p ++ (digits t).2 ∧ ∀ c ∈ p, isNumeralByte c = true := by
  refine ⟨(digits t).1, List.takeWhile_append_dropWhile.symm, fun c hc => ?_⟩
  have hdigit : isDigit c = true := List.mem_takeWhile_imp hc
  unfold isNumeralByte
  rw [hdigit]
  rfl

theorem fraction_bytes (t : Bytes) : ∃ p, t = p ++ (fraction t).2 ∧ ∀ c ∈ p, isNumeralByte c = true := by
  cases t with
  | nil => exact ⟨[], rfl, fun c hc => absurd hc List.not_mem_nil⟩
  | cons c t =>
    rw [fraction_cons]
    by_cases hdot : c = dot
    · obtain ⟨p, hp, hbytes⟩ := digits_bytes t
      rw [if_pos hdot]
      refine ⟨c :: p, congrArg (c :: ·) hp, List.forall_mem_cons.mpr ⟨?_, hbytes⟩⟩
      rw [hdot]
      rfl
    · rw [if_neg hdot]
      exact ⟨[], rfl, fun c hc => absurd hc List.not_mem_nil⟩

theorem exponentPart_bytes (t : Bytes) :
    ∃ p, t = p ++ (exponentPart t).2 ∧ ∀ c ∈ p, isNumeralByte c = true := by
  cases t with
  | nil => exact ⟨[], rfl, fun c hc => absurd hc List.not_mem_nil⟩
  | cons c t =>
    rw [exponentPart_cons]
    by_cases he : c = 69 ∨ c = 101
    · obtain ⟨p, hp, hbytes⟩ := sign_bytes t
      obtain ⟨q, hq, hbytes'⟩ := digits_bytes (sign t).2
      rw [if_pos he]
      rcases hdigits : digits (sign t).2 with ⟨_ | ⟨e, ds⟩, r⟩
      · exact ⟨[], rfl, fun c hc => absurd hc List.not_mem_nil⟩
      · rw [hdigits] at hq
        refine ⟨c :: (p ++ q), ?_, List.forall_mem_cons.mpr ⟨?_, List.forall_mem_append.mpr ⟨hbytes, hbytes'⟩⟩⟩
        · show c :: t = c :: (p ++ q) ++ r
          rw [List.cons_append, List.append_assoc, ← hq, ← hp]
        · rcases he with rfl | rfl <;> rfl
    · rw [if_neg he]
      exact ⟨[], rfl, fun c hc => absurd hc List.not_mem_nil⟩

theorem asNumeral_bytes (h : asNumeral t = some n) : ∀ c ∈ t, isNumeralByte c = true := by
  have hread := numeral_of_asNumeral h
  obtain ⟨p, hp, hbytes⟩ := sign_bytes t
  obtain ⟨q, hq, hbytes'⟩ := digits_bytes (sign t).2
  obtain ⟨u, hu, hbytes''⟩ := fraction_bytes (digits (sign t).2).2
  obtain ⟨v, hv, hbytes₃⟩ := exponentPart_bytes (fraction (digits (sign t).2).2).2
  unfold numeral unsigned at hread
  dsimp only at hread
  split at hread
  · cases hread
  · have hrest : (exponentPart (fraction (digits (sign t).2).2).2).2 = [] :=
      (Prod.mk.inj (Option.some.inj hread)).2
    rw [hrest, List.append_nil] at hv
    rw [hp, hq, hu, hv]
    simp only [List.forall_mem_append]
    exact ⟨hbytes, hbytes', hbytes'', hbytes₃⟩

theorem not_isScriptSpace_of_isNumeralByte {c : Nat} (h : isNumeralByte c = true) :
    isScriptSpace c = false := by
  unfold isNumeralByte isDigit dot plus minus at h
  unfold isScriptSpace
  simp only [Bool.or_eq_true, Bool.and_eq_true, decide_eq_true_eq] at h
  simp only [Bool.or_eq_false_iff, Bool.and_eq_false_iff, decide_eq_false_iff_not]
  omega

theorem trim_append (ha : ∀ c ∈ a, isScriptSpace c = true) (hb : ∀ c ∈ b, isScriptSpace c = true)
    (hne : core ≠ []) (hcore : ∀ c ∈ core, isScriptSpace c = false) : trim (a ++ (core ++ b)) = core := by
  have hself {l r : Bytes} (hl : l ≠ []) (h : ∀ c ∈ l, isScriptSpace c = false) :
      (l ++ r).dropWhile isScriptSpace = l ++ r := by
    obtain ⟨c, l, rfl⟩ := List.exists_cons_of_ne_nil hl
    rw [List.cons_append, List.dropWhile_cons_of_neg]
    rw [h c List.mem_cons_self]
    exact Bool.false_ne_true
  have hlast := hself (l := core.reverse) (r := []) (by simpa using hne)
    fun c hc => hcore c (List.mem_reverse.mp hc)
  rw [List.append_nil] at hlast
  unfold trim
  rw [List.dropWhile_append_of_pos ha, hself hne hcore, List.reverse_append,
    List.dropWhile_append_of_pos fun c hc => hb c (List.mem_reverse.mp hc), hlast, List.reverse_reverse]

theorem ofFraction_ne_nan (negative : Bool) (x : Nat × Nat) : Number.ofFraction negative x ≠ .nan := by
  unfold Number.ofFraction
  split <;> exact fun h => by cases h

theorem number_ne_nan_of_trim (h : asNumeral (trim t) = some n) : number t ≠ .nan := by
  have hne : trim t ≠ [] := by
    intro hnil
    rw [hnil] at h
    cases h
  unfold number
  dsimp only
  rw [if_neg hne]
  split
  · exact ofFraction_ne_nan _ _
  · split
    · exact fun h => by cases h
    · rw [h]
      exact ofFraction_ne_nan _ _

end Spaces

end ScriptNumber
