import Mathlib.Algebra.GroupWithZero.Nat
import Mathlib.Data.List.Basic

/-!
# JSON texts, read unit by unit

A text is a list of code units (bytes or characters, as numbers). The grammar is given by inductive
predicates; the reader is a machine with a stack of the arrays and objects that are open, which can
be stopped after any unit and continued with the next.
-/

/-- A JSON value; a number is kept as its literal, the units of a string are decoded. -/
inductive Json
  | null
  | bool (b : Bool)
  | num (literal : List Nat)
  | str (units : List Nat)
  | arr (vs : List Json)
  | obj (members : List (List Nat × Json))

namespace Json

/-- Space, tab, line feed, carriage return. -/
def isSpace (c : Nat) : Bool := c = 32 || c = 9 || c = 10 || c = 13

/-- White space, possibly none. -/
def Blank (w : List Nat) : Prop := ∀ c ∈ w, isSpace c = true

instance (w : List Nat) : Decidable (Blank w) := inferInstanceAs (Decidable (∀ c ∈ w, _))

def isDigit (c : Nat) : Bool := 48 ≤ c && c ≤ 57

/-- What an escape other than `\u` stands for. -/
def escaped (c : Nat) : Option Nat :=
  if c = 34 ∨ c = 92 ∨ c = 47 then some c   -- `"`, `\`, `/`
  else if c = 98 then some 8
  else if c = 102 then some 12
  else if c = 110 then some 10
  else if c = 114 then some 13
  else if c = 116 then some 9
  else none

/-- The value of a hexadecimal digit. -/
def hexDigit (c : Nat) : Option Nat :=
  if 48 ≤ c ∧ c ≤ 57 then some (c - 48)
  else if 97 ≤ c ∧ c ≤ 102 then some (c - 87)
  else if 65 ≤ c ∧ c ≤ 70 then some (c - 55)
  else none

/-! ## The grammar -/

/-- The units between the quotes of a string, and what they stand for. -/
inductive Chars : List Nat → List Nat → Prop
  | nil : Chars [] []
  | plain {c : Nat} {t units : List Nat} (hc : 32 ≤ c) (hquote : c ≠ 34) (hback : c ≠ 92)
      (h : Chars t units) : Chars (c :: t) (c :: units)
  | escape {c u : Nat} {t units : List Nat} (hc : escaped c = some u) (h : Chars t units) :
      Chars (92 :: c :: t) (u :: units)
  | unicode {c₁ c₂ c₃ c₄ u₁ u₂ u₃ u₄ : Nat} {t units : List Nat} (h₁ : hexDigit c₁ = some u₁)
      (h₂ : hexDigit c₂ = some u₂) (h₃ : hexDigit c₃ = some u₃) (h₄ : hexDigit c₄ = some u₄)
      (h : Chars t units) :
      Chars (92 :: 117 :: c₁ :: c₂ :: c₃ :: c₄ :: t)
        ((((u₁ * 16 + u₂) * 16 + u₃) * 16 + u₄) :: units)

/-- One or more digits. -/
def Digits (ds : List Nat) : Prop := ds ≠ [] ∧ ∀ d ∈ ds, isDigit d = true

/-- The digits before the point: no leading zero. -/
def IntPart (ds : List Nat) : Prop := ds = [48] ∨ Digits ds ∧ ds.head? ≠ some 48

/-- The point and its digits, or nothing. -/
def FracPart (t : List Nat) : Prop := t = [] ∨ ∃ ds, Digits ds ∧ t = 46 :: ds

/-- The exponent with its sign, or nothing. -/
def ExpPart (t : List Nat) : Prop :=
  t = [] ∨ ∃ e sign ds, (e = 101 ∨ e = 69) ∧ (sign = [] ∨ sign = [43] ∨ sign = [45]) ∧ Digits ds ∧
    t = e :: sign ++ ds

/-- The literal of a number. -/
def Number (t : List Nat) : Prop :=
  ∃ sign int frac exp, (sign = [] ∨ sign = [45]) ∧ IntPart int ∧ FracPart frac ∧ ExpPart exp ∧
    t = sign ++ int ++ frac ++ exp

/-- The pieces with commas between them. -/
def commas : List (List Nat) → List Nat
  | [] => []
  | [t] => t
  | t :: u :: rest => t ++ 44 :: commas (u :: rest)

/-- An element of an array: a text of its value, and the white space around it. -/
structure Element where
  before : List Nat
  text : List Nat
  after : List Nat
  value : Json

def Element.units (e : Element) : List Nat := e.before ++ e.text ++ e.after

/-- A member of an object: its key, and its value as an element. -/
structure Member where
  before : List Nat
  key : List Nat
  after : List Nat
  units : List Nat
  element : Element

def Member.whole (m : Member) : List Nat :=
  m.before ++ 34 :: m.key ++ 34 :: m.after ++ 58 :: m.element.units

/-- A text of a value, without white space around it. -/
inductive Value : List Nat → Json → Prop
  | null : Value [110, 117, 108, 108] .null
  | true : Value [116, 114, 117, 101] (.bool true)
  | false : Value [102, 97, 108, 115, 101] (.bool false)
  | num {t : List Nat} (h : Number t) : Value t (.num t)
  | str {t units : List Nat} (h : Chars t units) : Value (34 :: t ++ [34]) (.str units)
  | nil {w : List Nat} (hw : Blank w) : Value (91 :: w ++ [93]) (.arr [])
  | arr {es : List Element} (hne : es ≠ []) (hblank : ∀ e ∈ es, Blank e.before ∧ Blank e.after)
      (h : ∀ e ∈ es, Value e.text e.value) :
      Value (91 :: commas (es.map Element.units) ++ [93]) (.arr (es.map Element.value))
  | empty {w : List Nat} (hw : Blank w) : Value (123 :: w ++ [125]) (.obj [])
  | obj {ms : List Member} (hne : ms ≠ [])
      (hblank : ∀ m ∈ ms, Blank m.before ∧ Blank m.after ∧ Blank m.element.before ∧
        Blank m.element.after)
      (hkey : ∀ m ∈ ms, Chars m.key m.units) (h : ∀ m ∈ ms, Value m.element.text m.element.value) :
      Value (123 :: commas (ms.map Member.whole) ++ [125])
        (.obj (ms.map fun m => (m.units, m.element.value)))

/-! ## The reader -/

/-- How much of a number has been read. -/
inductive Phase
  | minus | zero | int | point | frac | exp | expSign | expDigits
  deriving DecidableEq

/-- A number may end here. -/
def Phase.accepting : Phase → Bool
  | zero => Bool.true
  | int => Bool.true
  | frac => Bool.true
  | expDigits => Bool.true
  | _ => Bool.false

/-- The phase after one more unit of a number. -/
def Phase.next (ph : Phase) (c : Nat) : Option Phase :=
  match ph with
  | minus => if c = 48 then some zero else if isDigit c then some int else none
  | zero => if c = 46 then some point else if c = 101 ∨ c = 69 then some exp else none
  | int =>
    if isDigit c then some int
    else if c = 46 then some point else if c = 101 ∨ c = 69 then some exp else none
  | point => if isDigit c then some frac else none
  | frac => if isDigit c then some frac else if c = 101 ∨ c = 69 then some exp else none
  | exp => if c = 43 ∨ c = 45 then some expSign else if isDigit c then some expDigits else none
  | expSign => if isDigit c then some expDigits else none
  | expDigits => if isDigit c then some expDigits else none

/-- What is being read; what has been read of a literal or a string is kept in reverse. -/
inductive Mode
  | value
  /-- After `[`: an element or `]`. -/
  | first
  /-- After `{`: a key or `}`. -/
  | firstKey
  /-- After a comma in an object. -/
  | key
  | colon
  | string (units : List Nat)
  | escape (units : List Nat)
  | hex (left acc : Nat) (units : List Nat)
  | number (ph : Phase) (literal : List Nat)
  /-- The rest of `null`, `true` or `false`. -/
  | word (rest : List Nat) (v : Json)
  | after (v : Json)

/-- An array or object that is open; its parts are kept in reverse. -/
inductive Frame
  | arr (vs : List Json)
  /-- A key is expected or being read. -/
  | obj (ms : List (List Nat × Json))
  /-- The value of this key is expected or being read. -/
  | mem (ms : List (List Nat × Json)) (key : List Nat)

abbrev State : Type := Mode × List Frame

def initial : State := (.value, [])

/-- The first unit of a value. -/
def startValue (c : Nat) (st : List Frame) : Option State :=
  if c = 34 then some (.string [], st)
  else if c = 123 then some (.firstKey, .obj [] :: st)
  else if c = 91 then some (.first, .arr [] :: st)
  else if c = 45 then some (.number .minus [c], st)
  else if c = 48 then some (.number .zero [c], st)
  else if isDigit c then some (.number .int [c], st)
  else if c = 110 then some (.word [117, 108, 108] .null, st)
  else if c = 116 then some (.word [114, 117, 101] (.bool true), st)
  else if c = 102 then some (.word [97, 108, 115, 101] (.bool false), st)
  else none

/-- A unit after a value. -/
def endValue (v : Json) (c : Nat) (st : List Frame) : Option State :=
  if isSpace c then some (.after v, st)
  else match st with
    | .arr vs :: st =>
      if c = 44 then some (.value, .arr (v :: vs) :: st)
      else if c = 93 then some (.after (.arr (v :: vs).reverse), st)
      else none
    | .mem ms key :: st =>
      if c = 44 then some (.key, .obj ((key, v) :: ms) :: st)
      else if c = 125 then some (.after (.obj ((key, v) :: ms).reverse), st)
      else none
    | _ => none

/-- The closing quote of a string: of a key, or of a value. -/
def endString (units : List Nat) : List Frame → State
  | .obj ms :: st => (.colon, .mem ms units.reverse :: st)
  | st => (.after (.str units.reverse), st)

/-- One unit. -/
def step (s : State) (c : Nat) : Option State :=
  match s with
  | (.value, st) => if isSpace c then some (.value, st) else startValue c st
  | (.first, .arr [] :: st) =>
    if isSpace c then some (.first, .arr [] :: st)
    else if c = 93 then some (.after (.arr []), st)
    else startValue c (.arr [] :: st)
  | (.firstKey, .obj ms :: st) =>
    if isSpace c then some (.firstKey, .obj ms :: st)
    else if c = 34 then some (.string [], .obj ms :: st)
    else if c = 125 then some (.after (.obj []), st)
    else none
  | (.key, st) =>
    if isSpace c then some (.key, st)
    else if c = 34 then some (.string [], st)
    else none
  | (.colon, st) =>
    if isSpace c then some (.colon, st)
    else if c = 58 then some (.value, st)
    else none
  | (.string units, st) =>
    if c = 34 then some (endString units st)
    else if c = 92 then some (.escape units, st)
    else if 32 ≤ c then some (.string (c :: units), st)
    else none
  | (.escape units, st) =>
    if c = 117 then some (.hex 3 0 units, st)
    else (escaped c).map fun u => (.string (u :: units), st)
  | (.hex left acc units, st) =>
    (hexDigit c).map fun u =>
      match left with
      | 0 => (.string ((acc * 16 + u) :: units), st)
      | left + 1 => (.hex left (acc * 16 + u) units, st)
  | (.number ph literal, st) =>
    match ph.next c with
    | some ph => some (.number ph (c :: literal), st)
    | none => if ph.accepting then endValue (.num literal.reverse) c st else none
  | (.word rest v, st) =>
    match rest with
    | [] => none
    | [d] => if c = d then some (.after v, st) else none
    | d :: rest => if c = d then some (.word rest v, st) else none
  | (.after v, st) => endValue v c st
  | _ => none

attribute [local simp] step startValue endValue

/-- The units of a text, one after the other. -/
def run (s : State) : List Nat → Option State
  | [] => some s
  | c :: t => (step s c).bind fun s' => run s' t

/-- The value of a text that ends here. -/
def finish : State → Option Json
  | (.after v, []) => some v
  | (.number ph literal, []) => if ph.accepting then some (.num literal.reverse) else none
  | _ => none

/-- The value of a text. -/
def parse (t : List Nat) : Option Json := (run initial t).bind finish

/-! ## Numbers as `float64` -/

/-- The number with these decimal digits. -/
def digitsValue (ds : List Nat) : Nat := ds.foldl (fun n d => 10 * n + (d - 48)) 0

/-- The digits of a literal without its point, and the power of ten that they are multiplied by. -/
def scientific (literal : List Nat) : Nat × Int :=
  let unsigned := literal.dropWhile (· == 45)
  let (mantissa, exponent) := unsigned.span fun c => c != 101 && c != 69
  let (int, frac) := mantissa.span (· != 46)
  let frac := frac.drop 1
  let power : Int := match exponent.drop 1 with
    | 45 :: ds => -(digitsValue ds : Int)
    | 43 :: ds => digitsValue ds
    | ds => digitsValue ds
  (digitsValue (int ++ frac), power - frac.length)

/-- The number rounds to a finite `float64`. -/
def finiteFloat (literal : List Nat) : Bool :=
  let (n, power) := scientific literal
  let bound := 2 ^ 1024 - 2 ^ 970
  if 0 ≤ power then n * 10 ^ power.toNat < bound else n < bound * 10 ^ (-power).toNat

/-- The number rounds to zero. -/
def zeroFloat (literal : List Nat) : Bool :=
  let (n, power) := scientific literal
  if 0 ≤ power then n = 0 else n * 2 ^ 1075 ≤ 10 ^ (-power).toNat

end Json
