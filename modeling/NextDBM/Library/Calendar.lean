import Mathlib.Algebra.GroupWithZero.Nat
import Mathlib.Data.List.Basic

/-!
# The Gregorian calendar

The calendar is extended to all years. Days are counted from the first of January of the year 1, seconds
from the midnight that begins it; a year has cycles of 400, 100, 4 and 1 years before it.
-/

namespace Calendar

/-! ## Blocks of days -/

/-- In which of the blocks of these lengths a number falls, and how far from the beginning of it. -/
def locate : List Nat → Nat → Nat × Nat
  | [], n => (0, n)
  | l :: ls, n => if n < l then (0, n) else ((locate ls (n - l)).1 + 1, (locate ls (n - l)).2)

theorem locate_spec {ls : List Nat} {n : Nat} (h : n < ls.sum) :
    (locate ls n).1 < ls.length ∧ (locate ls n).2 < ls.getD (locate ls n).1 0 ∧
      (ls.take (locate ls n).1).sum + (locate ls n).2 = n := by
  induction ls generalizing n with
  | nil => exact absurd h (Nat.not_lt_zero n)
  | cons l ls ih =>
    rw [locate]
    split
    · next hlt => exact ⟨Nat.zero_lt_succ _, hlt, Nat.zero_add n⟩
    · next hle =>
      rw [List.sum_cons] at h
      obtain ⟨hlength, hrest, hsum⟩ := ih (show n - l < ls.sum by omega)
      refine ⟨Nat.succ_lt_succ hlength, hrest, ?_⟩
      rw [List.take_succ_cons, List.sum_cons]
      omega

/-! ## Dates -/

def isLeap (year : Int) : Bool := year % 4 = 0 && (year % 100 ≠ 0 || year % 400 = 0)

def monthLengths (year : Int) : List Nat :=
  [31, if isLeap year then 29 else 28, 31, 30, 31, 30, 31, 31, 30, 31, 30, 31]

def daysIn (month : Nat) (year : Int) : Nat := (monthLengths year).getD (month - 1) 0

theorem daysIn_le (month : Nat) (year : Int) : daysIn month year ≤ 31 := by
  have hall : ∀ l ∈ monthLengths year, l ≤ 31 := by
    unfold monthLengths
    cases isLeap year with
    | false => decide
    | true => decide
  unfold daysIn
  rw [List.getD_eq_getElem?_getD]
  cases hget : (monthLengths year)[month - 1]? with
  | none => exact Nat.zero_le _
  | some l => exact hall l (List.mem_of_getElem? hget)

def yearLength (year : Int) : Nat := if isLeap year then 366 else 365

theorem sum_monthLengths (year : Int) : (monthLengths year).sum = yearLength year := by
  unfold monthLengths yearLength
  cases isLeap year with
  | false => rfl
  | true => rfl

/-- The first of January, as a number of days. -/
def daysBeforeYear (year : Int) : Int :=
  365 * (year - 1) + (year - 1) / 4 - (year - 1) / 100 + (year - 1) / 400

structure Date where
  year : Int
  month : Nat
  day : Nat
  month_mem : 1 ≤ month ∧ month ≤ 12
  day_mem : 1 ≤ day ∧ day ≤ daysIn month year

def Date.toDays (date : Date) : Int :=
  daysBeforeYear date.year + ((monthLengths date.year).take (date.month - 1)).sum + (date.day - 1)

/-- The years before the one of a day: whole cycles of 400 years, and the rest of a cycle by its
centuries, their leap cycles and single years. The last day of a cycle of 400 or 4 years is not in a
fifth part. -/
def yearsBefore (n : Int) : Int :=
  let r := n % 146097
  let c := r / 36524 - r / 36524 / 4
  let r := r - 36524 * c
  let q := r / 1461
  let r := r - 1461 * q
  400 * (n / 146097) + 100 * c + 4 * q + (r / 365 - r / 365 / 4)

def yearOfDay (n : Int) : Int := yearsBefore n + 1

/-- A day by cycles; only the last year of a cycle of 4 has a day 366, and of the last such cycle in a
century only when the century ends a cycle of 400. -/
theorem exists_cycles (n : Int) : ∃ f c q y r : Int,
    n = 146097 * f + 36524 * c + 1461 * q + 365 * y + r ∧
      yearsBefore n = 400 * f + 100 * c + 4 * q + y ∧ 0 ≤ c ∧ c ≤ 3 ∧ 0 ≤ q ∧ q ≤ 24 ∧ 0 ≤ y ∧ y ≤ 3 ∧
      0 ≤ r ∧ r ≤ 365 ∧ (r = 365 → y = 3 ∧ (q = 24 → c = 3)) := by
  have hf := Int.emod_add_mul_ediv n 146097
  have hr0 := Int.emod_nonneg n (show (146097 : Int) ≠ 0 by omega)
  have hr := Int.emod_lt_of_pos n (show (0 : Int) < 146097 by omega)
  unfold yearsBefore
  generalize n % 146097 = r at hf hr0 hr
  generalize n / 146097 = f at hf
  have hc : 0 ≤ r / 36524 - r / 36524 / 4 ∧ r / 36524 - r / 36524 / 4 ≤ 3 := by omega
  have hr₁ : 0 ≤ r - 36524 * (r / 36524 - r / 36524 / 4) ∧
      (r - 36524 * (r / 36524 - r / 36524 / 4) ≤ 36523 ∨
        r - 36524 * (r / 36524 - r / 36524 / 4) = 36524 ∧ r / 36524 - r / 36524 / 4 = 3) := by omega
  simp only
  generalize hc' : r / 36524 - r / 36524 / 4 = c at hc hr₁
  generalize hr₁' : r - 36524 * c = r₁ at hr₁
  have hq : 0 ≤ r₁ / 1461 ∧ r₁ / 1461 ≤ 24 := by omega
  have hr₂ : 0 ≤ r₁ - 1461 * (r₁ / 1461) ∧ r₁ - 1461 * (r₁ / 1461) ≤ 1460 := by omega
  generalize hq' : r₁ / 1461 = q at hq hr₂
  generalize hr₂' : r₁ - 1461 * q = r₂ at hr₂
  have hy : 0 ≤ r₂ / 365 - r₂ / 365 / 4 ∧ r₂ / 365 - r₂ / 365 / 4 ≤ 3 := by omega
  refine ⟨f, c, q, r₂ / 365 - r₂ / 365 / 4, r₂ - 365 * (r₂ / 365 - r₂ / 365 / 4), by omega, rfl,
    hc.1, hc.2, hq.1, hq.2, hy.1, hy.2, by omega, by omega, by omega⟩

/-- A day falls in its year. -/
theorem daysBeforeYear_yearOfDay (n : Int) : daysBeforeYear (yearOfDay n) ≤ n ∧
    n < daysBeforeYear (yearOfDay n) + yearLength (yearOfDay n) := by
  obtain ⟨f, c, q, y, r, hn, hyears, hc0, hc, hq0, hq, hy0, hy, hr0, hr, hlast⟩ := exists_cycles n
  have hyear : yearOfDay n - 1 = 400 * f + 100 * c + 4 * q + y := by
    rw [yearOfDay, hyears]
    omega
  have hbefore : daysBeforeYear (yearOfDay n) = 146097 * f + 36524 * c + 1461 * q + 365 * y := by
    rw [daysBeforeYear, hyear]
    have h4 : (400 * f + 100 * c + 4 * q + y) / 4 = 100 * f + 25 * c + q := by omega
    have h100 : (400 * f + 100 * c + 4 * q + y) / 100 = 4 * f + c := by omega
    have h400 : (400 * f + 100 * c + 4 * q + y) / 400 = f := by omega
    rw [h4, h100, h400]
    omega
  have hlength : r < yearLength (yearOfDay n) := by
    unfold yearLength
    by_cases hr365 : r = 365
    · obtain ⟨rfl, hcentury⟩ := hlast hr365
      have hleap : isLeap (yearOfDay n) = true := by
        rw [show yearOfDay n = 400 * f + 100 * c + 4 * (q + 1) by omega]
        simp only [isLeap, Bool.and_eq_true, Bool.or_eq_true, decide_eq_true_eq]
        refine ⟨by omega, ?_⟩
        by_cases hq24 : q = 24
        · obtain rfl := hcentury hq24
          exact .inr (by omega)
        · exact .inl (by omega)
      rw [if_pos hleap]
      omega
    · split <;> omega
  rw [hbefore]
  omega

/-- The day within the year, by months. -/
def place (n : Int) : Nat × Nat :=
  locate (monthLengths (yearOfDay n)) (n - daysBeforeYear (yearOfDay n)).toNat

theorem place_spec (n : Int) : (place n).1 < 12 ∧
    (place n).2 < (monthLengths (yearOfDay n)).getD (place n).1 0 ∧
    ((monthLengths (yearOfDay n)).take (place n).1).sum + (place n).2 =
      n - daysBeforeYear (yearOfDay n) := by
  obtain ⟨hfirst, hlast⟩ := daysBeforeYear_yearOfDay n
  have hlt : (n - daysBeforeYear (yearOfDay n)).toNat < (monthLengths (yearOfDay n)).sum := by
    rw [sum_monthLengths]
    omega
  obtain ⟨hmonth, hday, hsum⟩ := locate_spec hlt
  refine ⟨hmonth, hday, ?_⟩
  unfold place
  omega

theorem month_mem_place (n : Int) : 1 ≤ (place n).1 + 1 ∧ (place n).1 + 1 ≤ 12 :=
  ⟨Nat.succ_pos _, (place_spec n).1⟩

theorem day_mem_place (n : Int) :
    1 ≤ (place n).2 + 1 ∧ (place n).2 + 1 ≤ daysIn ((place n).1 + 1) (yearOfDay n) :=
  ⟨Nat.succ_pos _, (place_spec n).2.1⟩

def Date.ofDays (n : Int) : Date where
  year := yearOfDay n
  month := (place n).1 + 1
  day := (place n).2 + 1
  month_mem := month_mem_place n
  day_mem := day_mem_place n

theorem toDays_ofDays (n : Int) : (Date.ofDays n).toDays = n := by
  obtain ⟨-, -, hsum⟩ := place_spec n
  rw [Date.toDays]
  show daysBeforeYear (yearOfDay n) +
    (((monthLengths (yearOfDay n)).take ((place n).1 + 1 - 1)).sum : Nat) +
      (((place n).2 + 1 : Nat) - 1 : Int) = n
  rw [Nat.add_sub_cancel]
  omega

/-! ## Times of day -/

structure DateTime where
  date : Date
  hour : Nat
  minute : Nat
  second : Nat
  hour_lt : hour < 24
  minute_lt : minute < 60
  second_lt : second < 60

/-- `s % 86400`, as hours, minutes and seconds. -/
def clock (s : Int) : Nat := (s % 86400).toNat

theorem clock_lt (s : Int) : clock s / 3600 < 24 := by
  unfold clock
  omega

theorem minute_lt_clock (s : Int) : clock s % 3600 / 60 < 60 := by omega

theorem second_lt_clock (s : Int) : clock s % 60 < 60 := Nat.mod_lt _ (by omega)

def DateTime.ofSeconds (s : Int) : DateTime where
  date := Date.ofDays (s / 86400)
  hour := clock s / 3600
  minute := clock s % 3600 / 60
  second := clock s % 60
  hour_lt := clock_lt s
  minute_lt := minute_lt_clock s
  second_lt := second_lt_clock s

def DateTime.toSeconds (t : DateTime) : Int :=
  t.date.toDays * 86400 + t.hour * 3600 + t.minute * 60 + t.second

/-- Every second has its date and time. -/
theorem toSeconds_ofSeconds (s : Int) : (DateTime.ofSeconds s).toSeconds = s := by
  have hday := toDays_ofDays (s / 86400)
  have hclock : (clock s : Int) = s % 86400 := by
    unfold clock
    omega
  rw [DateTime.toSeconds]
  show (Date.ofDays (s / 86400)).toDays * 86400 + ((clock s / 3600 : Nat) : Int) * 3600 +
    ((clock s % 3600 / 60 : Nat) : Int) * 60 + ((clock s % 60 : Nat) : Int) = s
  rw [hday]
  omega

end Calendar
