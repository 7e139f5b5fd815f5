import Mathlib.Data.List.FinRange
import NextDBM.Accounts.LoginPolicy

/-!
# The week-time grid

`DragWeekTime` of the web client shows seven rows of 48 half-hour slots and encodes the selected slots
of each row as the text that `checkWeekDay` reads. Dates are those of a browser in UTC+8, the zone that
the base timestamp of the grid assumes.
-/

namespace NextDBM

namespace DragWeekTime

/-- `date.getHours()` of a timestamp in milliseconds. -/
def getHours (date : Nat) : Nat := (date / 3600000 + 8) % 24

/-- `date.getMinutes()`. -/
def getMinutes (date : Nat) : Nat := date / 60000 % 60

/-- `('00' + n).substr(('' + n).length)`. -/
def padded (n : Nat) : String := String.ofList (("00" ++ Nat.repr n).toList.drop (Nat.repr n).length)

/-- `formatDate(date, 'hh:mm')`. -/
def formatDate (date : Nat) : String := padded (getHours date) ++ ":" ++ padded (getMinutes date)

def formatWeekTime (col : Nat) : String :=
  let timestamp := 1542384000000
  let beginstamp := timestamp + col * 1800000
  let endstamp := beginstamp + 1800000
  formatDate beginstamp ++ "~" ++ formatDate endstamp

/-- A slot of the grid; `stop` is its field `end`. -/
structure Item where
  week : String
  value : String
  begin : String
  stop : String
  row : Fin 7
  col : Fin 48
  checked : Bool
  deriving DecidableEq, Repr

structure Day where
  value : String
  row : Fin 7
  child : List Item
  deriving DecidableEq, Repr

/-- `data`: the grid without a selected slot. -/
def data : List Day :=
  let names := ["星期一", "星期二", "星期三", "星期四", "星期五", "星期六", "星期日"]
  (List.finRange 7).map fun (index : Fin 7) =>
    let ret := names.getD index.val ""
    { value := ret
      row := index
      child := (List.finRange 48).map fun (col : Fin 48) =>
        let wt := formatWeekTime col.val
        { week := ret
          value := wt
          begin := (Text.split wt '~').getD 0 ""
          stop := (Text.split wt '~').getD 1 ""
          row := index
          col
          checked := false } }

/-- The grid with a set of selected slots. -/
def weekTimeData (selected : Fin 7 → Fin 48 → Bool) : List Day :=
  data.map fun day =>
    { day with child := day.child.map fun item =>
        { item with checked := selected item.row item.col } }

/-- The body of the loop of `splicing`: the tokens so far, and whether the last slot is selected. -/
def splice (state : List String × Bool) (item : Item) : List String × Bool :=
  let (result, same) := state
  if item.checked then
    if item.checked != same then (result ++ ["、", item.begin, "~", item.stop], item.checked)
    else if result.length ≠ 0 then (result.dropLast ++ [item.stop], item.checked)
    else (result, item.checked)
  else (result, item.checked)

def splicing (arr : List Item) : String := String.join (arr.foldl splice ([], false)).1.tail

/-- `dealTimePeriod`: the periods as keys and values. -/
def dealTimePeriod (weekTimeData : List Day) : List (Int × String) :=
  weekTimeData.map fun day =>
    ((if day.row = 6 then 0 else (day.row.val : Int) + 1), splicing day.child)

end DragWeekTime

/-- A policy whose stored periods are those of a grid, in any order. -/
structure SavedGrid (db : AccountDatabase) where
  policy : LoginPolicy
  enabled : policy.enabled = true
  selected : Fin 7 → Fin 48 → Bool
  periods : ((TimePeriodRepository.findByLoginPolicyId db policy.id).map fun period =>
    (period.key, period.value)).Perm
      (DragWeekTime.dealTimePeriod (DragWeekTime.weekTimeData selected))

/-- `checkWeekDay` reports a match of the policy: as a reject policy it denies the login. -/
def ReportsMatch (db : AccountDatabase) (policy : LoginPolicy) (now : Moment) : Prop :=
  checkWeekDay db [{ policy with rule := "reject" }] now = .error timeDenied

namespace Moment

/-- The row of the grid for a day: the first row is Monday. -/
def row (now : Moment) : Fin 7 := now.weekday - 1

/-- Minutes since midnight. -/
def minutes (now : Moment) : Nat := 60 * now.hour.val + now.minute.val

/-- The slot of a time of day. -/
def slot (now : Moment) : Nat := now.minutes / 30

end Moment

namespace SavedGrid

variable {db : AccountDatabase}

/-- Whether a slot of a day is selected; there is none from 48 on. -/
def isSelected (grid : SavedGrid db) (now : Moment) (i : Nat) : Bool :=
  if h : i < 48 then grid.selected now.row ⟨i, h⟩ else false

/-- The time is the end of a selected slot, and the slot that begins there is not selected. -/
def EndOfRun (grid : SavedGrid db) (now : Moment) : Prop :=
  30 ∣ now.minutes ∧ 0 < now.slot ∧ grid.isSelected now (now.slot - 1) = true ∧
    grid.isSelected now now.slot = false

/-- All slots from that of the time to midnight are selected, but not all slots of the day. -/
def UntilMidnight (grid : SavedGrid db) (now : Moment) : Prop :=
  (∀ i < 48, now.slot ≤ i → grid.isSelected now i = true) ∧
    ∃ i < now.slot, grid.isSelected now i = false

end SavedGrid

end NextDBM
