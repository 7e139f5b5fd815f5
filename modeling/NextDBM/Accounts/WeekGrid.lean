import NextDBM.Accounts.WeekTime

/-!
# The week-time grid in any time zone

The slots of the grid are labelled with the local times of a fixed timestamp, which is midnight in
UTC+8 only. `dealTimePeriod` encodes a selection with these labels, and `renderWeekTime` computes the
slots of an encoded selection from the times themselves. A time zone is its offset from UTC in
minutes.
-/

namespace NextDBM

namespace DragWeekTime

/-! ## The grid -/

/-- `date.getHours()` in a time zone. -/
def getHoursAt (offset : Int) (date : Int) : Nat := ((date + offset * 60000) / 3600000 % 24).toNat

/-- `date.getMinutes()` in a time zone. -/
def getMinutesAt (offset : Int) (date : Int) : Nat := ((date + offset * 60000) / 60000 % 60).toNat

/-- `formatDate(date, 'hh:mm')`. -/
def formatDateAt (offset : Int) (date : Int) : String :=
  padded (getHoursAt offset date) ++ ":" ++ padded (getMinutesAt offset date)

/-- `formatWeekTime`. -/
def formatWeekTimeAt (offset : Int) (col : Nat) : String :=
  let timestamp : Int := 1542384000000
  let beginstamp := timestamp + col * 1800000
  let endstamp := beginstamp + 1800000
  formatDateAt offset beginstamp ++ "~" ++ formatDateAt offset endstamp

/-- `data`. -/
def dataAt (offset : Int) : List Day :=
  let names := ["星期一", "星期二", "星期三", "星期四", "星期五", "星期六", "星期日"]
  (List.finRange 7).map fun (index : Fin 7) =>
    let ret := names.getD index.val ""
    { value := ret
      row := index
      child := (List.finRange 48).map fun (col : Fin 48) =>
        let wt := formatWeekTimeAt offset col.val
        { week := ret
          value := wt
          begin := (Text.split wt '~').getD 0 ""
          stop := (Text.split wt '~').getD 1 ""
          row := index
          col
          checked := false } }

/-- The grid with a set of selected slots. -/
def weekTimeDataAt (offset : Int) (selected : Fin 7 → Fin 48 → Bool) : List Day :=
  (dataAt offset).map fun day =>
    { day with child := day.child.map fun item =>
        { item with checked := selected item.row item.col } }

/-! ## Rendering -/

/-- `Number` of a text of digits; any other text is taken as not a number. -/
def numberOf (s : String) : Option Nat :=
  if s.toList.all Char.isDigit then some (s.toList.foldl (fun n ch => 10 * n + (ch.toNat - 48)) 0)
  else none

/-- `countIndex`; `none` is the result `NaN`. -/
def countIndex (val : String) : Option Nat :=
  let one := String.ofList (val.toList.take 2)
  let a1 := if Text.hasPrefix one "0" then String.ofList (one.toList.drop 1) else one
  let a2 := if Text.hasInfix val "30" then 1 else 0
  (numberOf a1).map fun n => n * 2 + a2

/-- `curWeek.child[i].checked = true` for the slots from `startVal` up to `endVal`. -/
def checkSlots (curWeek : Day) (startVal endVal : Nat) : Day :=
  { curWeek with child := curWeek.child.mapIdx fun i item =>
      if startVal ≤ i ∧ i < endVal then { item with checked := true } else item }

/-- `renderTimePeriod`; `none` stands for the error that is thrown when the text has no second part
or the loop comes to a row or a slot that does not exist. -/
def renderTimePeriod (weekTimeData : List Day) (key : Int) (val : String) : Option (List Day) :=
  let row := if key = 0 then 6 else key - 1
  match Text.split val '~' with
  | start :: stop :: _ =>
    match countIndex start, countIndex stop with
    | some startVal, some endVal =>
      let endVal := if endVal = 0 then 48 else endVal
      if startVal < endVal then
        if row < 0 then none
        else do
          let curWeek ← weekTimeData[row.toNat]?
          if endVal ≤ curWeek.child.length then
            pure (weekTimeData.set row.toNat (checkSlots curWeek startVal endVal))
          else none
      else some weekTimeData
    | _, _ => some weekTimeData
  | _ => none

/-- `handleClearWeekTime`. -/
def handleClearWeekTime (weekTimeData : List Day) : List Day :=
  weekTimeData.map fun day =>
    { day with child := day.child.map fun item => { item with checked := false } }

/-- `renderWeekTime`, without the call of `onChange` at its end. -/
def renderWeekTime (weekTimeData : List Day) (timePeriod : List (Int × String)) :
    Option (List Day) :=
  timePeriod.foldlM (fun weekTimeData period =>
    if period.2.isEmpty then some weekTimeData
    else (Text.split period.2 '、').foldlM (fun weekTimeData cv =>
      renderTimePeriod weekTimeData period.1 cv) weekTimeData) (handleClearWeekTime weekTimeData)

/-! ## The time zones of a row -/

/-- The half hour of the day that the first slot falls in. -/
def firstSlot (offset : Int) : Nat := ((960 + offset) / 30 % 48).toNat

/-- How far rendering moves a slot. In a zone whose half hours do not begin with the hour or half of
it every label is read as the hour before it. -/
def turn (offset : Int) : Nat :=
  if 30 ∣ offset then firstSlot offset else firstSlot offset / 2 * 2

/-- The condition on a row. In a zone whose offset is not a multiple of half an hour the slots of an
hour are selected together; and where rendering moves the slots, the row is the same after the move
and is not selected across midnight. -/
structure Redrawable (offset : Int) (row : Fin 48 → Bool) : Prop where
  hours : 30 ∣ offset ∨ ∀ i j : Fin 48, i.val / 2 = j.val / 2 → row i = row j
  turned : turn offset = 0 ∨
    (∀ i j : Fin 48, j.val = (i.val + turn offset) % 48 → row i = row j) ∧
      ¬ (row 0 = true ∧ row 47 = true)

end DragWeekTime

end NextDBM
