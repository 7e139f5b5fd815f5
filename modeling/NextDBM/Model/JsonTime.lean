import NextDBM.Library.TimeText

/-!
# Times in JSON

`MarshalJSON` writes a time in its own zone and without the zone; `UnmarshalJSON` reads the text with
`time.Parse`, which takes it for a time in UTC. Seconds are unbounded here.
-/

namespace NextDBM

open Calendar TimeText

/-- A time zone: the seconds east of UTC at each second of Unix time. -/
structure Location where
  offset : Int → Int

def Location.utc : Location := ⟨fun _ => 0⟩

/-- An instant, in seconds of Unix time and nanoseconds, with the zone it is shown in. -/
structure Time where
  unix : Int
  nsec : Nanoseconds
  loc : Location

/-- The seconds from the beginning of the calendar to that of Unix time. -/
def unixToInternal : Int := 62135596800

structure JsonTime where
  time : Time

namespace JsonTime

/-- The date and time of day in the zone of the time. -/
def shown (j : JsonTime) : DateTime :=
  DateTime.ofSeconds (j.time.unix + j.time.loc.offset j.time.unix + unixToInternal)

def marshalJSON (j : JsonTime) : List Char := '"' :: format j.shown ++ ['"']

/-- The receiver is replaced when there is no error. -/
def unmarshalJSON (b : List Char) : Except ParseError JsonTime := do
  let s := b.filter (· != '"')
  let (t, nsec) ← parse s
  .ok { time := { unix := t.toSeconds - unixToInternal, nsec, loc := .utc } }

/-- The year of the instant in UTC. -/
def utcYear (j : JsonTime) : Int := (DateTime.ofSeconds (j.time.unix + unixToInternal)).date.year

/-- The same instant as another time cut to whole seconds. -/
def SameSecond (j j' : JsonTime) : Prop := j'.time.unix = j.time.unix ∧ j'.time.nsec = noNanoseconds

def ReadsBack (j : JsonTime) : Prop := ∃ j', unmarshalJSON j.marshalJSON = .ok j' ∧ SameSecond j j'

end JsonTime

end NextDBM
