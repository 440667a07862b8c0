import PipelineShell.World

/-! The calendar: where a day stands in its week and its year. -/

namespace PipelineShell.Moment

def isLeap (year : Int) : Bool :=
  year % 4 == 0 && (year % 100 != 0 || year % 400 == 0)

def yearLength (year : Int) : Int :=
  if isLeap year then 366 else 365

def daysBefore : List Int := [0, 31, 59, 90, 120, 151, 181, 212, 243, 273, 304, 334]

def yearDay (m : Moment) : Int :=
  daysBefore.getD (m.month - 1) 0 + m.day - 1 + if 2 < m.month && isLeap m.year then 1 else 0

def dayNumber (m : Moment) : Int :=
  let y : Int := m.year - 1
  365 * y + y / 4 - y / 100 + y / 400 + m.yearDay

def weekday (m : Moment) : Int :=
  (m.dayNumber + 1) % 7

def epoch (m : Moment) : Int :=
  (m.dayNumber - 719162) * 86400 + m.hour * 3600 + m.minute * 60 + m.second

def dialHour (m : Moment) : Int :=
  if m.hour % 12 = 0 then 12 else (m.hour % 12 : Nat)

def sundayWeek (m : Moment) : Int :=
  (m.yearDay - m.weekday + 7) / 7

def mondayWeek (m : Moment) : Int :=
  (m.yearDay - (m.weekday + 6) % 7 + 7) / 7

/-- The days from the Monday of the first week of a year to a day of it. The first week is the one
with four days in the year. -/
def sinceFirstMonday (yearDay weekday : Int) : Int :=
  yearDay - (yearDay - weekday + 382) % 7 + 3

/-- The year that a week is counted in, and its number there. -/
def isoWeek (m : Moment) : Int × Int :=
  let year : Int := m.year
  let days := sinceFirstMonday m.yearDay m.weekday
  if days < 0 then
    (year - 1, sinceFirstMonday (m.yearDay + yearLength (year - 1)) m.weekday / 7 + 1)
  else
    let later := sinceFirstMonday (m.yearDay - yearLength year) m.weekday
    if 0 ≤ later then (year + 1, later / 7 + 1) else (year, days / 7 + 1)

end PipelineShell.Moment
