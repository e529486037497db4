namespace LuaPages.Lua

/-- A date and time of day. Months and days count from one, weekdays from Sunday as zero. -/
structure Moment where
  year : Int
  month : Nat
  day : Nat
  hour : Nat
  minute : Nat
  second : Nat
  weekday : Nat
  yearDay : Nat

namespace Moment

/-- The number of a day, from the start of 1970. Years are counted from March, so that a leap day is
the last of its year. -/
def dayNumber (year : Int) (month : Int) (day : Int) : Int :=
  let y := if month ≤ 2 then year - 1 else year
  let era := y.fdiv 400
  let yoe := y - era * 400
  let mp := (month + 9).fmod 12
  let doy := (153 * mp + 2) / 5 + day - 1
  let doe := yoe * 365 + yoe / 4 - yoe / 100 + doy
  era * 146097 + doe - 719468

def ofSeconds (t : Int) : Moment :=
  let days := t.fdiv 86400
  let rest := (t.fmod 86400).toNat
  let z := days + 719468
  let era := z.fdiv 146097
  let doe := z - era * 146097
  let yoe := (doe - doe / 1460 + doe / 36524 - doe / 146096) / 365
  let doy := doe - (365 * yoe + yoe / 4 - yoe / 100)
  let mp := (5 * doy + 2) / 153
  let day := (doy - (153 * mp + 2) / 5 + 1).toNat
  let month := (if mp < 10 then mp + 3 else mp - 9).toNat
  let year := yoe + era * 400 + (if month ≤ 2 then 1 else 0)
  { year := year, month := month, day := day
    hour := rest / 3600, minute := rest / 60 % 60, second := rest % 60
    weekday := ((days + 4).fmod 7).toNat
    yearDay := (days - dayNumber year 1 1).toNat + 1 }

def seconds (year month day hour minute second : Int) : Int :=
  let y := year + (month - 1).fdiv 12
  let m := (month - 1).fmod 12 + 1
  ((dayNumber y m 1 + (day - 1)) * 24 + hour) * 3600 + minute * 60 + second

def weekdayNames : List String :=
  ["Sunday", "Monday", "Tuesday", "Wednesday", "Thursday", "Friday", "Saturday"]

def monthNames : List String :=
  ["January", "February", "March", "April", "May", "June", "July", "August", "September", "October",
   "November", "December"]

def padded (fill : Char) (width : Nat) (n : Int) : String :=
  let s := toString n
  String.ofList (List.replicate (width - s.length) fill) ++ s

def two (n : Nat) : String := padded '0' 2 n

def week (m : Moment) (first : Nat) : Nat := (m.yearDay - 1 + 7 - (m.weekday + 7 - first) % 7) / 7

/-- The year and week in which weeks start on Monday and belong to the year of their Thursday. -/
def isoWeek (m : Moment) : Int × Nat :=
  let thursday := ofSeconds
    ((dayNumber m.year m.month m.day - ((m.weekday + 6) % 7 : Nat) + 3) * 86400)
  (thursday.year, (thursday.yearDay - 1) / 7 + 1)

def conversion? (m : Moment) (c : Char) : Option String :=
  let weekdayName := weekdayNames.getD m.weekday ""
  let monthName := monthNames.getD (m.month - 1) ""
  let brief (s : String) : String := String.ofList (s.toList.take 3)
  let twelve := if m.hour % 12 = 0 then 12 else m.hour % 12
  let time := two m.hour ++ ":" ++ two m.minute ++ ":" ++ two m.second
  let half := if m.hour < 12 then "AM" else "PM"
  let shortYear := two (m.year.fmod 100).toNat
  let date := two m.month ++ "/" ++ two m.day ++ "/" ++ shortYear
  match c with
  | 'a' => some (brief weekdayName)
  | 'A' => some weekdayName
  | 'b' | 'h' => some (brief monthName)
  | 'B' => some monthName
  | 'c' => some (brief weekdayName ++ " " ++ brief monthName ++ " " ++ padded ' ' 2 m.day ++ " " ++
      time ++ " " ++ toString m.year)
  | 'C' => some (two (m.year.fdiv 100).toNat)
  | 'd' => some (two m.day)
  | 'D' | 'x' => some date
  | 'e' => some (padded ' ' 2 m.day)
  | 'F' => some (toString m.year ++ "-" ++ two m.month ++ "-" ++ two m.day)
  | 'g' => some (two (m.isoWeek.1.fmod 100).toNat)
  | 'G' => some (toString m.isoWeek.1)
  | 'H' => some (two m.hour)
  | 'I' => some (two twelve)
  | 'j' => some (padded '0' 3 m.yearDay)
  | 'm' => some (two m.month)
  | 'M' => some (two m.minute)
  | 'n' => some "\n"
  | 'p' => some half
  | 'r' => some (two twelve ++ ":" ++ two m.minute ++ ":" ++ two m.second ++ " " ++ half)
  | 'R' => some (two m.hour ++ ":" ++ two m.minute)
  | 'S' => some (two m.second)
  | 't' => some "\t"
  | 'T' | 'X' => some time
  | 'u' => some (toString (if m.weekday = 0 then 7 else m.weekday))
  | 'U' => some (two (m.week 0))
  | 'V' => some (two m.isoWeek.2)
  | 'w' => some (toString m.weekday)
  | 'W' => some (two (m.week 1))
  | 'y' => some shortYear
  | 'Y' => some (toString m.year)
  | 'z' => some "+0000"
  | 'Z' => some "GMT"
  | '%' => some "%"
  | _ => none

end Moment

end LuaPages.Lua
