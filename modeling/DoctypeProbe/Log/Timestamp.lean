import DoctypeProbe.Bytes

/-!
# Timestamps

A timestamp is a moment shown through a format of its own: a percent sign and a letter stand
for a part of the date or the time, other text stands for itself. Names of days and months
are English, and the moment is given in universal time. A conversion that is not known is
shown as it is written, and a percent sign at the end is dropped. A digit after a percent
sign asks for a field of that width, and the two are shown at the right end of it.

Seconds are followed by milliseconds at the end of the timestamp, if they are asked for at
all.

## Main results

* `Timestamp.convert` — what a letter after a percent sign stands for.
* `Timestamp.text` — a moment in a format.
-/

namespace DoctypeProbe

namespace Log

/-- A moment of the calendar. -/
structure Moment where
  /-- The year. -/
  year : Nat
  /-- The month, from one. -/
  month : Nat
  /-- The day of the month, from one. -/
  day : Nat
  /-- The hour of the day. -/
  hour : Nat
  /-- The minute of the hour. -/
  minute : Nat
  /-- The second of the minute. -/
  second : Nat
  /-- The millisecond of the second. -/
  millisecond : Nat
deriving DecidableEq, Repr

namespace Moment

/-- The number of days from the first of March of year zero to the first day of a month,
where years begin in March. -/
def monthStart (year month : Nat) : Nat :=
  let year := if month < 3 then year - 1 else year
  let month := if month < 3 then month + 9 else month - 3
  365 * year + year / 4 - year / 100 + year / 400 + (153 * month + 2) / 5

/-- The number of days from the first of March of year zero. -/
def dayNumber (m : Moment) : Nat := monthStart m.year m.month + (m.day - 1)

/-- The day of the week, from Sunday. -/
def weekday (m : Moment) : Nat := (m.dayNumber + 3) % 7

/-- The day of the year, from zero. -/
def yearDay (m : Moment) : Nat := m.dayNumber - monthStart m.year 1

/-- The number of seconds since the first of January 1970. -/
def unixTime (m : Moment) : Nat :=
  (m.dayNumber - monthStart 1970 1) * 86400 + m.hour * 3600 + m.minute * 60 + m.second

/-- The day with a given number of days after the first of March of year zero: its year, its
month and its day of the month. -/
def ofDayNumber (n : Nat) : Nat × Nat × Nat :=
  let era := n / 146097
  let day := n % 146097
  let year := (day - day / 1460 + day / 36524 - day / 146096) / 365
  let dayOfYear := day - (365 * year + year / 4 - year / 100)
  let month := (5 * dayOfYear + 2) / 153
  let dayOfMonth := dayOfYear - (153 * month + 2) / 5 + 1
  let year := year + 400 * era
  if month < 10 then (year, month + 3, dayOfMonth) else (year + 1, month - 9, dayOfMonth)

/-- The moment a number of milliseconds after the beginning of the first of January 1970. -/
def ofUnixMilliseconds (t : Nat) : Moment :=
  let second := t / 1000
  let (year, month, day) := ofDayNumber (second / 86400 + monthStart 1970 1)
  { year, month, day
    hour := second / 3600 % 24
    minute := second / 60 % 60
    second := second % 60
    millisecond := t % 1000 }

/-- The hour on a dial of twelve. -/
def dialHour (m : Moment) : Nat := if m.hour % 12 = 0 then 12 else m.hour % 12

/-- The number of the week in the year, for weeks that begin `first` days after Sunday; the
days before the first such week are in week zero. -/
def week (m : Moment) (first : Nat) : Nat := (m.yearDay + 7 - (m.weekday + 7 - first) % 7) / 7

/-- Whether a year has a 29th of February. -/
def isLeap (year : Nat) : Bool := year % 4 == 0 && (year % 100 != 0 || year % 400 == 0)

/-- The number of days of a year. -/
def daysOf (year : Nat) : Nat := if isLeap year then 366 else 365

/-- The number of the week that holds a day, and the year that the week belongs to: weeks
begin on Monday and belong to the year that holds their Thursday. -/
def isoWeek (m : Moment) : Nat × Nat :=
  let fromMonday := (m.weekday + 6) % 7
  if m.yearDay + 3 < fromMonday then
    ((m.yearDay + daysOf (m.year - 1) + 3 - fromMonday) / 7 + 1, m.year - 1)
  else
    let thursday := m.yearDay + 3 - fromMonday
    if daysOf m.year ≤ thursday then (1, m.year + 1) else (thursday / 7 + 1, m.year)

end Moment

namespace Timestamp

/-- The names of the days from Sunday. -/
def dayNames : List Bytes :=
  [ascii "Sunday", ascii "Monday", ascii "Tuesday", ascii "Wednesday", ascii "Thursday",
    ascii "Friday", ascii "Saturday"]

/-- The names of the months. -/
def monthNames : List Bytes :=
  [ascii "January", ascii "February", ascii "March", ascii "April", ascii "May", ascii "June",
    ascii "July", ascii "August", ascii "September", ascii "October", ascii "November",
    ascii "December"]

/-- A number with at least two digits. -/
def two (n : Nat) : Bytes := Bytes.zeroPadded 2 n

/-- A number with at least two digits, of which the first may be a space. -/
def spaced (n : Nat) : Bytes := if n < 10 then Ascii.space :: Bytes.decimal n else Bytes.decimal n

/-- Hours, minutes and seconds. -/
def clock (m : Moment) : Bytes :=
  two m.hour ++ ascii ":" ++ two m.minute ++ ascii ":" ++ two m.second

/-- Month, day and the last two digits of the year. -/
def shortDate (m : Moment) : Bytes :=
  two m.month ++ ascii "/" ++ two m.day ++ ascii "/" ++ two (m.year % 100)

/-- The half of the day. -/
def half (m : Moment) : Bytes := if m.hour < 12 then ascii "AM" else ascii "PM"

/-- The name of the day. -/
def dayName (m : Moment) : Bytes := dayNames[m.weekday]?.getD []

/-- The name of the month. -/
def monthName (m : Moment) : Bytes := monthNames[m.month - 1]?.getD []

/-- What a letter after a percent sign stands for, if it is known. -/
def convert (m : Moment) (letter : Char) : Option Bytes :=
  match letter with
  | '%' => some (ascii "%")
  | 'n' => some (ascii "\n")
  | 't' => some (ascii "\t")
  | 'Y' => some (Bytes.decimal m.year)
  | 'C' => some (two (m.year / 100))
  | 'y' => some (two (m.year % 100))
  | 'm' => some (two m.month)
  | 'd' => some (two m.day)
  | 'e' => some (spaced m.day)
  | 'j' => some (Bytes.zeroPadded 3 (m.yearDay + 1))
  | 'H' => some (two m.hour)
  | 'k' => some (spaced m.hour)
  | 'I' => some (two m.dialHour)
  | 'l' => some (spaced m.dialHour)
  | 'M' => some (two m.minute)
  | 'S' => some (two m.second)
  | 's' => some (Bytes.decimal m.unixTime)
  | 'u' => some (Bytes.decimal ((m.weekday + 6) % 7 + 1))
  | 'w' => some (Bytes.decimal m.weekday)
  | 'U' => some (two (m.week 0))
  | 'W' => some (two (m.week 1))
  | 'V' => some (two m.isoWeek.1)
  | 'G' => some (Bytes.decimal m.isoWeek.2)
  | 'g' => some (two (m.isoWeek.2 % 100))
  | 'a' => some ((dayName m).take 3)
  | 'A' => some (dayName m)
  | 'b' | 'h' => some ((monthName m).take 3)
  | 'B' => some (monthName m)
  | 'p' => some (half m)
  | 'P' => some (half m).lower
  | 'D' | 'x' => some (shortDate m)
  | 'F' => some (Bytes.decimal m.year ++ ascii "-" ++ two m.month ++ ascii "-" ++ two m.day)
  | 'T' | 'X' => some (clock m)
  | 'R' => some (two m.hour ++ ascii ":" ++ two m.minute)
  | 'r' =>
    some (two m.dialHour ++ ascii ":" ++ two m.minute ++ ascii ":" ++ two m.second ++
      ascii " " ++ half m)
  | 'c' =>
    some ((dayName m).take 3 ++ ascii " " ++ (monthName m).take 3 ++ ascii " " ++
      spaced m.day ++ ascii " " ++ clock m ++ ascii " " ++ Bytes.decimal m.year)
  | 'z' => some (ascii "+0000")
  | 'Z' => some (ascii "UTC")
  | _ => none

/-- The letters that may stand after a modifier: `E` asks for another calendar, `O` for other
digits, and neither makes a difference here. A percent sign may follow either. -/
def modified (modifier letter : Byte) : Bool :=
  if modifier = 0x45 then (ascii "%cCxXyYntpPTRrsuzZ").any (· == letter)
  else (ascii "%bBCdegGhHIjklmMntpPTRrsSuUVwWyzZ").any (· == letter)

/-- What is shown for a byte after a percent sign that stands for nothing: both as they are
written, and if the byte is a digit, at the right end of a field of that width. -/
def unknown (b : Byte) : Bytes :=
  let shown := [Ascii.percent, b]
  if Ascii.isDigit b then
    List.replicate (Ascii.digitValue b - shown.length) Ascii.space ++ shown
  else shown

/-- A moment in a format. -/
def conversion (m : Moment) : Bytes → Bytes
  | [] => []
  | [b] => if b = Ascii.percent then [] else [b]
  | b :: c :: s =>
    if b = Ascii.percent then
      if c = 0x45 || c = 0x4F then
        match s with
        | [] => []
        | d :: s =>
          let shown := if modified c d then convert m (Char.ofUInt8 d) else none
          shown.getD [b, c, d] ++ conversion m s
      else (convert m (Char.ofUInt8 c)).getD (unknown c) ++ conversion m s
    else b :: conversion m (c :: s)

/-- The timestamp of a moment: the moment in a format, read up to its first NUL byte, and the
milliseconds if the format asks for seconds. -/
def text (format : Bytes) (m : Moment) : Bytes :=
  conversion m format.untilNul ++
    (if format.contains (ascii "%S") then Ascii.dot :: Bytes.zeroPadded 3 m.millisecond else [])

end Timestamp

end Log

end DoctypeProbe
