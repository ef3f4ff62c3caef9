import WorkflowEngine.Number.Numeral

/-! # Timestamps

    Moments in universal time, kept as calendar dates and written after
    RFC 3339. Reading is lenient: single digits, a space for the `T`, white
    space around the parts and an offset are accepted, and the offset is
    taken off by moving at most one day.
-/

namespace WorkflowEngine

/-! ## Dates -/

/-- A date of the Gregorian calendar, extended to all years. -/
structure Date where
  /-- The year; zero is the year before the year one. -/
  year : Int
  /-- The month, from one. -/
  month : Nat
  /-- The day of the month, from one. -/
  day : Nat
  deriving DecidableEq, Repr

namespace Date

/-- Whether a year has a 29th of February. -/
def isLeap (year : Int) : Bool :=
  year % 4 = 0 && (year % 100 ≠ 0 || year % 400 = 0)

/-- The number of days of a month. -/
def daysIn (year : Int) (month : Nat) : Nat :=
  match month with
  | 2 => if isLeap year then 29 else 28
  | 4 | 6 | 9 | 11 => 30
  | _ => 31

/-- Whether month and day exist and the year is within the supported range. -/
def isValid (d : Date) : Bool :=
  -262143 ≤ d.year && d.year ≤ 262142 && 1 ≤ d.month && d.month ≤ 12 &&
    1 ≤ d.day && d.day ≤ daysIn d.year d.month

/-- The day after. -/
def next (d : Date) : Date :=
  if d.day < daysIn d.year d.month then ⟨d.year, d.month, d.day + 1⟩
  else if d.month < 12 then ⟨d.year, d.month + 1, 1⟩
  else ⟨d.year + 1, 1, 1⟩

/-- The day before. -/
def previous (d : Date) : Date :=
  if 1 < d.day then ⟨d.year, d.month, d.day - 1⟩
  else if 1 < d.month then ⟨d.year, d.month - 1, daysIn d.year (d.month - 1)⟩
  else ⟨d.year - 1, 12, 31⟩

end Date

/-! ## Timestamps -/

/-- A moment in universal time. -/
structure Timestamp where
  date : Date
  /-- The second of the day. -/
  second : Nat
  /-- The nanosecond; from `10 ^ 9` on it lies in a leap second. -/
  nanosecond : Nat
  deriving DecidableEq, Repr

namespace Timestamp

/-- Seconds in a day. -/
def daySeconds : Int := 86400

/-- The moment that shows the given date and time of day at an offset in seconds. -/
def ofLocal? (date : Date) (second nanosecond : Nat) (offset : Int) : Option Timestamp :=
  let second := second - offset
  let date' :=
    if second < 0 then date.previous
    else if second < daySeconds then date
    else date.next
  if date.isValid && -daySeconds < offset && offset < daySeconds && date'.isValid then
    some ⟨date', (second % daySeconds).toNat, nanosecond⟩
  else none

/-! ## Writing -/

/-- A number in at least the given number of digits. -/
def padded (width n : Nat) : String :=
  let digits := Nat.toDigits 10 n
  String.ofList (List.replicate (width - digits.length) '0' ++ digits)

/-- A year: four digits, with a sign outside of the years 0 to 9999. -/
def writeYear (year : Int) : String :=
  if year < 0 then "-" ++ padded 4 year.natAbs
  else if year ≤ 9999 then padded 4 year.natAbs
  else "+" ++ padded 4 year.natAbs

/-- A fraction of a second in three, six or nine digits, whichever shows it. -/
def writeFraction (nanosecond : Nat) : String :=
  if nanosecond = 0 then ""
  else if nanosecond % 1000000 = 0 then "." ++ padded 3 (nanosecond / 1000000)
  else if nanosecond % 1000 = 0 then "." ++ padded 6 (nanosecond / 1000)
  else "." ++ padded 9 nanosecond

/-- The text of a moment; a leap second is the second number 60. -/
def write (t : Timestamp) : String :=
  let leap := t.nanosecond / 1000000000
  writeYear t.date.year ++ "-" ++ padded 2 t.date.month ++ "-" ++ padded 2 t.date.day ++
    "T" ++ padded 2 (t.second / 3600) ++ ":" ++ padded 2 (t.second / 60 % 60) ++
    ":" ++ padded 2 (t.second % 60 + leap) ++ writeFraction (t.nanosecond % 1000000000) ++ "Z"

/-! ## Reading -/

/-- The characters that count as white space, among them the spaces beyond ASCII. -/
def isBlank (c : Char) : Bool :=
  let n := c.toNat
  (0x9 ≤ n && n ≤ 0xD) || n == 0x20 || n == 0x85 || n == 0xA0 || n == 0x1680 ||
    (0x2000 ≤ n && n ≤ 0x200A) || n == 0x2028 || n == 0x2029 || n == 0x202F ||
    n == 0x205F || n == 0x3000

/-- Drop white space from the front. -/
def trimStart (text : List Char) : List Char := text.dropWhile isBlank

/-- A number of at most `width` digits after white space, and the rest. -/
def takeNumber? (width : Nat) (text : List Char) : Option (Nat × List Char) :=
  let text := trimStart text
  match Numeral.takeDigits (text.take width) with
  | ([], _) => none
  | (digits, rest) => some (Numeral.value digits, rest ++ text.drop width)

/-- A year: up to four digits, or a sign and any number of digits. -/
def takeYear? (text : List Char) : Option (Int × List Char) :=
  match trimStart text with
  | '-' :: rest =>
    match Numeral.takeDigits rest with
    | ([], _) => none
    | (digits, rest) => some (-(Numeral.value digits : Int), rest)
  | '+' :: rest =>
    match Numeral.takeDigits rest with
    | ([], _) => none
    | (digits, rest) => some (Numeral.value digits, rest)
  | text => (takeNumber? 4 text).map fun (n, rest) => (n, rest)

/-- A separating character after white space. -/
def takeChar? (c : Char) (text : List Char) : Option (List Char) :=
  match trimStart text with
  | d :: rest => if d = c then some rest else none
  | [] => none

/-- The nanoseconds that the digits after a point write; digits beyond the ninth
    are passed over. -/
def takeNanoseconds? : List Char → Option (Nat × List Char)
  | '.' :: rest =>
    match Numeral.takeDigits rest with
    | ([], _) => none
    | (digits, rest) =>
      let digits := digits.take 9
      some (Numeral.value digits * Nat.pow 10 (9 - digits.length), rest)
  | rest => some (0, rest)

/-- Two digits of an offset. -/
def takePair? (limit : Nat) : List Char → Option (Nat × List Char)
  | a :: b :: rest => do
    let a ← Numeral.digit? a
    let b ← Numeral.digit? b
    if 10 * a + b < limit then some (10 * a + b, rest) else none
  | _ => none

/-- The offset that a sign starts, as hours and minutes. -/
def takeHoursAndMinutes? (sign : Int) (text : List Char) : Option (Int × List Char) := do
  let (hours, text) ← takePair? 100 text
  let (minutes, text) ← takePair? 60 (text.dropWhile fun c => c == ':' || isBlank c)
  return (sign * (hours * 3600 + minutes * 60 : Nat), text)

/-- An offset from universal time in seconds: `Z`, `UTC`, or a sign with hours
    and minutes. -/
def takeOffset? (text : List Char) : Option (Int × List Char) :=
  let text := trimStart text
  if (text.take 3).map Char.toUpper = ['U', 'T', 'C'] then some (0, text.drop 3)
  else
    match text with
    | c :: rest =>
      if c = 'Z' ∨ c = 'z' then some (0, rest)
      else if c = '+' then takeHoursAndMinutes? 1 rest
      else if c = '-' ∨ c = '\u2212' then takeHoursAndMinutes? (-1) rest
      else none
    | [] => none

/-- The character between date and time. -/
def takeMark? : List Char → Option (List Char)
  | c :: rest => if c = 'T' ∨ c = 't' ∨ c = ' ' then some rest else none
  | [] => none

/-- The moment that a text writes. -/
def ofText? (text : String) : Option Timestamp := do
  let (year, rest) ← takeYear? text.toList
  let rest ← takeChar? '-' rest
  let (month, rest) ← takeNumber? 2 rest
  let rest ← takeChar? '-' rest
  let (day, rest) ← takeNumber? 2 rest
  let rest ← takeMark? rest
  let (hour, rest) ← takeNumber? 2 rest
  let rest ← takeChar? ':' rest
  let (minute, rest) ← takeNumber? 2 rest
  let rest ← takeChar? ':' rest
  let (second, rest) ← takeNumber? 2 rest
  let (nanosecond, rest) ← takeNanoseconds? rest
  let (offset, rest) ← takeOffset? rest
  guard ((trimStart rest).isEmpty && hour < 24 && minute < 60 && second ≤ 60)
  -- Second number 60 is the last one of its minute, with a second's worth of nanoseconds more.
  let leap := second / 60
  ofLocal? ⟨year, month, day⟩ (hour * 3600 + minute * 60 + second - leap)
    (nanosecond + leap * 1000000000) offset

end Timestamp

end WorkflowEngine
