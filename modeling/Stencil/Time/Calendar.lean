import Stencil.Value.Basic

/-!
# The calendar

Instants are counted in seconds. The Gregorian calendar, extended to all years,
gives them dates; it repeats every 400 years. Seconds are kept in 64 bits, and a
count that leaves the range starts again at its other end.
-/

namespace Stencil

/-- The year from which days are counted. It starts a period of 400 years and precedes
every year that can be represented. -/
def zeroYear : Int := -292277022399

/-- The seconds from the start of `zeroYear` to the start of 1970. -/
def zeroToUnix : Int := 9223372028715321600

/-- The seconds from the start of year 1 to the start of 1970. -/
def yearOneToUnix : Int := 62135596800

/-- A date: the year, the month from 1, the day from 1, and the day of the year from 0. -/
structure CalendarDate where
  year : Int
  month : Nat
  day : Nat
  yearDay : Nat
  deriving DecidableEq, Repr, Inhabited

/-- Whether a year has 366 days. -/
def isLeap (year : Int) : Bool := year % 4 = 0 && (year % 100 ≠ 0 || year % 400 = 0)

/-- The days before each month of a year that is not a leap year. -/
def daysBefore : List Nat := [0, 31, 59, 90, 120, 151, 181, 212, 243, 273, 304, 334, 365]

/-- The days of a year before a month. -/
def daysBeforeMonth (year : Int) (month : Nat) : Nat :=
  daysBefore.getD (month - 1) 0 + if isLeap year && 2 < month then 1 else 0

/-- The number of days of a month. -/
def daysIn (year : Int) (month : Nat) : Nat :=
  if month = 2 && isLeap year then 29
  else daysBefore.getD month 0 - daysBefore.getD (month - 1) 0

/-- The month of a day of the year, counted from 0. -/
def monthOf (year : Int) (yearDay : Nat) : Nat :=
  ((List.range 12).filter fun m => daysBeforeMonth year (m + 1) ≤ yearDay).length

/-- The date of a day counted from the start of `zeroYear`. -/
def dateOfDay (days : Nat) : CalendarDate :=
  let n400 := days / 146097
  let d := days % 146097
  -- the last century and the last year of a period are a day longer
  let n100 := min (d / 36524) 3
  let d := d - 36524 * n100
  let n4 := d / 1461
  let d := d % 1461
  let n1 := min (d / 365) 3
  let d := d - 365 * n1
  let year : Int := zeroYear + (400 * n400 + 100 * n100 + 4 * n4 + n1 : Nat)
  let month := monthOf year d
  ⟨year, month, d - daysBeforeMonth year month + 1, d⟩

/-- The day on which a year starts, counted from the start of `zeroYear`. -/
def dayOfYear (year : Int) : Int :=
  let y := year - zeroYear
  365 * y + y.fdiv 4 - y.fdiv 100 + y.fdiv 400

/-- The value of a count of seconds kept in 64 bits. -/
def wrap64 (n : Int) : Int := n.bmod (Nat.pow 2 64)

namespace Moment

/-- Seconds since the start of `zeroYear`, by the clock of the zone. -/
def absolute (t : Moment) : Nat := ((t.sec + t.zone.offset + zeroToUnix) % Nat.pow 2 64).toNat

/-- The date by the calendar of the zone. -/
def date (t : Moment) : CalendarDate := dateOfDay (t.absolute / 86400)

/-- Hour, minute and second. -/
def clock (t : Moment) : Nat × Nat × Nat :=
  let s := t.absolute % 86400
  (s / 3600, s % 3600 / 60, s % 60)

/-- The day of the week, Sunday being 0. -/
def weekday (t : Moment) : Nat := (t.absolute / 86400 + 1) % 7

/-- The year and the number of the week: the first week holds the first Thursday. -/
def isoWeek (t : Moment) : Int × Nat :=
  let thursday := t.absolute / 86400 + 4 - (if t.weekday = 0 then 7 else t.weekday)
  let d := dateOfDay thursday
  (d.year, d.yearDay / 7 + 1)

/-- The instant of a date and a time of day in a zone. Parts outside their usual range
carry over. -/
def ofParts (year month day hour min sec nsec : Int) (zone : Zone) : Moment :=
  let m := month - 1
  let year := year + m.fdiv 12
  let month := (m.fmod 12).toNat + 1
  let sec := sec + nsec.fdiv 1000000000
  let nsec := (nsec.fmod 1000000000).toNat
  let days := dayOfYear year + daysBeforeMonth year month + (day - 1)
  let abs := days * 86400 + hour * 3600 + min * 60 + sec
  ⟨wrap64 (abs - zeroToUnix - zone.offset), nsec, zone⟩

/-- The instant a number of nanoseconds later. -/
def add (t : Moment) (d : Int) : Moment :=
  let n := (t.nsec : Int) + d
  { t with sec := wrap64 (t.sec + n.fdiv 1000000000), nsec := (n.fmod 1000000000).toNat }

/-- Nanoseconds since the start of year 1. -/
def nanos (t : Moment) : Int := wrap64 (t.sec + yearOneToUnix) * 1000000000 + t.nsec

/-- Whether one instant is earlier than another. -/
def isBefore (t u : Moment) : Bool := t.nanos < u.nanos

/-- Whether two instants are the same, whatever their zones. -/
def isSame (t u : Moment) : Bool := t.nanos = u.nanos

/-- The nanoseconds between two instants, limited to 64 bits. -/
def sub (t u : Moment) : Int :=
  let d := wrap64 (wrap64 (t.sec - u.sec) * 1000000000 + ((t.nsec : Int) - u.nsec))
  if (u.add d).isSame t then d
  else if t.isBefore u then -(Nat.pow 2 63) else Nat.pow 2 63 - 1

/-- The latest multiple of a positive duration that is not later. -/
def truncate (t : Moment) (d : Int) : Moment :=
  if d ≤ 0 then t else t.add (-(t.nanos.fmod d))

/-- The nearest multiple of a positive duration; a half goes up. -/
def round (t : Moment) (d : Int) : Moment :=
  if d ≤ 0 then t else
    let r := t.nanos.fmod d
    if r + r < d then t.add (-r) else t.add (d - r)

/-- The instant some years, months and days later by the calendar. -/
def addDate (t : Moment) (years months days : Int) : Moment :=
  let d := t.date
  let (h, m, s) := t.clock
  ofParts (d.year + years) (d.month + months) (d.day + days) h m s t.nsec t.zone

end Moment

/-- The English names of the months. -/
def monthNames : List String :=
  ["January", "February", "March", "April", "May", "June", "July", "August", "September",
   "October", "November", "December"]

/-- The English names of the days of the week. -/
def dayNames : List String :=
  ["Sunday", "Monday", "Tuesday", "Wednesday", "Thursday", "Friday", "Saturday"]

/-- A zone with a fixed offset. Unnamed zones of whole hours are the same wherever they
are made; any other is distinguished by its stamp. -/
def Zone.fixed (name : Bytes) (offset : Int) (stamp : Nat) : Zone :=
  let hour := offset.tdiv 3600
  if name.isEmpty && -12 ≤ hour && hour ≤ 14 && hour * 3600 = offset then ⟨name, offset, false, 0⟩
  else ⟨name, offset, false, stamp⟩

/-!
## Layouts

A layout shows how an example instant is written: the second of January 2006,
15:04:05, in a zone seven hours west. Parts of the example stand for parts of the
instant; everything else stands for itself.
-/

/-- How the offset of a zone is written. -/
structure OffsetStyle where
  /-- Whether an offset of zero is written `Z`. -/
  zulu : Bool
  colons : Bool
  minutes : Bool
  seconds : Bool
  deriving DecidableEq, Repr, Inhabited

/-- A part of a layout that stands for a part of an instant. -/
inductive LayoutPart where
  | longMonth | month | numMonth | zeroMonth
  | longWeekday | weekday
  | day | underDay | zeroDay | underYearDay | zeroYearDay
  | hour | hour12 | zeroHour12
  | minute | zeroMinute | second | zeroSecond
  | longYear | year
  | upperHalf | lowerHalf
  | zoneName
  | offset (style : OffsetStyle)
  /-- A fraction of a second: its digits, the mark before it, and whether trailing
  zeros are dropped. -/
  | fraction (digits : Nat) (mark : UInt8) (trim : Bool)
  deriving DecidableEq, Repr, Inhabited

/-- Whether a byte is a decimal digit. -/
def isDigitByte (b : UInt8) : Bool := 48 ≤ b && b ≤ 57

/-- Whether a text starts with a digit. -/
def startsWithDigit : Bytes → Bool
  | b :: _ => isDigitByte b
  | [] => false

/-- Whether a text starts with a lower-case letter. -/
def startsWithLower : Bytes → Bool
  | b :: _ => 97 ≤ b && b ≤ 122
  | [] => false

/-- The parts that are recognised by their spelling alone, longer ones first. -/
def fixedParts : List (String × LayoutPart) :=
  [("January", .longMonth), ("Monday", .longWeekday), ("MST", .zoneName),
   ("01", .zeroMonth), ("02", .zeroDay), ("03", .zeroHour12), ("04", .zeroMinute),
   ("05", .zeroSecond), ("06", .year), ("002", .zeroYearDay),
   ("15", .hour), ("1", .numMonth), ("2006", .longYear), ("2", .day),
   ("_2", .underDay), ("__2", .underYearDay), ("3", .hour12), ("4", .minute), ("5", .second),
   ("PM", .upperHalf), ("pm", .lowerHalf),
   ("-070000", .offset ⟨false, false, true, true⟩), ("-07:00:00", .offset ⟨false, true, true, true⟩),
   ("-0700", .offset ⟨false, false, true, false⟩), ("-07:00", .offset ⟨false, true, true, false⟩),
   ("-07", .offset ⟨false, false, false, false⟩),
   ("Z070000", .offset ⟨true, false, true, true⟩), ("Z07:00:00", .offset ⟨true, true, true, true⟩),
   ("Z0700", .offset ⟨true, false, true, false⟩), ("Z07:00", .offset ⟨true, true, true, false⟩),
   ("Z07", .offset ⟨true, false, false, false⟩)]

/-- A part that starts the layout, and what follows it. An abbreviated name must not run
on in lower case, the digits of a fraction must not run on in other digits, and an
underscore before a year stands for itself. -/
def leadingPart? (layout : Bytes) : Option (LayoutPart × Bytes) :=
  let abbreviated (name : String) (part : LayoutPart) : Option (LayoutPart × Bytes) := do
    let rest ← Bytes.dropLeading? name layout
    if startsWithLower rest then none else some (part, rest)
  let fraction : Option (LayoutPart × Bytes) :=
    match layout with
    | mark :: d :: rest =>
      if (mark = 46 || mark = 44) && (d = 48 || d = 57) then
        let run := rest.takeWhile (· = d)
        let after := rest.dropWhile (· = d)
        if startsWithDigit after then none else some (.fraction (run.length + 1) mark (d = 57), after)
      else none
    | _ => none
  if layout.startsWith "_2006" then none else
    (fixedParts.findSome? fun (s, p) => (Bytes.dropLeading? s layout).map fun r => (p, r)) <|>
      abbreviated "Jan" .month <|> abbreviated "Mon" .weekday <|> fraction

/-- The text before the first part of a layout, the part as it is spelled, the part, and
what follows; or the whole layout if it has no parts. -/
def nextPart : Bytes → Bytes × Option (Bytes × LayoutPart × Bytes)
  | [] => ([], none)
  | b :: rest =>
    match leadingPart? (b :: rest) with
    | some (p, after) => ([], some ((b :: rest).take (rest.length + 1 - after.length), p, after))
    | none =>
      let (front, found) := nextPart rest
      (b :: front, found)

/-- Decimal digits, at least `width` of them. -/
def paddedInt (width : Nat) (n : Int) : Bytes :=
  let ds := Bytes.ofNat n.natAbs
  (if n < 0 then [45] else []) ++ List.replicate (width - ds.length) 48 ++ ds

/-- The offset of a zone in seconds. -/
def OffsetStyle.text (st : OffsetStyle) (offset : Int) : Bytes :=
  if st.zulu && offset = 0 then "Z" else
    let minutes := offset.natAbs / 60
    let colon : Bytes := if st.colons then ":" else []
    (if offset.tdiv 60 < 0 then "-" else "+" : Bytes) ++ paddedInt 2 (minutes / 60 : Nat) ++
      (if st.minutes then colon ++ paddedInt 2 (minutes % 60 : Nat) else []) ++
      (if st.seconds then colon ++ paddedInt 2 (offset.natAbs % 60 : Nat) else [])

/-- A fraction of a second. -/
def fractionText (nsec digits : Nat) (mark : UInt8) (trim : Bool) : Bytes :=
  if trim && (digits = 0 || nsec = 0) then [] else
    let ds := (paddedInt 9 nsec).take digits
    let ds := if trim then (ds.reverse.dropWhile (· = 48)).reverse else ds
    if trim && ds.isEmpty then [] else mark :: ds

/-- What a part of a layout stands for at an instant. -/
def LayoutPart.text (t : Moment) : LayoutPart → Bytes
  | .longMonth => monthNames.getD (t.date.month - 1) ""
  | .month => (Bytes.ofString (monthNames.getD (t.date.month - 1) "")).take 3
  | .numMonth => paddedInt 0 t.date.month
  | .zeroMonth => paddedInt 2 t.date.month
  | .longWeekday => dayNames.getD t.weekday ""
  | .weekday => (Bytes.ofString (dayNames.getD t.weekday "")).take 3
  | .day => paddedInt 0 t.date.day
  | .underDay => (if t.date.day < 10 then [32] else []) ++ paddedInt 0 t.date.day
  | .zeroDay => paddedInt 2 t.date.day
  | .underYearDay =>
    let n := Bytes.ofNat (t.date.yearDay + 1)
    List.replicate (3 - n.length) 32 ++ n
  | .zeroYearDay => paddedInt 3 (t.date.yearDay + 1 : Nat)
  | .hour => paddedInt 2 t.clock.1
  | .hour12 => paddedInt 0 ((t.clock.1 + 11) % 12 + 1 : Nat)
  | .zeroHour12 => paddedInt 2 ((t.clock.1 + 11) % 12 + 1 : Nat)
  | .minute => paddedInt 0 t.clock.2.1
  | .zeroMinute => paddedInt 2 t.clock.2.1
  | .second => paddedInt 0 t.clock.2.2
  | .zeroSecond => paddedInt 2 t.clock.2.2
  | .longYear => paddedInt 4 t.date.year
  | .year => paddedInt 2 (max t.date.year 0 % 100)
  | .upperHalf => if 12 ≤ t.clock.1 then "PM" else "AM"
  | .lowerHalf => if 12 ≤ t.clock.1 then "pm" else "am"
  | .zoneName =>
    if t.zone.name.isEmpty then OffsetStyle.text ⟨false, false, true, false⟩ t.zone.offset
    else t.zone.name
  | .offset style => style.text t.zone.offset
  | .fraction digits mark trim => fractionText t.nsec digits mark trim

/-- Write an instant by a layout of at most `fuel` parts. -/
def formatAux (t : Moment) : Nat → Bytes → Bytes
  | 0, _ => []
  | fuel + 1, layout =>
    match nextPart layout with
    | (front, none) => front
    | (front, some (_, part, rest)) => front ++ part.text t ++ formatAux t fuel rest

/-- Write an instant by a layout. -/
def Moment.format (t : Moment) (layout : Bytes) : Bytes := formatAux t (layout.length + 1) layout

/-- The usual written form of an instant. -/
def Moment.text (t : Moment) : Bytes := t.format "2006-01-02 15:04:05.999999999 -0700 MST"

/-- The layout of internet timestamps. -/
def internetLayout : Bytes := "2006-01-02T15:04:05Z07:00"

end Stencil
