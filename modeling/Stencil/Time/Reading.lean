import Stencil.Time.Calendar

/-!
# Reading instants

An instant is read from a text by a layout. Parts that the layout does not show
have their least value. A zone is given by its offset or by its name; names other
than UTC say nothing about the offset, unless they are GMT with a number of hours.
-/

namespace Stencil

/-- Bytes outside printable ASCII are written in hexadecimal. -/
def quotePlain (s : Bytes) : Bytes :=
  [34] ++ s.flatMap (fun b =>
    if b < 32 || 128 ≤ b then Bytes.ofString "\\x" ++ hexNat 2 b.toNat
    else if b = 34 || b = 92 then [92, b] else [b]) ++ [34]

/-- Why a text is not an instant. -/
inductive MomentError where
  /-- A part of the text does not fit the layout. -/
  | mismatch (part text : Bytes)
  /-- The text fits, but names no instant. -/
  | other (what : Bytes)
  deriving DecidableEq, Repr

/-- The wording of a failure to read `text` by `layout`. -/
def MomentError.message (layout text : Bytes) : MomentError → Bytes
  | .mismatch part rest =>
    Bytes.ofString "parsing time " ++ quotePlain text ++ " as " ++ quotePlain layout ++
      ": cannot parse " ++ quotePlain rest ++ " as " ++ quotePlain part
  | .other what => Bytes.ofString "parsing time " ++ quotePlain text ++ what

/-- What has been read of an instant. -/
structure MomentParts where
  year : Int := 0
  month : Option Nat := none
  day : Option Nat := none
  yearDay : Option Nat := none
  hour : Nat := 0
  minute : Nat := 0
  second : Nat := 0
  nsec : Nat := 0
  morning : Bool := false
  afternoon : Bool := false
  utc : Bool := false
  offset : Option Int := none
  zoneName : Bytes := []
  deriving Repr, Inhabited

/-- The value of a digit. -/
def digitValue (b : UInt8) : Nat := b.toNat - 48

/-- The value of a run of digits. -/
def digitsValue (ds : Bytes) : Nat := ds.foldl (fun n d => n * 10 + digitValue d) 0

/-- One or two digits; exactly two if `fixed`. -/
def twoDigits? (fixed : Bool) : Bytes → Option (Nat × Bytes)
  | a :: b :: rest =>
    if !isDigitByte a then none
    else if isDigitByte b then some (digitsValue [a, b], rest)
    else if fixed then none else some (digitValue a, b :: rest)
  | [a] => if isDigitByte a && !fixed then some (digitValue a, []) else none
  | [] => none

/-- One to three digits; exactly three if `fixed`. -/
def threeDigits? (fixed : Bool) (s : Bytes) : Option (Nat × Bytes) :=
  let ds := (s.take 3).takeWhile isDigitByte
  if ds.isEmpty || (fixed && ds.length ≠ 3) then none
  else some (digitsValue ds, s.drop ds.length)

/-- Skip the text between two parts. A blank stands for any number of blanks; on a
mismatch, what is left of the text. -/
def skipText : (fuel : Nat) → (front text : Bytes) → Except Bytes Bytes
  | 0, _, text => .ok text
  | _ + 1, [], text => .ok text
  | fuel + 1, 32 :: front, text =>
    match text with
    | c :: _ =>
      if c ≠ 32 then .error text
      else skipText fuel (front.dropWhile (· = 32)) (text.dropWhile (· = 32))
    | [] => skipText fuel (front.dropWhile (· = 32)) []
  | _ + 1, _ :: _, [] => .error []
  | fuel + 1, b :: front, c :: text =>
    if b = c then skipText fuel front text else .error (c :: text)

/-- A name at the start of a text, in any case. -/
def leadingName? (names : List Bytes) (s : Bytes) : Option (Nat × Bytes) :=
  let lower (b : UInt8) : UInt8 := if 65 ≤ b && b ≤ 90 then b + 32 else b
  (names.zipIdx).findSome? fun (n, i) =>
    if (s.take n.length).map lower = n.map lower then some (i, s.drop n.length) else none

/-- A fraction of a second that follows its mark, in nanoseconds. Digits beyond the
ninth are ignored. -/
def readFraction? (s : Bytes) : Option Nat :=
  match s with
  | mark :: ds =>
    let ds := ds.take 9
    if (mark = 46 || mark = 44) && ds.all isDigitByte then
      some (digitsValue ds * Nat.pow 10 (9 - ds.length))
    else none
  | [] => none

/-- The length of a sign and a number of hours below 24. -/
def signedHours : Bytes → Nat
  | sign :: rest =>
    if sign ≠ 43 && sign ≠ 45 then 0 else
      let ds := rest.takeWhile isDigitByte
      if ds.isEmpty || 23 < digitsValue ds then 0 else ds.length + 1
  | [] => 0

/-- The length of the name of a zone at the start of a text. -/
def zoneNameLength? (s : Bytes) : Option Nat :=
  if s.length < 3 then none
  else if s.startsWith "ChST" || s.startsWith "MeST" then some 4
  else if s.startsWith "GMT" then some (3 + signedHours (s.drop 3))
  else if s.startsWith "+" || s.startsWith "-" then
    let n := signedHours s
    if 0 < n then some n else none
  else
    match ((s.take 6).takeWhile fun b => 65 ≤ b && b ≤ 90).length with
    | 3 => some 3
    | 4 => if s.getD 3 0 = 84 || s.startsWith "WITA" then some 4 else none
    | 5 => if s.getD 4 0 = 84 then some 5 else none
    | _ => none

/-- The outcome of reading a part: what is known now and the rest of the text. -/
abbrev PartResult := Except MomentError (MomentParts × Bytes)

/-- A number out of its range. -/
def outOfRange (what : String) : MomentError := .other (Bytes.ofString ": " ++ what ++ " out of range")

/-- Read the offset of a zone. -/
def OffsetStyle.read (st : OffsetStyle) (bad : MomentError) (p : MomentParts) (s : Bytes) :
    PartResult :=
  if st.zulu && s.startsWith "Z" then .ok ({ p with utc := true }, s.drop 1) else
    let size := 3 + (if st.minutes then 2 else 0) + (if st.seconds then 2 else 0) +
      (if st.colons then (if st.minutes then 1 else 0) + (if st.seconds then 1 else 0) else 0)
    let gap := if st.colons then 1 else 0
    let field (n : Nat) : Option Nat := (twoDigits? true ((s.drop n).take 2)).map (·.1)
    let colonAt (n : Nat) : Bool := !st.colons || s.getD n 0 = 58
    if s.length < size then .error bad
    else if (st.minutes && !colonAt 3) || (st.seconds && !colonAt 6) then .error bad
    else
      let hr := field 1
      let mm := if st.minutes then hr.bind fun _ => field (3 + gap) else some 0
      let ss := if st.seconds then mm.bind fun _ => field (5 + 2 * gap) else some 0
      if 24 < hr.getD 0 && (60 ≥ mm.getD 0 && 60 ≥ ss.getD 0) then .error (outOfRange "time zone offset hour")
      else if 60 < mm.getD 0 && 60 ≥ ss.getD 0 then .error (outOfRange "time zone offset minute")
      else if 60 < ss.getD 0 then .error (outOfRange "time zone offset second")
      else
        match hr, mm, ss, s.head? with
        | some h, some m, some x, some 43 =>
          .ok ({ p with offset := some ((h * 60 + m) * 60 + x : Nat) }, s.drop size)
        | some h, some m, some x, some 45 =>
          .ok ({ p with offset := some (-((h * 60 + m) * 60 + x : Nat)) }, s.drop size)
        | _, _, _, _ => .error bad

/-- Read a part of an instant. `rest` is the layout after the part. -/
def LayoutPart.read (rest : Bytes) (bad : MomentError) (p : MomentParts) (s : Bytes) :
    LayoutPart → PartResult
  | .year =>
    -- a sign may take the place of the first digit
    match s with
    | a :: b :: t =>
      if isDigitByte b && (isDigitByte a || a = 43 || a = 45) then
        let n : Int := if isDigitByte a then digitsValue [a, b]
          else if a = 45 then -(digitValue b : Int) else digitValue b
        .ok ({ p with year := if 69 ≤ n then n + 1900 else n + 2000 }, t)
      else .error bad
    | _ => .error bad
  | .longYear =>
    let ds := s.take 4
    if ds.length < 4 || !ds.all isDigitByte then .error bad
    else .ok ({ p with year := digitsValue ds }, s.drop 4)
  | .month => named (monthNames.map fun n => (Bytes.ofString n).take 3) fun i => { p with month := some (i + 1) }
  | .longMonth => named (monthNames.map Bytes.ofString) fun i => { p with month := some (i + 1) }
  | .numMonth => monthNumber false
  | .zeroMonth => monthNumber true
  | .weekday => named (dayNames.map fun n => (Bytes.ofString n).take 3) fun _ => p
  | .longWeekday => named (dayNames.map Bytes.ofString) fun _ => p
  | .day => number (twoDigits? false s) fun n => { p with day := some n }
  | .underDay =>
    let s := if s.head? = some 32 then s.drop 1 else s
    number (twoDigits? false s) fun n => { p with day := some n }
  | .zeroDay => number (twoDigits? true s) fun n => { p with day := some n }
  | .underYearDay =>
    let s := (s.take 2).dropWhile (· = 32) ++ s.drop 2
    number (threeDigits? false s) fun n => { p with yearDay := some n }
  | .zeroYearDay => number (threeDigits? true s) fun n => { p with yearDay := some n }
  | .hour => ranged "hour" 23 (twoDigits? false s) fun n => { p with hour := n }
  | .hour12 => ranged "hour" 12 (twoDigits? false s) fun n => { p with hour := n }
  | .zeroHour12 => ranged "hour" 12 (twoDigits? true s) fun n => { p with hour := n }
  | .minute => ranged "minute" 59 (twoDigits? false s) fun n => { p with minute := n }
  | .zeroMinute => ranged "minute" 59 (twoDigits? true s) fun n => { p with minute := n }
  | .second => seconds false
  | .zeroSecond => seconds true
  | .upperHalf => half "AM" "PM"
  | .lowerHalf => half "am" "pm"
  | .offset st => st.read bad p s
  | .zoneName =>
    if s.startsWith "UTC" then .ok ({ p with utc := true }, s.drop 3) else
      match zoneNameLength? s with
      | some n => .ok ({ p with zoneName := s.take n }, s.drop n)
      | none => .error bad
  | .fraction digits _ false =>
    if s.length < digits + 1 then .error bad else
      match readFraction? (s.take (digits + 1)) with
      | some n => .ok ({ p with nsec := n }, s.drop (digits + 1))
      | none => .error bad
  | .fraction _ _ true => .ok (fractionHere p s)
where
  /-- A name of a list. -/
  named (names : List Bytes) (f : Nat → MomentParts) : PartResult :=
    match leadingName? names s with
    | some (i, t) => .ok (f i, t)
    | none => .error bad
  /-- A number. -/
  number (r : Option (Nat × Bytes)) (f : Nat → MomentParts) : PartResult :=
    match r with
    | some (n, t) => .ok (f n, t)
    | none => .error bad
  /-- A number up to a bound. -/
  ranged (what : String) (top : Nat) (r : Option (Nat × Bytes)) (f : Nat → MomentParts) :
      PartResult :=
    match r with
    | some (n, t) => if top < n then .error (outOfRange what) else .ok (f n, t)
    | none => .error bad
  /-- The number of a month. -/
  monthNumber (fixed : Bool) : PartResult :=
    match twoDigits? fixed s with
    | some (n, t) =>
      if n = 0 || 12 < n then .error (outOfRange "month") else .ok ({ p with month := some n }, t)
    | none => .error bad
  /-- A fraction with any number of digits, if there is one. -/
  fractionHere (p : MomentParts) (s : Bytes) : MomentParts × Bytes :=
    match s with
    | mark :: rest =>
      let ds := rest.takeWhile isDigitByte
      if (mark = 46 || mark = 44) && !ds.isEmpty then
        ({ p with nsec := (readFraction? (mark :: ds)).getD 0 }, rest.drop ds.length)
      else (p, s)
    | [] => (p, s)
  /-- Seconds, and a fraction that the layout does not show. -/
  seconds (fixed : Bool) : PartResult :=
    match twoDigits? fixed s with
    | some (n, t) =>
      if 59 < n then .error (outOfRange "second") else
        match nextPart rest with
        | (_, some (_, .fraction .., _)) => .ok ({ p with second := n }, t)
        | _ => .ok (fractionHere { p with second := n } t)
    | none => .error bad
  /-- The half of the day. -/
  half (am pm : String) : PartResult :=
    if s.startsWith am then .ok ({ p with morning := true }, s.drop 2)
    else if s.startsWith pm then .ok ({ p with afternoon := true }, s.drop 2)
    else .error bad

/-- Read the parts of a text by a layout of at most `fuel` parts. -/
def readParts : Nat → Bytes → Bytes → MomentParts → Except MomentError MomentParts
  | 0, _, _, p => .ok p
  | fuel + 1, layout, s, p =>
    let (front, found) := nextPart layout
    match skipText (front.length + 1) front s with
    | .error left => .error (.mismatch front left)
    | .ok s =>
      match found with
      | none =>
        if s.isEmpty then .ok p
        else .error (.other (Bytes.ofString ": extra text: " ++ quotePlain s))
      | some (spelled, part, rest) =>
        match part.read rest (.mismatch spelled s) p s with
        | .ok (p, s) => readParts fuel rest s p
        | .error e => .error e

/-- Month and day of what has been read; a day of the year must agree with them. -/
def MomentParts.monthDay (p : MomentParts) : Except MomentError (Nat × Nat) :=
  match p.yearDay with
  | none => .ok (p.month.getD 1, p.day.getD 1)
  | some n =>
    if n < 1 || (if isLeap p.year then 366 else 365) < n then
      .error (outOfRange "day-of-year")
    else
      let m := monthOf p.year (n - 1)
      let d := n - daysBeforeMonth p.year m
      if p.month.any (· ≠ m) then .error (.other ": day-of-year does not match month")
      else if p.day.any (· ≠ d) then .error (.other ": day-of-year does not match day")
      else .ok (m, d)

/-- The instant that has been read. Zones other than UTC are made anew with the given
stamp. -/
def MomentParts.moment (p : MomentParts) (stamp : Nat) : Except MomentError Moment := do
  let hour := if p.afternoon && p.hour < 12 then p.hour + 12
    else if p.morning && p.hour = 12 then 0 else p.hour
  let (month, day) ← p.monthDay
  if day < 1 || daysIn p.year month < day then
    throw (outOfRange "day")
  let t := Moment.ofParts p.year month day hour p.minute p.second p.nsec .utc
  if p.utc then return t
  match p.offset with
  | some offset =>
    -- one second west of UTC cannot be told from no offset at all
    if offset ≠ -1 then
      let u := { t with sec := wrap64 (t.sec - offset) }
      if offset = 0 && (p.zoneName.isEmpty || p.zoneName = Bytes.ofString "UTC") then return u
      return { u with zone := .fixed p.zoneName offset stamp }
  | none => pure ()
  if p.zoneName.isEmpty then return t
  let hours : Int := match p.zoneName.drop 3 with
    | sign :: ds =>
      if p.zoneName.startsWith "GMT" then
        (if sign = 45 then -(digitsValue ds : Int) else digitsValue ds)
      else 0
    | [] => 0
  return { t with zone := .fixed p.zoneName (hours * 3600) stamp }

/-- Read an instant by a layout. -/
def readMoment (layout text : Bytes) (stamp : Nat) : Except MomentError Moment := do
  (← readParts (layout.length + 1) layout text {}).moment stamp

/-!
## Durations

A duration is a number of nanoseconds. It is written with hours, minutes and
seconds, or with a smaller unit if it is shorter than a second, and it is read as
a sum of numbers with units.
-/

/-- A number of units of `10 ^ places`, with the fraction it needs. -/
def fixedPoint (u places : Nat) : Bytes :=
  let whole := Bytes.ofNat (u / Nat.pow 10 places)
  let frac := ((paddedInt places (u % Nat.pow 10 places : Nat)).reverse.dropWhile (· = 48)).reverse
  if places = 0 || frac.isEmpty then whole else whole ++ "." ++ frac

/-- The written form of a duration. -/
def durationText (d : Int) : Bytes :=
  let u := d.natAbs
  let body : Bytes :=
    if u = 0 then "0s"
    else if u < 1000 then fixedPoint u 0 ++ "ns"
    else if u < 1000000 then fixedPoint u 3 ++ "µs"
    else if u < 1000000000 then fixedPoint u 6 ++ "ms"
    else
      let s := u / 1000000000
      let secs := fixedPoint (u % 60000000000) 9 ++ "s"
      if s < 60 then secs
      else if s < 3600 then Bytes.ofNat (s / 60) ++ "m" ++ secs
      else Bytes.ofNat (s / 3600) ++ "h" ++ Bytes.ofNat (s / 60 % 60) ++ "m" ++ secs
  if d < 0 then 45 :: body else body

/-- Why a text is not a duration. -/
inductive DurationError where
  | invalid
  | noUnit
  | badUnit (unit : Bytes)
  deriving DecidableEq, Repr

/-- The wording of a failure to read a duration. -/
def DurationError.message (text : Bytes) : DurationError → Bytes
  | .invalid => Bytes.ofString "time: invalid duration " ++ quotePlain text
  | .noUnit => Bytes.ofString "time: missing unit in duration " ++ quotePlain text
  | .badUnit u =>
    Bytes.ofString "time: unknown unit " ++ quotePlain u ++ " in duration " ++ quotePlain text

/-- The units of a duration in nanoseconds. -/
def durationUnits : List (Bytes × Nat) :=
  [("ns", 1), ("us", 1000), ("µs", 1000), ("μs", 1000), ("ms", 1000000), ("s", 1000000000),
   ("m", 60000000000), ("h", 3600000000000)]

/-- A number that fits 63 bits, or just exceeds them. -/
def smallNumber? (ds : Bytes) : Option Nat :=
  let n := digitsValue ds
  if n ≤ Nat.pow 2 63 then some n else none

/-- The digits of a fraction that can be kept, as numerator and denominator. -/
def readFractionDigits (ds : Bytes) : Nat × Nat :=
  let step (acc : Nat × Nat × Bool) (d : UInt8) : Nat × Nat × Bool :=
    let (x, scale, full) := acc
    let y := x * 10 + digitValue d
    if full || (Nat.pow 2 63 - 1) / 10 < x || Nat.pow 2 63 < y then (x, scale, true) else (y, scale * 10, false)
  let (x, scale, _) := ds.foldl step (0, 1, false)
  (x, scale)

/-- The nanoseconds of a fraction of a unit, computed with floats. -/
def fractionNanos (f scale unit : Nat) : Nat :=
  if f = 0 then 0
  else (Float.ofNat f * (Float.ofNat unit / Float.ofNat scale)).toUInt64.toNat

/-- One number with its unit, and the rest of the text. -/
def readTerm (s : Bytes) : Except DurationError (Nat × Bytes) := do
  let ds := s.takeWhile isDigitByte
  let afterWhole := s.drop ds.length
  let some v := smallNumber? ds | throw .invalid
  let hasPoint := afterWhole.head? = some 46
  let fs := if hasPoint then (afterWhole.drop 1).takeWhile isDigitByte else []
  let rest := if hasPoint then afterWhole.drop (1 + fs.length) else afterWhole
  if ds.isEmpty && fs.isEmpty then throw .invalid
  let unitText := rest.takeWhile fun b => b ≠ 46 && !isDigitByte b
  if unitText.isEmpty then throw .noUnit
  let some unit := durationUnits.lookup unitText | throw (.badUnit unitText)
  if Nat.pow 2 63 / unit < v then throw .invalid
  let (f, scale) := readFractionDigits fs
  let n := v * unit + fractionNanos f scale unit
  if Nat.pow 2 63 < n then throw .invalid
  return (n, rest.drop unitText.length)

/-- The sum of numbers with units, kept in 64 bits. -/
def readTerms : Nat → Nat → Bytes → Except DurationError Nat
  | 0, sum, _ => .ok sum
  | fuel + 1, sum, s =>
    if s.isEmpty then .ok sum else do
      let (n, rest) ← readTerm s
      let sum := (sum + n) % Nat.pow 2 64
      if Nat.pow 2 63 < sum then throw .invalid
      readTerms fuel sum rest

/-- Read a duration. -/
def readDuration (s : Bytes) : Except DurationError Int := do
  let negative := s.head? = some 45
  let body := if negative || s.head? = some 43 then s.drop 1 else s
  if body = [48] then return 0
  if body.isEmpty then throw .invalid
  let n ← readTerms (body.length + 1) 0 body
  if negative then return -n
  if Nat.pow 2 63 - 1 < n then throw .invalid
  return n

end Stencil
