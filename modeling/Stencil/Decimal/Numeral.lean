import Stencil.Decimal.Binary
import Stencil.Text.Bytes

/-!
# Reading and writing numerals

Whole numbers that must fit a range, and decimal fractions with an exponent,
which are rounded to the nearest double-precision number.
-/

namespace Stencil.Decimal

/-- Whether a character is a decimal digit. -/
def isDigit (c : Char) : Bool := '0' ≤ c && c ≤ '9'

/-- The value of a sequence of decimal digits. -/
def digitsValue (cs : List Char) : Nat := cs.foldl (fun n c => 10 * n + (c.toNat - 48)) 0

/-- The least 64-bit integer. -/
def minInt64 : Int := -(Nat.pow 2 63 : Nat)

/-- The greatest 64-bit integer. -/
def maxInt64 : Int := (Nat.pow 2 63 - 1 : Nat)

/-- Whether an integer fits 64 bits. -/
def fitsInt64 (n : Int) : Bool := minInt64 ≤ n && n ≤ maxInt64

/-- Why a numeral is refused. -/
inductive NumeralError where
  | malformed
  | outOfRange
  deriving DecidableEq, Repr

/-- Read an optionally signed decimal integer. -/
def readInt (cs : List Char) : Except NumeralError Int :=
  let (neg, ds) := match cs with
    | '-' :: r => (true, r)
    | '+' :: r => (false, r)
    | r => (false, r)
  if ds.isEmpty || !ds.all isDigit then .error .malformed
  else
    let n : Int := digitsValue ds
    let n := if neg then -n else n
    if fitsInt64 n then .ok n else .error .outOfRange

/-- The number `± digits · 10 ^ exp`, rounded; `none` if it is too large. -/
def ofScientific (f : BinaryFormat) (digits : Nat) (exp : Int) : Option (Nat × Int) :=
  if digits == 0 then some (0, f.minExp)
  else
    let size : Int := (Nat.toDigits 10 digits).length
    -- far outside the range, no power of ten is computed
    if exp + size > 400 then none
    else if exp + size < -400 then some (0, f.minExp)
    else if 0 ≤ exp then roundQuotient f (digits * Nat.pow 10 exp.toNat) 1
    else roundQuotient f digits (Nat.pow 10 (-exp).toNat)

/-- A decimal fraction: sign, digits and the power of ten they are multiplied by. -/
structure Fraction where
  negative : Bool
  digits : Nat
  exp : Int
  deriving DecidableEq, Repr

/-- Read a decimal fraction: digits with an optional point and an optional exponent. -/
def readFraction? (cs : List Char) : Option Fraction :=
  let (neg, cs) := match cs with
    | '-' :: r => (true, r)
    | '+' :: r => (false, r)
    | r => (false, r)
  let whole := cs.takeWhile isDigit
  let rest := cs.dropWhile isDigit
  let (frac, rest) := match rest with
    | '.' :: r => (r.takeWhile isDigit, r.dropWhile isDigit)
    | r => ([], r)
  if whole.isEmpty && frac.isEmpty then none
  else
    let digits := digitsValue (whole ++ frac)
    let scale : Int := -(frac.length : Int)
    match rest with
    | [] => some ⟨neg, digits, scale⟩
    | c :: r =>
      if c ≠ 'e' ∧ c ≠ 'E' then none
      else
        let (eneg, r) := match r with
          | '-' :: r => (true, r)
          | '+' :: r => (false, r)
          | r => (false, r)
        if r.isEmpty || !r.all isDigit then none
        else
          -- exponents beyond any use are cut short
          let e : Int := min (digitsValue (r.dropWhile (· == '0') |>.take 9)) 100000000
          some ⟨neg, digits, if eneg then scale - e else scale + e⟩

/-- Read a number: a decimal fraction, or a name of an infinite or undefined one. -/
def readFloat (cs : List Char) : Except NumeralError Float :=
  let lower := cs.map Char.toLower
  let (neg, name) := match lower with
    | '-' :: r => (true, r)
    | '+' :: r => (false, r)
    | r => (false, r)
  if name = "inf".toList ∨ name = "infinity".toList then .ok (infinity neg)
  else if lower = "nan".toList then .ok notANumber
  else
    match readFraction? cs with
    | none => .error .malformed
    | some x =>
      match ofScientific double x.digits x.exp with
      | some (m, e) => .ok (floatOf x.negative m e)
      | none => .error .outOfRange

/-!
## Numbers in decimal

`shortest` gives the fewest decimal digits that read back as the same
floating-point number, and of those the nearest ones. `FloatStyle` records how
the digits are then written: when an exponent is used and how it looks.

For `1, 2, …` digits the two neighbours of the number on that decimal grid are
tested in exact arithmetic; the first grid with a neighbour inside the interval
of reals that round to the number wins.
-/

/-- The decimal number `0.d₁d₂… · 10 ^ point`. -/
structure Digits where
  digits : List Nat
  point : Int
  deriving DecidableEq, Repr, Inhabited

/-- The decimal digits of a number, most significant first. -/
def digitsOf (n : Nat) : List Nat := (Nat.toDigits 10 n).map fun c => c.toNat - 48

/-- Remove the zeros at the end of a list of digits. -/
def dropTrailingZeros (ds : List Nat) : List Nat := (ds.reverse.dropWhile (· == 0)).reverse

/-- The least `p` with `num / den < 10 ^ p`, looked for upward from `p`. -/
def raisePoint (num den : Nat) : Nat → Int → Int
  | 0, p => p
  | fuel + 1, p =>
    let below := if 0 ≤ p then num < den * Nat.pow 10 p.toNat else num * Nat.pow 10 (-p).toNat < den
    if below then p else raisePoint num den fuel (p + 1)

/-- The decimal exponent `p` of a positive quotient: `10 ^ (p - 1) ≤ num / den < 10 ^ p`. -/
def decimalPoint (num den : Nat) : Int :=
  -- a lower bound from the binary sizes: log10 2 is a little more than 0.301
  let b : Int := (Nat.log2 num : Int) - (Nat.log2 den : Int) - 1
  let guess : Int := b * 30103 / 100000 - 1
  raisePoint num den 8 guess

/-- The grid neighbour of `n` digits that lies between `lo` and `hi`, all over the
denominator `den`; `closed` says whether the ends count. -/
def neighbour? (num lo hi den : Nat) (closed : Bool) (point : Int) (n : Nat) : Option Nat :=
  -- the unit of the grid is 10 ^ (point - n)
  let k := point - n
  let (scaleNum, scaleDen) : Nat × Nat :=
    if 0 ≤ k then (1, Nat.pow 10 k.toNat) else (Nat.pow 10 (-k).toNat, 1)
  let unit := den * scaleDen
  let v := num * scaleNum
  let d := v / unit
  let inside (x : Nat) : Bool :=
    let t := x * unit
    if closed then lo * scaleNum ≤ t && t ≤ hi * scaleNum
    else lo * scaleNum < t && t < hi * scaleNum
  let below := inside d
  let above := inside (d + 1)
  if below && above then
    let down := v - d * unit
    let up := (d + 1) * unit - v
    if down < up then some d
    else if up < down then some (d + 1)
    else if d % 2 == 0 then some d else some (d + 1)
  else if below then some d
  else if above then some (d + 1)
  else none

/-- The first grid, from `n` digits on, that has a neighbour inside the interval. -/
def searchGrid (num lo hi den : Nat) (closed : Bool) (point : Int) : Nat → Nat → Digits
  | 0, n => ⟨digitsOf (num / den), n⟩
  | fuel + 1, n =>
    match neighbour? num lo hi den closed point n with
    | some d =>
      let ds := digitsOf d
      -- rounding up may add a digit
      ⟨dropTrailingZeros ds, point + (ds.length : Int) - n⟩
    | none => searchGrid num lo hi den closed point fuel (n + 1)

/-- The fewest digits that read back as `m · 2 ^ e` in the format. -/
def shortest (f : BinaryFormat) (m : Nat) (e : Int) : Digits :=
  if m == 0 then ⟨[], 0⟩
  else
    -- quarters of a unit in the last place keep the ends of the interval whole
    let narrow := m == Nat.pow 2 (f.bits - 1) && f.minExp < e
    let scale (x : Nat) : Nat := if 2 ≤ e then x * Nat.pow 2 (e - 2).toNat else x
    let den : Nat := if 2 ≤ e then 1 else Nat.pow 2 (2 - e).toNat
    let num := scale (4 * m)
    let lo := scale (4 * m - (if narrow then 1 else 2))
    let hi := scale (4 * m + 2)
    searchGrid num lo hi den (m % 2 == 0) (decimalPoint num den) 20 1

/-- How the digits of a number are written. -/
structure FloatStyle where
  /-- Smaller exponents are written out. -/
  minFixed : Int
  /-- Exponents from here on are written out. -/
  maxFixed : Int
  /-- The least number of digits of an exponent. -/
  expDigits : Nat := 2
  /-- Whether a whole number keeps a fraction. -/
  keepFraction : Bool := false

/-- The usual style of the language: up to six digits before the point. -/
def plain : FloatStyle := { minFixed := -4, maxFixed := 6 }

/-- The style of data interchange: up to twenty-one digits before the point, and
exponents without leading zeros. -/
def interchange : FloatStyle := { minFixed := -6, maxFixed := 21, expDigits := 1 }

/-- A digit as a character. -/
def digitChar (d : Nat) : Char := Char.ofNat (48 + d)

/-- Digits in positional notation. -/
def Digits.fixed (d : Digits) : List Char :=
  let ds := d.digits.map digitChar
  let whole :=
    if d.point ≤ 0 then ['0']
    else ds.take d.point.toNat ++ List.replicate (d.point.toNat - ds.length) '0'
  let frac :=
    if d.point < 0 then List.replicate (-d.point).toNat '0' ++ ds else ds.drop d.point.toNat
  if frac.isEmpty then whole else whole ++ '.' :: frac

/-- Digits with an exponent. -/
def Digits.scientific (expDigits : Nat) (d : Digits) : List Char :=
  let exp : Int := if d.digits.isEmpty then 0 else d.point - 1
  let mant := match d.digits.map digitChar with
    | [] => ['0']
    | [c] => [c]
    | c :: cs => c :: '.' :: cs
  let e := (toString exp.natAbs).toList
  mant ++ 'e' :: (if exp < 0 then '-' else '+') ::
    (List.replicate (expDigits - e.length) '0' ++ e)

/-- Write digits in a style. -/
def FloatStyle.write (s : FloatStyle) (d : Digits) : List Char :=
  let exp : Int := if d.digits.isEmpty then 0 else d.point - 1
  if exp < s.minFixed || s.maxFixed ≤ exp then d.scientific s.expDigits
  else
    let t := d.fixed
    if s.keepFraction && !t.contains '.' then t ++ ['.', '0'] else t

/-- Write a number taken apart, in the fewest digits. -/
def FloatStyle.text (s : FloatStyle) (f : BinaryFormat) : Binary → Bytes
  | .notANumber => ("NaN" : String)
  | .infinite neg => if neg then ("-Inf" : String) else ("+Inf" : String)
  | .finite neg m e =>
    let t := s.write (shortest f m e)
    Bytes.ofChars (if neg then '-' :: t else t)

/-- A double-precision number in a style. -/
def FloatStyle.float (s : FloatStyle) (x : Float) : Bytes := s.text double (.ofFloat x)

/-- A single-precision number in a style. -/
def FloatStyle.float32 (s : FloatStyle) (x : Float32) : Bytes := s.text single (.ofFloat32 x)

end Stencil.Decimal
