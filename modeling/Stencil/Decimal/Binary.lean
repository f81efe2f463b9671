

/-!
# Binary floating point, exactly

A finite floating-point number is `± mantissa · 2 ^ exponent` with natural
`mantissa`. This module takes such numbers apart and rounds an exact quotient of
natural numbers to the nearest one, a tie going to the even mantissa, for any
width of mantissa.
-/

namespace Stencil.Decimal

/-- The parameters of a binary format: the bits of a mantissa, the exponent of the
smallest numbers, and the exponent of the largest. -/
structure BinaryFormat where
  bits : Nat
  minExp : Int
  maxExp : Int

/-- Double precision. -/
def double : BinaryFormat := ⟨53, -1074, 971⟩

/-- Single precision. -/
def single : BinaryFormat := ⟨24, -149, 104⟩

/-- A floating-point datum taken apart. -/
inductive Binary where
  | notANumber
  | infinite (negative : Bool)
  | finite (negative : Bool) (mantissa : Nat) (exponent : Int)
  deriving Repr, Inhabited

/-- Take apart the bits of a number whose mantissa field has `width` bits and whose
exponent field has `expWidth` bits. -/
def Binary.ofFields (f : BinaryFormat) (expWidth : Nat) (bits : Nat) : Binary :=
  let width := f.bits - 1
  let frac := bits % Nat.pow 2 width
  let exp := bits / Nat.pow 2 width % Nat.pow 2 expWidth
  let neg := bits / Nat.pow 2 (width + expWidth) % 2 == 1
  if exp == Nat.pow 2 expWidth - 1 then
    if frac == 0 then .infinite neg else .notANumber
  else if exp == 0 then .finite neg frac f.minExp
  else .finite neg (Nat.pow 2 width + frac) (f.minExp + (exp - 1 : Nat))

/-- Take apart a double-precision number. -/
def Binary.ofFloat (x : Float) : Binary := .ofFields double 11 x.toBits.toNat

/-- Take apart a single-precision number. -/
def Binary.ofFloat32 (x : Float32) : Binary := .ofFields single 8 x.toBits.toNat

/-- The quotient `num / den` rounded to the nearest natural number, a tie going to
the even one. -/
def roundHalfEven (num den : Nat) : Nat :=
  let q := num / den
  let r := num % den
  if 2 * r < den then q
  else if den < 2 * r then q + 1
  else if q % 2 == 0 then q else q + 1

/-- Round the positive quotient `num / den` to the nearest number of the format.
The answer is mantissa and exponent, or nothing if it is too large. -/
def roundQuotient (f : BinaryFormat) (num den : Nat) : Option (Nat × Int) :=
  if num == 0 then some (0, f.minExp)
  else
    -- an exponent for which the mantissa has f.bits or f.bits + 1 binary digits
    let guess : Int := (Nat.log2 num : Int) - (Nat.log2 den : Int) - f.bits
    let e := max guess f.minExp
    let scaled (e : Int) : Nat :=
      if 0 ≤ e then roundHalfEven num (den * Nat.pow 2 e.toNat)
      else roundHalfEven (num * Nat.pow 2 (-e).toNat) den
    let full := Nat.pow 2 f.bits
    let (m, e) :=
      if (if 0 ≤ e then num / (den * Nat.pow 2 e.toNat) else num * Nat.pow 2 (-e).toNat / den) ≥ full
      then (scaled (e + 1), e + 1) else (scaled e, e)
    let (m, e) := if m ≥ full then (m / 2, e + 1) else (m, e)
    if e > f.maxExp then none else some (m, e)

/-- Put together the bits of a number from mantissa and exponent. -/
def packBits (f : BinaryFormat) (expWidth : Nat) (negative : Bool) (m : Nat) (e : Int) : Nat :=
  let width := f.bits - 1
  let sign := if negative then Nat.pow 2 (width + expWidth) else 0
  if m < Nat.pow 2 width then sign + m
  else sign + ((e - f.minExp).toNat + 1) * Nat.pow 2 width + (m - Nat.pow 2 width)

/-- The double-precision number with the given mantissa and exponent. -/
def floatOf (negative : Bool) (m : Nat) (e : Int) : Float :=
  Float.ofBits (packBits double 11 negative m e).toUInt64

/-- The infinite double-precision number of the given sign. -/
def infinity (negative : Bool) : Float :=
  if negative then -1.0 / 0.0 else 1.0 / 0.0

/-- The double-precision datum that is no number. -/
def notANumber : Float := Float.ofBits 0x7FF8000000000001

/-- Whether a number is neither infinite nor undefined. -/
def isFinite (x : Float) : Bool :=
  match Binary.ofFloat x with
  | .finite .. => true
  | _ => false

/-- Whether a number has the sign bit set. -/
def signBit (x : Float) : Bool := x.toBits >>> 63 == 1

/-- The whole part of a finite number, exactly. -/
def truncToInt (x : Float) : Int :=
  match Binary.ofFloat x with
  | .finite neg m e =>
    let n : Nat := if 0 ≤ e then m * Nat.pow 2 e.toNat else m / Nat.pow 2 (-e).toNat
    if neg then -(n : Int) else n
  | _ => 0

/-- Whether a finite number is whole. -/
def isWhole (x : Float) : Bool :=
  match Binary.ofFloat x with
  | .finite _ m e => 0 ≤ e || m % Nat.pow 2 (-e).toNat == 0
  | _ => false

/-- The double-precision number nearest to an integer. -/
def floatOfInt (n : Int) : Float :=
  match roundQuotient double n.natAbs 1 with
  | some (m, e) => floatOf (n < 0) m e
  | none => infinity (n < 0)

/-! ### The remainder of a division

The remainder of two floating-point numbers is exact: it is what is left of the dividend after
subtracting the whole part of the quotient, and it has the sign of the dividend.
-/

/-- The remainder of `x` divided by `y`. -/
def remainder (x y : Float) : Float :=
  match Binary.ofFloat x, Binary.ofFloat y with
  | .finite neg m e, .finite _ n f =>
    if n = 0 then notANumber
    else
      let low := min e f
      let r := (m * Nat.pow 2 (e - low).toNat) % (n * Nat.pow 2 (f - low).toNat)
      -- the remainder is a number of the format, so that rounding changes nothing
      let scaled := if 0 ≤ low then roundQuotient double (r * Nat.pow 2 low.toNat) 1
        else roundQuotient double r (Nat.pow 2 (-low).toNat)
      match scaled with
      | some (q, g) => floatOf neg q g
      | none => infinity neg
  | .finite .., .infinite _ => x
  | _, _ => notANumber

end Stencil.Decimal
