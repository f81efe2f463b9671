import Stencil.Decimal.Binary

/-!
# Elementary functions

The natural logarithm is a polynomial in the reduced argument. A power with a whole
exponent is found by squaring, with the binary exponents kept apart so that no step
overflows; a fraction of the exponent goes through the logarithm.
-/

namespace Stencil.Numeric

open Stencil.Decimal

/-- The number with the given bits. -/
def ofBits (bits : UInt64) : Float := Float.ofBits bits

/-- The value of a polynomial; the leading coefficient comes first. -/
def horner (z : Float) : List Float → Float
  | [] => 0
  | c :: cs => cs.foldl (fun y c => y * z + c) c

/-- A number with the sign of another. -/
def withSignOf (x sign : Float) : Float := if signBit sign then -x.abs else x.abs

/-- Whether a number is infinite. -/
def isInfinite (x : Float) : Bool := x.abs == infinity false

/-- The natural logarithm. -/
def log (x : Float) : Float :=
  if x.isNaN || x == infinity false then x
  else if x < 0 then notANumber
  else if x == 0 then infinity true
  else
    let (half, exp) := x.frExp
    let low := half < ofBits 0x3FE6A09E667F3BCD
    let f := (if low then half * 2 else half) - 1
    let k := floatOfInt (if low then exp - 1 else exp)
    let s := f / (2 + f)
    let s2 := s * s
    let s4 := s2 * s2
    let odd := s2 * (ofBits 0x3FE5555555555593 + s4 * (ofBits 0x3FD2492494229359 +
      s4 * (ofBits 0x3FC7466496CB03DE + s4 * ofBits 0x3FC2F112DF3E5244)))
    let even := s4 * (ofBits 0x3FD999999997FA04 + s4 * (ofBits 0x3FCC71C51D8E78AF +
      s4 * ofBits 0x3FC39A09D078C69F))
    let rest := odd + even
    let square := 0.5 * f * f
    k * ofBits 0x3FE62E42FEE00000 -
      ((square - (s * (square + rest) + k * ofBits 0x3DEA39EF35793C76)) - f)

/-- The length of a vector, found without squaring large numbers. -/
def hypot (x y : Float) : Float :=
  if isInfinite x || isInfinite y then infinity false
  else if x.isNaN || y.isNaN then notANumber
  else
    let p := if x.abs < y.abs then y.abs else x.abs
    let q := if x.abs < y.abs then x.abs else y.abs
    if p == 0 then 0
    else
      let r := q / p
      p * (1 + r * r).sqrt

/-- Whether a number is an odd integer. -/
def isOddInt (x : Float) : Bool := isWhole x && truncToInt x % 2 = 1

/-- Multiply `a · 2^ae` by the `n`-th power of `x · 2^xe`, by squaring. An exponent far out
of range ends the multiplication. -/
def powerStep : (fuel : Nat) → (n : Nat) → (x : Float) → (xe : Int) → (a : Float) → (ae : Int) →
    Float × Int
  | 0, _, _, _, a, ae => (a, ae)
  | fuel + 1, n, x, xe, a, ae =>
    if n = 0 then (a, ae)
    else if xe < -4096 || 4096 < xe then (a, ae + xe)
    else
      let (a, ae) := if n % 2 = 1 then (a * x, ae + xe) else (a, ae)
      let x2 := x * x
      let (x2, xe2) := if x2 < 0.5 then (x2 + x2, 2 * xe - 1) else (x2, 2 * xe)
      powerStep fuel (n / 2) x2 xe2 a ae

/-- The power of a finite number other than zero and one with a finite exponent other than
zero and one. -/
def finitePower (x y : Float) : Float :=
  let whole := truncToInt y.abs
  let part := y.abs - floatOfInt whole
  if part != 0 && x < 0 then notANumber
  else if Nat.pow 2 63 ≤ whole then
    if x == -1 then 1 else if (x.abs < 1) == (0 < y) then 0 else infinity false
  else
    let up := 0.5 < part
    let part := if up then part - 1 else part
    let whole := if up then whole + 1 else whole
    let start := if part != 0 then (part * log x).exp else 1
    let (half, exp) := x.frExp
    let (a, ae) := powerStep 64 whole.toNat half exp start 0
    if y < 0 then (1 / a).scaleB (-ae) else a.scaleB ae

/-- The power of zero, with a sign, by an exponent other than zero. -/
def powerOfZero (x y : Float) : Float :=
  let odd := signBit x && isOddInt y
  if y < 0 then (if odd then infinity true else infinity false)
  else if odd then x else 0

/-- A number raised to a power. -/
def pow (x y : Float) : Float :=
  if y == 0 || x == 1 then 1
  else if y == 1 then x
  else if x.isNaN || y.isNaN then notANumber
  else if x == 0 then powerOfZero x y
  else if isInfinite y then
    if x == -1 then 1 else if (x.abs < 1) == (0 < y) then 0 else infinity false
  else if isInfinite x then
    if x < 0 then powerOfZero (-0.0) (-y) else if y < 0 then 0 else infinity false
  else if y == 0.5 then x.sqrt
  else if y == -0.5 then 1 / x.sqrt
  else finitePower x y

/-!
## Trigonometric functions

An angle is reduced to an eighth of a turn, where a polynomial or a quotient of
polynomials gives the function. Large angles are reduced with many digits of 4/π.
-/

/-- The number π. -/
def pi : Float := ofBits 0x400921FB54442D18

/-- The digits of 4/π with 1216 bits after the point. -/
def fourOverPi : Nat :=
  0x145f306dc9c882a53f84eafa3ea69bb81b6c52b3278872083fca2c757bd778ac36e48dc74849ba5c00c925dd413a32439fc3bd63962534e7dd1046bea5d768909d338e04d68befc827323ac7306a673e93908bf177bf250763ff12fffbc0b301fde5e2316b414da3eda6cfd9e4f96136e9e8c7ecd3cbfd45aea4f758fd7cbe2f67a0e73ef14a525d4d7f6bf623f1aba10ac06608df8f6d757

/-- Reduce a large angle: the eighth of the turn it lies in, and the angle in it. -/
def reduceLarge (x : Float) : Nat × Float :=
  match Binary.ofFloat x with
  | .finite _ m e =>
    let digits := fourOverPi / Nat.pow 2 (1027 - e).toNat % Nat.pow 2 192
    let product := digits * m / Nat.pow 2 64 % Nat.pow 2 128
    let octant := product / Nat.pow 2 125
    let fraction := product % Nat.pow 2 125
    let cut : Nat := fraction.log2 - 52
    let z := floatOf false (fraction / Nat.pow 2 cut) ((cut : Int) - 125)
    if octant % 2 = 1 then ((octant + 1) % 8, (z - 1) * (pi / 4)) else (octant, z * (pi / 4))
  | _ => (0, notANumber)

/-- Reduce an angle that is not negative: the eighth of the turn it lies in, rounded up to
an even one, and the angle in it. -/
def reduceAngle (x : Float) : Nat × Float :=
  if ofBits 0x41C0000000000000 ≤ x then reduceLarge x
  else
    let j := (truncToInt (x * 1.27323954473516268615)).toNat
    let j := if j % 2 = 1 then j + 1 else j
    let y := floatOfInt j
    (j % 8, ((x - y * ofBits 0x3FE921FB40000000) - y * ofBits 0x3E64442D00000000) -
      y * ofBits 0x3CE8469898CC5170)

/-- The sine of a small angle. -/
def smallSin (z : Float) : Float :=
  let zz := z * z
  z + z * zz * horner zz
    [ofBits 0x3DE5D8FD1FD19CCD, ofBits 0xBE5AE5E5A9291F5D, ofBits 0x3EC71DE3567D48A1,
      ofBits 0xBF2A01A019BFDF03, ofBits 0x3F8111111110F7D0, ofBits 0xBFC5555555555548]

/-- The cosine of a small angle. -/
def smallCos (z : Float) : Float :=
  let zz := z * z
  1 - 0.5 * zz + zz * zz * horner zz
    [ofBits 0xBDA8FA49A0861A9B, ofBits 0x3E21EE9D7B4E3F05, ofBits 0xBE927E4F7EAC4BC6,
      ofBits 0x3EFA01A019C844F5, ofBits 0xBF56C16C16C14F91, ofBits 0x3FA555555555554B]

/-- The sine of an angle. -/
def sin (x : Float) : Float :=
  if x == 0 || x.isNaN then x
  else if isInfinite x then notANumber
  else
    let (j, z) := reduceAngle x.abs
    let y := if j % 4 = 1 || j % 4 = 2 then smallCos z else smallSin z
    if (x < 0) != (3 < j) then -y else y

/-- The cosine of an angle. -/
def cos (x : Float) : Float :=
  if x.isNaN then x
  else if isInfinite x then notANumber
  else
    let (j, z) := reduceAngle x.abs
    let y := if j % 4 = 1 || j % 4 = 2 then smallSin z else smallCos z
    if (3 < j) != (1 < j % 4) then -y else y

/-- The tangent of an angle. -/
def tan (x : Float) : Float :=
  if x == 0 || x.isNaN then x
  else if isInfinite x then notANumber
  else
    let (j, z) := reduceAngle x.abs
    let zz := z * z
    let y :=
      if 1e-14 < zz then
        z + z * (zz * horner zz
          [ofBits 0xC0C992D8D24F3F38, ofBits 0x413199ECA5FC9DDD, ofBits 0xC1711FEAD3299176] /
          horner zz
          [1, ofBits 0x40CAB8A5EEB36572, ofBits 0xC13427BC582ABC96, ofBits 0x4177D98FC2EAD8EF,
            ofBits 0xC189AFE03CBE5A31])
      else z
    let y := if j % 4 = 2 then -1 / y else y
    if x < 0 then -y else y

/-- The angle with a tangent between zero and 0.66. -/
def smallAtan (x : Float) : Float :=
  let z := x * x
  let q := z * horner z
      [-8.750608600031904122785e-01, -1.615753718733365076637e+01, -7.500855792314704667340e+01,
        -1.228866684490136173410e+02, -6.485021904942025371773e+01] /
    horner z
      [1, 2.485846490142306297962e+01, 1.650270098316988542046e+02, 4.328810604912902668951e+02,
        4.853903996359136964868e+02, 1.945506571482613964425e+02]
  x * q + x

/-- The angle with a tangent that is not negative. -/
def positiveAtan (x : Float) : Float :=
  let rest : Float := 6.123233995736765886130e-17
  if x <= 0.66 then smallAtan x
  else if 2.41421356237309504880 < x then pi / 2 - smallAtan (1 / x) + rest
  else pi / 4 + smallAtan ((x - 1) / (x + 1)) + 0.5 * rest

/-- The angle with the given tangent. -/
def atan (x : Float) : Float :=
  if x == 0 then x else if 0 < x then positiveAtan x else -positiveAtan (-x)

/-- The angle with the given sine. -/
def asin (x : Float) : Float :=
  if x == 0 then x
  else if 1 < x.abs then notANumber
  else
    let y := x.abs
    let c := (1 - y * y).sqrt
    let angle := if 0.7 < y then pi / 2 - positiveAtan (c / y) else positiveAtan (y / c)
    if x < 0 then -angle else angle

/-- The angle with the given cosine. -/
def acos (x : Float) : Float := pi / 2 - asin x

/-- The angle of a point as seen from the origin. -/
def atan2 (y x : Float) : Float :=
  if y.isNaN || x.isNaN then notANumber
  else if y == 0 then withSignOf (if 0 <= x && !signBit x then 0 else pi) y
  else if x == 0 then withSignOf (pi / 2) y
  else if isInfinite x then
    let quarter := if isInfinite y then pi / 4 else 0
    withSignOf (if 0 < x then quarter else if isInfinite y then 2.35619449019234492885 else pi) y
  else if isInfinite y then withSignOf (pi / 2) y
  else
    let q := atan (y / x)
    if x < 0 then (if q <= 0 then q + pi else q - pi) else q

end Stencil.Numeric
