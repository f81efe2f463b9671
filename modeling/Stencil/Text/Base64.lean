import Stencil.Text.Bytes

/-!
# Bytes in sixty-four characters

Three bytes are written as four characters, each for six bits. A last group with one
or two bytes is filled up with equal signs, or left short.
-/

namespace Stencil.Base64

/-- The character for six bits. -/
def digit (n : Nat) : UInt8 :=
  if n < 26 then (65 + n).toUInt8
  else if n < 52 then (71 + n).toUInt8
  else if n < 62 then (n - 4).toUInt8
  else if n = 62 then 43 else 47

/-- The six bits a character stands for; the last two characters are `+` and `/`, or `-` and
`_` in addresses. -/
def value? (forAddress : Bool) (b : UInt8) : Option Nat :=
  if 65 ≤ b && b ≤ 90 then some (b.toNat - 65)
  else if 97 ≤ b && b ≤ 122 then some (b.toNat - 71)
  else if 48 ≤ b && b ≤ 57 then some (b.toNat + 4)
  else if b = (if forAddress then 45 else 43) then some 62
  else if b = (if forAddress then 95 else 47) then some 63
  else none

/-- Write bytes. -/
def encode : Bytes → Bytes
  | [] => []
  | [a] =>
    let n := a.toNat * 65536
    [digit (n / 262144), digit (n / 4096 % 64), 61, 61]
  | [a, b] =>
    let n := a.toNat * 65536 + b.toNat * 256
    [digit (n / 262144), digit (n / 4096 % 64), digit (n / 64 % 64), 61]
  | a :: b :: c :: rest =>
    let n := a.toNat * 65536 + b.toNat * 256 + c.toNat
    digit (n / 262144) :: digit (n / 4096 % 64) :: digit (n / 64 % 64) :: digit (n % 64) ::
      encode rest

/-- Read groups of characters; the last group may be filled up with equal signs or, if
`short`, lack them. -/
def decodeGroups (forAddress short : Bool) : Bytes → Option Bytes
  | [] => some []
  | [a, b] => do
    guard short
    let n := (← value? forAddress a) * 64 + (← value? forAddress b)
    return [(n / 16).toUInt8]
  | [a, b, c] => do
    guard short
    let n := (← value? forAddress a) * 4096 + (← value? forAddress b) * 64 + (← value? forAddress c)
    return [(n / 1024).toUInt8, (n / 4 % 256).toUInt8]
  | a :: b :: c :: d :: rest => do
    let m := (← value? forAddress a) * 64 + (← value? forAddress b)
    if d = 61 && !short && rest.isEmpty then
      if c = 61 then return [(m / 16).toUInt8]
      let n := m * 64 + (← value? forAddress c)
      return [(n / 1024).toUInt8, (n / 4 % 256).toUInt8]
    let n := m * 4096 + (← value? forAddress c) * 64 + (← value? forAddress d)
    let more ← decodeGroups forAddress short rest
    return (n / 65536).toUInt8 :: (n / 256 % 256).toUInt8 :: (n % 256).toUInt8 :: more
  | _ => none

/-- Read bytes. Line breaks are passed over; whether the last group is filled up follows from
the length. -/
def decode? (s : Bytes) : Option Bytes :=
  decodeGroups (s.any fun b => b = 45 || b = 95) (s.length % 4 ≠ 0)
    (s.filter fun b => b ≠ 10 && b ≠ 13)

end Stencil.Base64
