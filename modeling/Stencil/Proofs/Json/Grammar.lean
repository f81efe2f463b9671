import Mathlib
import Stencil.Json.Reader
import Stencil.Proofs.Syntax.Spelling

/-!
# The grammar of JSON text

Which sequences of glyphs are a JSON text, and which value they are written for. There is one
inductive relation for each phrase and one rule for each of its alternatives; nothing here says how
a text is read.

A number is an int if it is written like one and fits, and else the nearest float; a numeral that is
too large for a float is no number. A string is read as characters: an escape of half a pair of
codes that stands alone and a byte that is part of no character stand for the replacement
character. Of several members of an object with one name the last counts, in the place of the first.
`IsValue n` are the values in which arrays and objects nest at most `n` deep.
-/

namespace Stencil.Json

/-- A character of white space. -/
def IsWhite (g : Glyph) : Prop :=
  g = .char ' ' ∨ g = .char '\t' ∨ g = .char '\n' ∨ g = .char '\r'

/-- White space between words. -/
def IsBlank (gs : List Glyph) : Prop := ∀ g ∈ gs, IsWhite g

theorem IsBlank.nil : IsBlank [] := List.forall_mem_nil _

/-! ### Strings -/

/-- What the letter after a backslash stands for. -/
def escapes : List (Char × Char) :=
  [('"', '"'), ('\\', '\\'), ('/', '/'), ('b', Char.ofNat 8), ('f', Char.ofNat 12), ('n', '\n'),
    ('r', '\r'), ('t', '\t')]

/-- Four hexadecimal digits and the number they stand for. -/
inductive IsCode : List Char → Nat → Prop where
  | mk {a b c d w x y z} : hexValue? a = some w → hexValue? b = some x → hexValue? c = some y →
      hexValue? d = some z → IsCode [a, b, c, d] (16 * (16 * (16 * w + x) + y) + z)

/-- The codes that are the first half of a pair. -/
def IsHigh (n : Nat) : Prop := 0xD800 ≤ n ∧ n < 0xDC00

instance (n : Nat) : Decidable (IsHigh n) := inferInstanceAs (Decidable (_ ∧ _))

/-- The codes that are the second half of a pair. -/
def IsLow (n : Nat) : Prop := 0xDC00 ≤ n ∧ n < 0xE000

instance (n : Nat) : Decidable (IsLow n) := inferInstanceAs (Decidable (_ ∧ _))

/-- An escape by number. -/
def escape (digits : List Char) : List Glyph := ('\\' :: 'u' :: digits).map .char

/-- `IsPiece gs c hs` says that `gs` stands for the character `c` where `hs` follows in the
string. -/
inductive IsPiece : List Glyph → Char → List Glyph → Prop where
  | plain {c hs} : 32 ≤ c.toNat → c ≠ '"' → c ≠ '\\' → IsPiece [.char c] c hs
  | stray {b hs} : IsPiece [.stray b] replacementChar hs
  | letter {p hs} : p ∈ escapes → IsPiece [.char '\\', .char p.1] p.2 hs
  | code {ds n hs} : IsCode ds n → ¬ IsHigh n → ¬ IsLow n → IsPiece (escape ds) (Char.ofNat n) hs
  | pair {ds es m n hs} : IsCode ds m → IsHigh m → IsCode es n → IsLow n →
      IsPiece (escape ds ++ escape es)
        (Char.ofNat (0x10000 + (m - 0xD800) * 0x400 + (n - 0xDC00))) hs
  | half {ds n hs} : IsCode ds n → IsHigh n ∨ IsLow n →
      (IsHigh n → ∀ es m hs', hs = escape es ++ hs' → IsCode es m → ¬ IsLow m) →
      IsPiece (escape ds) replacementChar hs

/-- The inside of a string and the characters it stands for. -/
inductive IsInside : List Glyph → List Char → Prop where
  | nil : IsInside [] []
  | cons {gs c hs cs} : IsPiece gs c hs → IsInside hs cs → IsInside (gs ++ hs) (c :: cs)

/-- string = '"' inside '"' -/
inductive IsString : List Glyph → List Char → Prop where
  | mk {gs cs} : IsInside gs cs → IsString (.char '"' :: gs ++ [.char '"']) cs

/-! ### Numbers -/

/-- The whole part of a number has no leading zeros. -/
inductive IsWhole : List Char → Prop where
  | zero : IsWhole ['0']
  | digits {ds} : IsDigits ds → ds.head? ≠ some '0' → IsWhole ds

/-- The parts of a number. -/
structure Numeral where
  negative : Bool
  whole : List Char
  fraction : List Char
  exponent : List Char

namespace Numeral

/-- The sign of a number. -/
def sign (n : Numeral) : List Char := if n.negative then ['-'] else []

/-- How a number is written. -/
def chars (n : Numeral) : List Char := n.sign ++ n.whole ++ n.fraction ++ n.exponent

/-- number = ['-'] whole [fraction] [exponent] -/
structure IsProper (n : Numeral) : Prop where
  whole : IsWhole n.whole
  fraction : IsFraction n.fraction
  exponent : IsExponent n.exponent

/-- The number without its fraction and exponent. -/
def integer (n : Numeral) : Int :=
  if n.negative then -Decimal.digitsValue n.whole else Decimal.digitsValue n.whole

/-- The number is written like an int, and is one. -/
def IsInt (n : Numeral) : Prop :=
  n.fraction = [] ∧ n.exponent = [] ∧ Decimal.fitsInt64 n.integer = true

/-- The value of a number. -/
inductive Denotes (n : Numeral) : JsonValue → Prop where
  | int : n.IsInt → Denotes n (.int (Int64.ofInt n.integer))
  | float {x} : ¬ n.IsInt → Decimal.readFloat n.chars = .ok x → Denotes n (.float x)

end Numeral

/-! ### Values -/

/-- The members that count: the last one of each name, in the place of the first. -/
def effective (members : List (Bytes × JsonValue)) : List (Bytes × JsonValue) :=
  members.foldl (fun ms m => setMember m.1 m.2 ms) []

mutual

/-- value = 'null' | 'true' | 'false' | number | string
| '[' [elements] ']' | '\x7b' [members] '\x7d' -/
inductive IsValue : Nat → List Glyph → JsonValue → Prop where
  | null {n} : IsValue n ("null".toList.map .char) .null
  | bool {n} (b : Bool) : IsValue n ((toString b).toList.map .char) (.bool b)
  | number {n v} {m : Numeral} : m.IsProper → m.Denotes v → IsValue n (m.chars.map .char) v
  | string {n gs cs} : IsString gs cs → IsValue n gs (.string (Bytes.ofChars cs))
  | emptyArray {n ws} : IsBlank ws → IsValue (n + 1) (.char '[' :: ws ++ [.char ']']) (.array [])
  | array {n gs vs} : IsElements n gs vs →
      IsValue (n + 1) (.char '[' :: gs ++ [.char ']']) (.array vs)
  | emptyObject {n ws} : IsBlank ws →
      IsValue (n + 1) (.char '\x7b' :: ws ++ [.char '\x7d']) (.object [])
  | object {n gs ms} : IsMembers n gs ms →
      IsValue (n + 1) (.char '\x7b' :: gs ++ [.char '\x7d']) (.object (effective ms))

/-- elements = value \x7b',' value\x7d, with white space around each value -/
inductive IsElements : Nat → List Glyph → List JsonValue → Prop where
  | one {n ws gs ws' v} : IsBlank ws → IsValue n gs v → IsBlank ws' →
      IsElements n (ws ++ gs ++ ws') [v]
  | more {n ws gs ws' v hs vs} : IsBlank ws → IsValue n gs v → IsBlank ws' → IsElements n hs vs →
      IsElements n (ws ++ gs ++ ws' ++ .char ',' :: hs) (v :: vs)

/-- members = member \x7b',' member\x7d -/
inductive IsMembers : Nat → List Glyph → List (Bytes × JsonValue) → Prop where
  | one {n gs m} : IsMember n gs m → IsMembers n gs [m]
  | more {n gs m hs ms} : IsMember n gs m → IsMembers n hs ms →
      IsMembers n (gs ++ .char ',' :: hs) (m :: ms)

/-- member = string ':' value, with white space around the string and the value -/
inductive IsMember : Nat → List Glyph → Bytes × JsonValue → Prop where
  | mk {n ws ks ws' gap gs gap' cs v} : IsBlank ws → IsString ks cs → IsBlank ws' → IsBlank gap →
      IsValue n gs v → IsBlank gap' →
      IsMember n (ws ++ ks ++ ws' ++ .char ':' :: gap ++ gs ++ gap') (Bytes.ofChars cs, v)

end

/-- A text that is one value, with white space around it. -/
inductive IsText (n : Nat) : List Glyph → JsonValue → Prop where
  | mk {ws gs ws' v} : IsBlank ws → IsValue n gs v → IsBlank ws' → IsText n (ws ++ gs ++ ws') v

/-- A value without white space around it is a text. -/
theorem IsText.of_value {n : Nat} {gs : List Glyph} {v : JsonValue} (h : IsValue n gs v) :
    IsText n gs v := by
  simpa using IsText.mk .nil h .nil

end Stencil.Json
