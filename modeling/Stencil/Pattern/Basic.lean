import Stencil.Text.Case
import Stencil.Text.Script

/-!
# Regular expressions

A regular expression describes texts, character by character. Of several ways to
match, those that prefer earlier alternatives and, unless told otherwise, more
repetitions come first.
-/

namespace Stencil

/-- A part of a character class: the characters in the ranges, or all others. -/
structure ClassItem where
  ranges : List CodeRange
  negated : Bool := false
  deriving Inhabited

/-- A set of characters. With `fold`, characters that differ only in case count as the
same. -/
structure CharSet where
  items : List ClassItem
  fold : Bool := false
  negated : Bool := false
  deriving Inhabited

/-- Whether a character belongs to a part of a class. -/
def ClassItem.contains (fold : Bool) (i : ClassItem) (c : Char) : Bool :=
  let inRanges (c : Char) : Bool := i.ranges.any (·.contains c.toNat)
  (if fold then (caseClass c).any inRanges else inRanges c) != i.negated

/-- Whether a character belongs to a set. -/
def CharSet.contains (s : CharSet) (c : Char) : Bool :=
  s.items.any (·.contains s.fold c) != s.negated

/-- A condition on the place between two characters. -/
inductive Boundary where
  | beginText | endText | beginLine | endLine | word | noWord
  deriving DecidableEq, Repr, Inhabited

/-- Whether a character is part of a word. -/
def isWordChar (c : Char) : Bool := c.isAlphanum || c = '_'

/-- Whether a condition holds between two characters; at the ends of the text there is
none. -/
def Boundary.holds (b : Boundary) (before after : Option Char) : Bool :=
  let isWord (c : Option Char) : Bool := (c.map isWordChar).getD false
  match b with
  | .beginText => before.isNone
  | .endText => after.isNone
  | .beginLine => before.isNone || before == some '\n'
  | .endLine => after.isNone || after == some '\n'
  | .word => isWord before != isWord after
  | .noWord => isWord before == isWord after

/-- A regular expression. -/
inductive Regex where
  | empty
  | set (cs : CharSet)
  | look (b : Boundary)
  /-- A group whose extent is recorded. -/
  | group (index : Nat) (r : Regex)
  | concat (rs : List Regex)
  | choice (rs : List Regex)
  | star (greedy : Bool) (r : Regex)
  | plus (greedy : Bool) (r : Regex)
  | opt (greedy : Bool) (r : Regex)
  /-- At least `least` and at most `most` times. -/
  | times (least : Nat) (most : Option Nat) (greedy : Bool) (r : Regex)
  deriving Inhabited

namespace Regex

mutual

/-- Whether an expression matches the empty text somewhere. -/
def isNullable : Regex → Bool
  | .empty | .look _ | .star _ _ | .opt _ _ => true
  | .set _ => false
  | .group _ r | .plus _ r => r.isNullable
  | .times least _ _ r => least = 0 || r.isNullable
  | .concat rs => allNullable rs
  | .choice rs => anyNullable rs

/-- Whether all of several expressions are nullable. -/
def allNullable : List Regex → Bool
  | [] => true
  | r :: rs => r.isNullable && allNullable rs

/-- Whether one of several expressions is nullable. -/
def anyNullable : List Regex → Bool
  | [] => false
  | r :: rs => r.isNullable || anyNullable rs

end

mutual

/-- Whether counted repetitions, multiplied where they are nested, stay within `n`. -/
def isWithin (n : Nat) : Regex → Bool
  | .times _ (some 0) _ _ => true
  | .times least most _ r =>
    let m := most.getD least
    m ≤ n && r.isWithin (if m = 0 then n else n / m)
  | .group _ r | .star _ r | .plus _ r | .opt _ r => r.isWithin n
  | .concat rs | .choice rs => areWithin n rs
  | .empty | .set _ | .look _ => true

/-- Whether the counted repetitions of several expressions stay within `n`. -/
def areWithin (n : Nat) : List Regex → Bool
  | [] => true
  | r :: rs => r.isWithin n && areWithin n rs

end

/-- Any number of repetitions; repeating nothing, or a repetition of the same kind, adds
nothing. -/
def manyOf (greedy : Bool) : Regex → Regex
  | .empty => .empty
  | r@(.star g _) => if g = greedy then r else .star greedy r
  | r => .star greedy r

/-- At least one repetition. -/
def someOf (greedy : Bool) : Regex → Regex
  | .empty => .empty
  | r@(.plus g _) => if g = greedy then r else .plus greedy r
  | r => .plus greedy r

/-- At most one. -/
def atMostOne (greedy : Bool) : Regex → Regex
  | .empty => .empty
  | r@(.opt g _) => if g = greedy then r else .opt greedy r
  | r => .opt greedy r

end Regex

/-- What is wrong with the text of a regular expression. -/
inductive PatternFault where
  | charRange | escape | namedCapture | perlOp | repeatOp | repeatSize | encoding
  | missingBracket | missingParen | missingArgument | trailingBackslash | unexpectedParen
  deriving DecidableEq, Repr, Inhabited

/-- The wording of a fault. -/
def PatternFault.text : PatternFault → String
  | .charRange => "invalid character class range"
  | .escape => "invalid escape sequence"
  | .namedCapture => "invalid named capture"
  | .perlOp => "invalid or unsupported Perl syntax"
  | .repeatOp => "invalid nested repetition operator"
  | .repeatSize => "invalid repeat count"
  | .encoding => "invalid UTF-8"
  | .missingBracket => "missing closing ]"
  | .missingParen => "missing closing )"
  | .missingArgument => "missing argument to repetition operator"
  | .trailingBackslash => "trailing backslash at end of expression"
  | .unexpectedParen => "unexpected )"

/-- A fault with the text it was found in. -/
structure PatternError where
  fault : PatternFault
  text : Bytes
  deriving DecidableEq, Repr, Inhabited

/-- The wording of an error. -/
def PatternError.message (e : PatternError) : Bytes :=
  Bytes.ofString "error parsing regexp: " ++ e.fault.text ++ ": `" ++ e.text ++ "`"

/-!
## Character classes

How sets of characters are written: escapes, ranges in brackets, and named groups.
-/

/-- A range of characters. -/
def CodeRange.between (lo hi : Nat) : CodeRange := { lo, hi, step := 1 }

namespace CharClass

/-- Fail with a fault in a text. -/
def fault {α : Type} (f : PatternFault) (text : Bytes) : Except PatternError α := .error ⟨f, text⟩

/-- The part of a text before a given rest of it. -/
def before (s rest : Bytes) : Bytes := s.take (s.length - rest.length)

/-- The first character of a text. An empty text gives the replacement character. -/
def next (s : Bytes) : Except PatternError (Char × Bytes) :=
  match s with
  | [] => .ok (replacementChar, [])
  | s =>
    match leadingChar? s with
    | some (c, n) => .ok (c, s.drop n)
    | none => fault .encoding s

/-- Fail at the first byte of a text that is not part of a character. -/
def checkChars (s : Bytes) : Except PatternError Unit :=
  go s.length s
where
  /-- Pass over the characters of a text. -/
  go : Nat → Bytes → Except PatternError Unit
    | 0, _ => .ok ()
    | _, [] => .ok ()
    | fuel + 1, s => do
      let (_, rest) ← next s
      go fuel rest

/-- Up to `n` more octal digits. -/
def octal : Nat → Nat → Bytes → Nat × Bytes
  | 0, v, s => (v, s)
  | _, v, [] => (v, [])
  | n + 1, v, b :: s =>
    if 48 ≤ b && b ≤ 55 then octal n (8 * v + (b.toNat - 48)) s else (v, b :: s)

/-- Hexadecimal digits up to a closing brace; the rest of the text tells how far a bad
number was read. -/
def hexDigits : Nat → Nat → Nat → Bytes → Except (Option PatternError × Bytes) (Nat × Bytes)
  | 0, _, _, s => .error (none, s)
  | fuel + 1, count, v, s =>
    if s.isEmpty then .error (none, s) else
      match next s with
      | .error e => .error (some e, s)
      | .ok (c, rest) =>
        if c = '}' then if count = 0 then .error (none, rest) else .ok (v, rest)
        else match hexValue? c with
          | none => .error (none, rest)
          | some d =>
            let v := 16 * v + d
            if 0x10FFFF < v then .error (none, rest) else hexDigits fuel (count + 1) v rest

/-- A character given by its number. -/
def hexEscape (s t : Bytes) : Except PatternError (Nat × Bytes) := do
  let bad (rest : Bytes) : Except PatternError (Nat × Bytes) := fault .escape (before s rest)
  if t.isEmpty then bad t
  else
    let (c, t) ← next t
    if c = '{' then
      match hexDigits (t.length + 1) 0 0 t with
      | .ok r => return r
      | .error (some e, _) => throw e
      | .error (none, rest) => bad rest
    else
      let (d, t) ← next t
      match hexValue? c, hexValue? d with
      | some x, some y => return (16 * x + y, t)
      | _, _ => bad t

/-- A single character after a backslash, by its number. -/
def escape (s : Bytes) : Except PatternError (Nat × Bytes) := do
  let t := s.drop 1
  if t.isEmpty then fault .trailingBackslash []
  let (c, t) ← next t
  let bad : Except PatternError (Nat × Bytes) := fault .escape (before s t)
  match c with
  | 'a' => return (7, t)
  | 'f' => return (12, t)
  | 'n' => return (10, t)
  | 'r' => return (13, t)
  | 't' => return (9, t)
  | 'v' => return (11, t)
  | 'x' => hexEscape s t
  | '0' => return octal 2 0 t
  | c =>
    if '1' ≤ c && c ≤ '7' then
      match t with
      | b :: _ =>
        if 48 ≤ b && b ≤ 55 then return octal 2 (c.toNat - 48) t else bad
      | [] => bad
    else if c.toNat < 0x80 && !c.isAlphanum then return (c.toNat, t)
    else bad

private def range (lo hi : Char) : CodeRange := .between lo.toNat hi.toNat

private def digits : List CodeRange := [range '0' '9']
private def wordRanges : List CodeRange := [range '0' '9', range 'A' 'Z', range '_' '_', range 'a' 'z']
private def blanks : List CodeRange := [.between 9 10, .between 12 13, range ' ' ' ']

/-- The groups written as a backslash and a letter. -/
def letterGroup? (c : UInt8) : Option ClassItem :=
  match Char.ofNat c.toNat with
  | 'd' => some ⟨digits, false⟩
  | 'D' => some ⟨digits, true⟩
  | 's' => some ⟨blanks, false⟩
  | 'S' => some ⟨blanks, true⟩
  | 'w' => some ⟨wordRanges, false⟩
  | 'W' => some ⟨wordRanges, true⟩
  | _ => none

/-- The groups written by name between colons. -/
def colonGroups : List (String × List CodeRange) :=
  [("alnum", [range '0' '9', range 'A' 'Z', range 'a' 'z']),
   ("alpha", [range 'A' 'Z', range 'a' 'z']),
   ("ascii", [.between 0 0x7F]),
   ("blank", [.between 9 9, range ' ' ' ']),
   ("cntrl", [.between 0 0x1F, .between 0x7F 0x7F]),
   ("digit", digits),
   ("graph", [range '!' '~']),
   ("lower", [range 'a' 'z']),
   ("print", [range ' ' '~']),
   ("punct", [range '!' '/', range ':' '@', range '[' '`', .between 0x7B 0x7E]),
   ("space", [.between 9 13, range ' ' ' ']),
   ("upper", [range 'A' 'Z']),
   ("word", wordRanges),
   ("xdigit", [range '0' '9', range 'A' 'F', range 'a' 'f'])]

/-- The group a name between colons stands for. -/
def colonGroup? (name : Bytes) : Option ClassItem := do
  let name ← name.toString?
  match name.toList with
  | '^' :: cs => (colonGroups.lookup (String.ofList cs)).map (⟨·, true⟩)
  | _ => (colonGroups.lookup name).map (⟨·, false⟩)

/-- The characters of a general category, of a family of categories, or of a script. -/
def propertyRanges? (name : Bytes) : Option (List CodeRange) := do
  let name ← name.toString?
  if name = "Any" then return [.between 0 0x10FFFF]
  let found := if name.length = 1 || name.length = 2 then
      Category.all.filter fun k => name.toList.isPrefixOf k.code.toList
    else []
  if found.isEmpty then scriptRanges? name else return found.flatMap Category.ranges

/-- A group of characters by a property, written with a backslash and `p`. -/
def property (s : Bytes) : Except PatternError (ClassItem × Bytes) := do
  let upper := s.getD 1 0 == 80
  let (c, t) ← next (s.drop 2)
  let (seq, name, t) ←
    if c ≠ '{' then
      let seq := before s t
      pure (seq, seq.drop 2, t)
    else
      match Bytes.cut? s "\x7d" with
      | none => do
        checkChars s
        fault .charRange s
      | some (front, rest) => do
        let name := front.drop 3
        checkChars name
        pure (front ++ "\x7d", name, rest)
  let negated := upper != Bytes.startsWith name "^"
  let name := if Bytes.startsWith name "^" then name.drop 1 else name
  match propertyRanges? name with
  | some ranges => return (⟨ranges, negated⟩, t)
  | none => fault .charRange seq

/-- Whether a text starts with a group by a property. -/
def startsProperty : Bytes → Bool
  | 92 :: b :: _ => b == 112 || b == 80
  | _ => false

/-- A character in brackets. -/
def member (whole s : Bytes) : Except PatternError (Nat × Bytes) :=
  match s with
  | [] => fault .missingBracket whole
  | 92 :: _ => escape s
  | s => do
    let (c, t) ← next s
    return (c.toNat, t)

/-- A character or a range of characters in brackets. -/
def rangeItem (whole s : Bytes) : Except PatternError (ClassItem × Bytes) := do
  let (lo, t) ← member whole s
  match t with
  | 45 :: b :: rest =>
    if b == 93 then return (⟨[.between lo lo], false⟩, t)
    let (hi, t) ← member whole (b :: rest)
    if hi < lo then fault .charRange (before s t)
    return (⟨[.between lo hi], false⟩, t)
  | _ => return (⟨[.between lo lo], false⟩, t)

/-- A part of a class in brackets. -/
def classItem (whole s : Bytes) : Except PatternError (ClassItem × Bytes) := do
  let named : Option (Bytes × Bytes) := match s with
    | 91 :: 58 :: t => if t.isEmpty then none else Bytes.cut? t ":]"
    | _ => none
  match named with
  | some (name, t) =>
    match colonGroup? name with
    | some g => return (g, t)
    | none => fault .charRange (Bytes.ofString "[:" ++ name ++ ":]")
  | none =>
    if startsProperty s then property s
    else
      match s with
      | 92 :: b :: t =>
        match letterGroup? b with
        | some g => return (g, t)
        | none => rangeItem whole s
      | s => rangeItem whole s

/-- The parts of a class up to the closing bracket, which cannot be the first of them. -/
def classItems (whole : Bytes) : Nat → Bool → List ClassItem → Bytes → Except PatternError (List ClassItem × Bytes)
  | 0, _, items, s => .ok (items, s)
  | fuel + 1, first, items, s =>
    if Bytes.startsWith s "]" && !first then .ok (items, s.drop 1)
    else do
      let (i, t) ← classItem whole s
      classItems whole fuel false (i :: items) t

/-- A class in brackets. -/
def bracketed (fold : Bool) (s : Bytes) : Except PatternError (CharSet × Bytes) := do
  let t := s.drop 1
  let negated := Bytes.startsWith t "^"
  let t := if negated then t.drop 1 else t
  let (items, rest) ← classItems s (t.length + 2) true [] t
  return (⟨items.reverse, fold, negated⟩, rest)

end CharClass

end Stencil
