import Stencil.Pattern.Parser

/-!
# Search for matches

An expression is turned into a program of simple steps, and the program is tried
from every place of the text, the first one first. A step that offers two ways
tries the preferred one first. No step is tried twice at the same place: what
failed once fails again.
-/

namespace Stencil

namespace Regex

/-- A step of a program. -/
inductive Step where
  | accept
  | fail
  | char (cs : CharSet) (next : Nat)
  | look (b : Boundary) (next : Nat)
  | save (slot next : Nat)
  | split (first second : Nat)
  deriving Inhabited

/-- Add a step that chooses between going on with `x` and with `y`; the preferred way is
`x` if `greedy`. -/
def addChoice (greedy : Bool) (x y : Nat) (code : Array Step) : Nat × Array Step :=
  (code.size, code.push (if greedy then .split x y else .split y x))

/-- Add code for one or more times `one` before `next`. The answer is the start of the code
and the place of the choice to repeat. -/
def addLoop (greedy : Bool) (one : Nat → Array Step → Nat × Array Step) (next : Nat)
    (code : Array Step) : Nat × Nat × Array Step :=
  let again := code.size
  let (start, code) := one again (code.push .fail)
  (start, again, code.setIfInBounds again
    (if greedy then .split start next else .split next start))

/-- Add code for `n` times `one` before `next`. -/
def addTimes (one : Nat → Array Step → Nat × Array Step) :
    Nat → Nat → Array Step → Nat × Array Step
  | 0, next, code => (next, code)
  | n + 1, next, code =>
    let (start, code) := one next code
    addTimes one n start code

/-- Add code for at most `n` times `one` before `next`. -/
def addUpTo (greedy : Bool) (one : Nat → Array Step → Nat × Array Step) (next : Nat) :
    Nat → Array Step → Nat × Array Step
  | 0, code => (next, code)
  | n + 1, code =>
    let (rest, code) := addUpTo greedy one next n code
    let (start, code) := one rest code
    addChoice greedy start next code

mutual

/-- Add the code of an expression that goes on with `next`; the answer is its start. -/
def compile : Regex → (next : Nat) → Array Step → Nat × Array Step
  | .empty, next, code => (next, code)
  | .set cs, next, code => (code.size, code.push (.char cs next))
  | .look b, next, code => (code.size, code.push (.look b next))
  | .group n r, next, code =>
    let (start, code) := compile r code.size (code.push (.save (2 * n + 1) next))
    (code.size, code.push (.save (2 * n) start))
  | .concat rs, next, code => compileAll rs next code
  | .choice rs, next, code => compileAny rs next code
  | .star greedy r, next, code =>
    let (start, again, code) := addLoop greedy (compile r) next code
    if r.isNullable then addChoice greedy start next code else (again, code)
  | .plus greedy r, next, code =>
    let (start, _, code) := addLoop greedy (compile r) next code
    (start, code)
  | .opt greedy r, next, code =>
    let (start, code) := compile r next code
    addChoice greedy start next code
  | .times least most greedy r, next, code =>
    match most with
    | some most =>
      let (rest, code) := addUpTo greedy (compile r) next (most - least) code
      addTimes (compile r) least rest code
    | none =>
      let (start, again, code) := addLoop greedy (compile r) next code
      if least = 0 then
        if r.isNullable then addChoice greedy start next code else (again, code)
      else addTimes (compile r) (least - 1) start code

/-- Add the code of several expressions one after the other. -/
def compileAll : List Regex → (next : Nat) → Array Step → Nat × Array Step
  | [], next, code => (next, code)
  | r :: rs, next, code =>
    let (rest, code) := compileAll rs next code
    compile r rest code

/-- Add the code of several alternatives. -/
def compileAny : List Regex → (next : Nat) → Array Step → Nat × Array Step
  | [], _, code => (code.size, code.push .fail)
  | [r], next, code => compile r next code
  | r :: rs, next, code =>
    let (start, code) := compile r next code
    let (others, code) := compileAny rs next code
    addChoice true start others code

end

end Regex

/-- A regular expression ready to be searched for. -/
structure Pattern where
  text : Bytes
  code : Array Regex.Step
  start : Nat
  /-- The number of groups. -/
  groups : Nat
  /-- The names of groups by their numbers. -/
  names : List (Nat × Bytes)
  deriving Inhabited

namespace Pattern

/-- Read a regular expression. -/
def parse (text : Bytes) : Except PatternError Pattern := do
  let (r, groups, names) ← Regex.parse text
  let (start, code) := r.compile 0 #[.accept]
  return { text, code, start, groups, names }

end Pattern

/-- A text with the places between its characters. -/
structure Subject where
  text : Bytes
  /-- The characters with the places where they start; stray bytes stand for themselves as
  replacement characters. -/
  chars : Array (Char × Nat)

namespace Subject

/-- The characters of a text with their places. -/
def place : Nat → List Glyph → List (Char × Nat)
  | _, [] => []
  | at_, g :: gs => (g.toChar, at_) :: place (at_ + g.bytes.length) gs

/-- A text to search. -/
def ofBytes (text : Bytes) : Subject := ⟨text, (place 0 text.glyphs).toArray⟩

/-- The place before a character, counted in bytes. -/
def offset (s : Subject) (i : Nat) : Nat := ((s.chars[i]?).map (·.2)).getD s.text.length

/-- The bytes between two places. -/
def slice (s : Subject) (i j : Nat) : Bytes := (s.text.drop i).take (j - i)

end Subject

/-- The extents of a match and its groups as pairs of places. -/
abbrev Extents := Array (Option Nat)

/-- The extent of the match or of a group. -/
def Extents.span? (e : Extents) (n : Nat) : Option (Nat × Nat) := do
  let i ← (e[2 * n]?).join
  let j ← (e[2 * n + 1]?).join
  return (i, j)

/-- A way that is still to be tried: a step, a character, and the extents so far. -/
structure Attempt where
  step : Nat
  char : Nat
  extents : Extents

namespace Pattern

/-- Try ways until one is accepted. Steps that were tried at a place are kept in `tried`. -/
def try_ (p : Pattern) (s : Subject) :
    Nat → Array Bool → List Attempt → Option Extents × Array Bool
  | 0, tried, _ => (none, tried)
  | _, tried, [] => (none, tried)
  | fuel + 1, tried, a :: rest =>
    let key := a.char * p.code.size + a.step
    if tried.getD key true then try_ p s fuel tried rest
    else
      let tried := tried.setIfInBounds key true
      let go (step char : Nat) (extents : Extents) : Attempt := ⟨step, char, extents⟩
      match p.code.getD a.step .fail with
      | .accept =>
        (some (a.extents.setIfInBounds 1 (some (s.offset a.char))), tried)
      | .fail => try_ p s fuel tried rest
      | .char cs next =>
        match s.chars[a.char]? with
        | some (c, _) =>
          if cs.contains c then try_ p s fuel tried (go next (a.char + 1) a.extents :: rest)
          else try_ p s fuel tried rest
        | none => try_ p s fuel tried rest
      | .look b next =>
        let before := if a.char = 0 then none else (s.chars[a.char - 1]?).map (·.1)
        let after := (s.chars[a.char]?).map (·.1)
        if b.holds before after then try_ p s fuel tried (go next a.char a.extents :: rest)
        else try_ p s fuel tried rest
      | .save slot next =>
        let extents := a.extents.setIfInBounds slot (some (s.offset a.char))
        try_ p s fuel tried (go next a.char extents :: rest)
      | .split x y =>
        try_ p s fuel tried (go x a.char a.extents :: go y a.char a.extents :: rest)

/-- Search from a character on; `fuel` bounds the characters left. -/
def searchFrom (p : Pattern) (s : Subject) : Nat → Array Bool → Nat → Option Extents
  | 0, _, _ => none
  | fuel + 1, tried, i =>
    let extents : Extents :=
      (Array.replicate (2 * (p.groups + 1)) none).setIfInBounds 0 (some (s.offset i))
    let steps := 2 * p.code.size * (s.chars.size + 2) + 2
    match p.try_ s steps tried [⟨p.start, i, extents⟩] with
    | (some e, _) => some e
    | (none, tried) => p.searchFrom s fuel tried (i + 1)

/-- The first match that starts at a character or after it. -/
def find? (p : Pattern) (s : Subject) (i : Nat) : Option Extents :=
  if s.chars.size < i then none
  else
    p.searchFrom s (s.chars.size + 1 - i)
      (Array.replicate (p.code.size * (s.chars.size + 1)) false) i

/-- The number of characters before a place. -/
def charAt (s : Subject) (place : Nat) : Nat :=
  (s.chars.findIdx? fun (_, at_) => place ≤ at_).getD s.chars.size

/-- The matches one after the other from a character on, at most `n` of them. A match of
the empty text right after another match is passed over. -/
def findFrom (p : Pattern) (s : Subject) : Nat → (n : Nat) → (i : Nat) → (last : Option Nat) →
    List Extents
  | 0, _, _, _ => []
  | _, 0, _, _ => []
  | fuel + 1, n + 1, i, last =>
    match p.find? s i with
    | none => []
    | some e =>
      let (start, stop) := (e.span? 0).getD (0, 0)
      let isEmpty := stop = s.offset i
      let next := if isEmpty then i + 1 else charAt s stop
      if isEmpty && last = some start then findFrom p s fuel (n + 1) next (some stop)
      else e :: findFrom p s fuel n next (some stop)

/-- The matches in a text, at most `limit` of them if that is not negative. -/
def findAll (p : Pattern) (text : Bytes) (limit : Int) : List Extents :=
  let s := Subject.ofBytes text
  let n := if limit < 0 then text.length + 1 else limit.toNat
  p.findFrom s (2 * text.length + 2) n 0 none

/-- Whether a text has a match. -/
def hasMatch (p : Pattern) (text : Bytes) : Bool := (p.find? (.ofBytes text) 0).isSome

/-- The matches whose texts are replaced, from a character on; `done` is the end of the
match before. -/
def replacedFrom (p : Pattern) (s : Subject) : Nat → (i done : Nat) → List (Extents × Bool)
  | 0, _, _ => []
  | fuel + 1, i, done =>
    match p.find? s i with
    | none => []
    | some e =>
      let (start, stop) := (e.span? 0).getD (0, 0)
      let next := max (i + 1) (charAt s stop)
      (e, done < stop || start = 0) :: replacedFrom p s fuel next stop

/-- Cut a text at the given matches: the pieces between them, and the matches to replace. -/
def replacements (p : Pattern) (text : Bytes) : List (Extents × Bool) :=
  p.replacedFrom (.ofBytes text) (text.length + 2) 0 0

/-- Put texts in the place of matches; `done` is the end of the match before. -/
def substitute (text : Bytes) : (done : Nat) → List (Extents × Option Bytes) → Bytes
  | done, [] => text.drop done
  | done, (e, new) :: rest =>
    let (start, stop) := (e.span? 0).getD (0, 0)
    (text.drop done).take (start - done) ++ new.getD [] ++ substitute text stop rest

/-- The pieces of a text between the matches in it, at most `limit` of them if that is
not negative. -/
def split (p : Pattern) (text : Bytes) (limit : Int) : List Bytes :=
  if limit = 0 then []
  else if !p.text.isEmpty && text.isEmpty then [[]]
  else
    let spans := (p.findAll text limit).map fun e => (e.span? 0).getD (0, 0)
    let (pieces, beg, stop) := spans.foldl step ([], 0, 0)
    (if stop = text.length then pieces else text.drop beg :: pieces).reverse
where
  /-- Take in one more match. -/
  step (acc : List Bytes × Nat × Nat) (span : Nat × Nat) : List Bytes × Nat × Nat :=
    let (pieces, beg, stop) := acc
    if 0 < limit && (pieces.length : Int) = limit - 1 then (pieces, beg, stop)
    else
      let piece := (text.drop beg).take (span.1 - beg)
      (if span.2 ≠ 0 then piece :: pieces else pieces, span.2, span.1)

end Pattern

end Stencil
