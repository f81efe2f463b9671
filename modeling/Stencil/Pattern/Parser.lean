import Stencil.Pattern.Basic

/-!
# The text of regular expressions

A regular expression is read from left to right. What has been read of the group
around the current place is a list of alternatives, the last of which is a list of
items that still grows; the groups around it wait on a stack.
-/

namespace Stencil

namespace Regex

/-- The options that can be switched within an expression. -/
structure Flags where
  fold : Bool := false
  multiLine : Bool := false
  dotAll : Bool := false
  lazy : Bool := false
  deriving Inhabited

/-- A group that is being read; lists hold the last part first. -/
structure OpenGroup where
  /-- The number of the group if its extent is recorded. -/
  index : Option Nat := none
  /-- The options to return to after the group. -/
  flags : Flags := {}
  alternatives : List Regex := []
  items : List Regex := []
  deriving Inhabited

/-- Several expressions one after the other. -/
def sequenceOf : List Regex → Regex
  | [] => .empty
  | [r] => r
  | rs => .concat rs

/-- The expression of a group. -/
def OpenGroup.close (g : OpenGroup) : Regex :=
  let last := sequenceOf g.items.reverse
  match g.alternatives with
  | [] => last
  | alts => .choice ((last :: alts).reverse)

/-- How far an expression has been read. -/
structure Progress where
  whole : Bytes
  flags : Flags := {}
  groups : Nat := 0
  /-- The names of groups by their numbers. -/
  names : List (Nat × Bytes) := []
  current : OpenGroup := {}
  outer : List OpenGroup := []
  /-- The text from the last repetition operator on, if it was the last thing read. -/
  lastRepeat : Option Bytes := none
  deriving Inhabited

namespace Progress

/-- Add an item to the current group. -/
def add (p : Progress) (r : Regex) : Progress :=
  { p with current := { p.current with items := r :: p.current.items } }

/-- Add a character. -/
def literal (p : Progress) (c : Nat) : Progress :=
  p.add (.set { items := [⟨[.between c c], false⟩], fold := p.flags.fold })

/-- Add a group of characters. -/
def charGroup (p : Progress) (i : ClassItem) : Progress :=
  p.add (.set { items := [i], fold := p.flags.fold })

/-- Begin a group. -/
def openGroup (p : Progress) (index : Option Nat) : Progress :=
  { p with current := { index, flags := p.flags }, outer := p.current :: p.outer }

/-- Begin a group whose extent is recorded. -/
def openNumbered (p : Progress) : Progress :=
  { p.openGroup (some (p.groups + 1)) with groups := p.groups + 1 }

/-- End the current group. -/
def closeGroup (p : Progress) : Except PatternError Progress :=
  match p.outer with
  | [] => CharClass.fault .unexpectedParen p.whole
  | g :: outer =>
    let body := p.current.close
    let r := match p.current.index with
      | some n => .group n body
      | none => body
    .ok { p with current := { g with items := r :: g.items }, outer, flags := p.current.flags }

/-- Begin the next alternative. -/
def bar (p : Progress) : Progress :=
  { p with current := { p.current with
      alternatives := sequenceOf p.current.items.reverse :: p.current.alternatives, items := [] } }

/-- Apply a repetition operator to the last item; `s` is the text from the operator on
and `t` the text after it. -/
def repeated (p : Progress) (make : Bool → Regex → Regex) (s t : Bytes) :
    Except PatternError (Progress × Bytes) :=
  let isLazy := Bytes.startsWith t "?"
  let t := if isLazy then t.drop 1 else t
  match p.lastRepeat, p.current.items with
  | some last, _ => CharClass.fault .repeatOp (CharClass.before last t)
  | none, [] => CharClass.fault .missingArgument (CharClass.before s t)
  | none, r :: items =>
    let r := make (isLazy == p.flags.lazy) r
    if r.isWithin 1000 then
      .ok ({ p with current := { p.current with items := r :: items }, lastRepeat := some s }, t)
    else CharClass.fault .repeatSize (CharClass.before s t)

end Progress

/-- A number without leading zeros; numbers that are too large have no value. -/
def readCount (s : Bytes) : Option (Option Nat × Bytes) :=
  let digits := s.takeWhile fun b => 48 ≤ b && b ≤ 57
  let rest := s.drop digits.length
  let value := digits.foldl (fun n b => 10 * n + (b.toNat - 48)) 0
  match digits with
  | [] => none
  | 48 :: _ :: _ => none
  | _ => some (if value < 1000000000 then some value else none, rest)

/-- The bounds of a counted repetition: both are missing if one is too large. -/
def readBounds (s : Bytes) : Option (Option (Nat × Option Nat) × Bytes) := do
  let closing (bounds : Option (Nat × Option Nat)) (t : Bytes) :
      Option (Option (Nat × Option Nat) × Bytes) :=
    if Bytes.startsWith t "\x7d" then some (bounds, t.drop 1) else none
  let (least, t) ← readCount (s.drop 1)
  match t with
  | 44 :: t =>
    if Bytes.startsWith t "\x7d" then closing (least.map (·, none)) t
    else do
      let (most, t) ← readCount t
      closing (do return (← least, some (← most))) t
  | t => closing (least.map fun n => (n, some n)) t

/-- Whether bounds are in order and not too large. -/
def boundsOk (least : Nat) (most : Option Nat) : Bool :=
  least ≤ 1000 && match most with
    | some m => m ≤ 1000 && least ≤ m
    | none => true

/-- Whether a name may be given to a group. -/
def isGroupName (name : Bytes) : Bool :=
  !name.isEmpty && name.all fun b => isWordChar (Char.ofNat b.toNat)

/-- The options after a question mark: whether the sign is negative, whether an option
was seen since, and the options so far. -/
def readFlags (s : Bytes) (p : Progress) :
    Nat → (minus seen : Bool) → Flags → Bytes → Except PatternError (Progress × Bytes)
  | 0, _, _, _, t => CharClass.fault .perlOp (CharClass.before s t)
  | fuel + 1, minus, seen, f, t => do
    if t.isEmpty then CharClass.fault .perlOp (CharClass.before s t)
    else
      let (c, t) ← CharClass.next t
      let on := !minus
      match c with
      | 'i' => readFlags s p fuel minus true { f with fold := on } t
      | 'm' => readFlags s p fuel minus true { f with multiLine := on } t
      | 's' => readFlags s p fuel minus true { f with dotAll := on } t
      | 'U' => readFlags s p fuel minus true { f with lazy := on } t
      | '-' =>
        if minus then CharClass.fault .perlOp (CharClass.before s t)
        else readFlags s p fuel true false f t
      | c =>
        if minus && !seen then CharClass.fault .perlOp (CharClass.before s t)
        else if c = ':' then return ({ p.openGroup none with flags := f }, t)
        else if c = ')' then return ({ p with flags := f }, t)
        else CharClass.fault .perlOp (CharClass.before s t)

/-- A group with a question mark: one with a name, one that is not recorded, or a change
of options. -/
def readSpecial (p : Progress) (s : Bytes) : Except PatternError (Progress × Bytes) := do
  let named : Option Nat :=
    if Bytes.startsWith s "(?P<" && 4 < s.length then some 4
    else if Bytes.startsWith s "(?<" && 3 < s.length then some 3
    else none
  match named with
  | none => readFlags s p (s.length + 1) false false p.flags (s.drop 2)
  | some start =>
    match Bytes.cut? s ">" with
    | none => do
      CharClass.checkChars s
      CharClass.fault .namedCapture s
    | some (front, rest) => do
      let name := front.drop start
      CharClass.checkChars name
      if isGroupName name then
        let p := p.openNumbered
        return ({ p with names := (p.groups, name) :: p.names }, rest)
      else CharClass.fault .namedCapture (front ++ ">")

/-- Add the characters of a text as they are. -/
def addLiterals (p : Progress) (s : Bytes) : Except PatternError Progress :=
  go s.length p s
where
  /-- Add one character after the other. -/
  go : Nat → Progress → Bytes → Except PatternError Progress
    | 0, p, _ => .ok p
    | _, p, [] => .ok p
    | fuel + 1, p, s => do
      let (c, rest) ← CharClass.next s
      go fuel (p.literal c.toNat) rest

/-- Read what starts with a backslash. -/
def readEscape (p : Progress) (s : Bytes) : Except PatternError (Progress × Bytes) := do
  let t := s.drop 2
  let single : Except PatternError (Progress × Bytes) := do
    let (c, t) ← CharClass.escape s
    return (p.literal c, t)
  match s[1]? with
  | none => single
  | some b =>
    match Char.ofNat b.toNat with
    | 'A' => return (p.add (.look .beginText), t)
    | 'b' => return (p.add (.look .word), t)
    | 'B' => return (p.add (.look .noWord), t)
    | 'z' => return (p.add (.look .endText), t)
    | 'C' => CharClass.fault .escape (s.take 2)
    | 'Q' =>
      match Bytes.cut? t "\\E" with
      | some (lit, rest) => return (← addLiterals p lit, rest)
      | none => return (← addLiterals p t, [])
    | _ =>
      if CharClass.startsProperty s then
        let (i, t) ← CharClass.property s
        return (p.charGroup i, t)
      else
        match CharClass.letterGroup? b with
        | some i => return (p.charGroup i, t)
        | none => single

/-- Read the next part of an expression. -/
def readPart (p : Progress) (s : Bytes) : Except PatternError (Progress × Bytes) := do
  let t := s.drop 1
  let fresh : Progress := { p with lastRepeat := none }
  match Char.ofNat (s.headD 0).toNat with
  | '(' =>
    if Bytes.startsWith t "?" then readSpecial fresh s else return (fresh.openNumbered, t)
  | '|' => return (fresh.bar, t)
  | ')' => return (← fresh.closeGroup, t)
  | '^' => return (fresh.add (.look (if p.flags.multiLine then .beginLine else .beginText)), t)
  | '$' => return (fresh.add (.look (if p.flags.multiLine then .endLine else .endText)), t)
  | '.' =>
    let items : List ClassItem := if p.flags.dotAll then [] else [⟨[.between 10 10], false⟩]
    return (fresh.add (.set { items, negated := true }), t)
  | '[' =>
    let (cs, t) ← CharClass.bracketed p.flags.fold s
    return (fresh.add (.set cs), t)
  | '*' => p.repeated manyOf s t
  | '+' => p.repeated someOf s t
  | '?' => p.repeated atMostOne s t
  | '{' =>
    match readBounds s with
    | none => return (fresh.literal 0x7B, t)
    | some (some (least, most), t) =>
      if boundsOk least most then p.repeated (.times least most) s t
      else CharClass.fault .repeatSize (CharClass.before s t)
    | some (none, t) => CharClass.fault .repeatSize (CharClass.before s t)
  | '\\' => readEscape fresh s
  | _ =>
    let (c, t) ← CharClass.next s
    return (fresh.literal c.toNat, t)

/-- Read the parts of an expression to its end. -/
def readParts : Nat → Progress → Bytes → Except PatternError Progress
  | 0, p, _ => .ok p
  | _, p, [] => .ok p
  | fuel + 1, p, s => do
    let (p, t) ← readPart p s
    readParts fuel p t

/-- Read a regular expression; the number of its groups and their names go with it. -/
def parse (text : Bytes) : Except PatternError (Regex × Nat × List (Nat × Bytes)) := do
  let p ← readParts (text.length + 1) { whole := text } text
  if p.outer.isEmpty then return (p.current.close, p.groups, p.names)
  else CharClass.fault .missingParen text

end Regex

end Stencil
