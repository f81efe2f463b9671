import Stencil.Decimal.Numeral
import Stencil.Text.Category

/-!
# Replacement texts

What is put in the place of a match may refer to the match and its groups: a backslash before a digit
stands for the group of that number, and the whole match is group zero. Such a text is rewritten into a
template, where a dollar sign introduces the number or the name of a group and two stand for one, and
the template is expanded for each match.
-/

namespace Stencil

/-- The byte before a digit that refers to a group. -/
def backslash : UInt8 := 92

/-- The byte that introduces a group in a template. -/
def dollar : UInt8 := 36

/-- The byte before the number or the name of a group in a template. -/
def openBrace : UInt8 := 123

/-- The byte after the number or the name of a group in a template. -/
def closeBrace : UInt8 := 125

/-- The value of a byte that is a decimal digit. -/
def digitOf? (b : UInt8) : Option Nat :=
  if 48 ≤ b && b ≤ 57 then some (b.toNat - 48) else none

/-! ### Rewriting into a template -/

/-- Pairs of backslashes, one more and a digit, at the front of a text: the number of the pairs, the
digit, and what follows it. -/
def referenceHere? : Bytes → Option (Nat × UInt8 × Bytes)
  | b :: c :: rest =>
    if b = backslash then
      if c = backslash then
        (referenceHere? rest).map fun (pairs, digit, after) => (pairs + 1, digit, after)
      else if (digitOf? c).isSome then some (0, c, rest)
      else none
    else none
  | _ => none

/-- A digit after a backslash, with the pairs of backslashes before it, in a text. -/
structure Reference where
  before : Bytes
  pairs : Nat
  digit : UInt8
  after : Bytes
  deriving DecidableEq, Repr

namespace Reference

/-- The pairs of backslashes. -/
def slashes (m : Reference) : Bytes := List.replicate (2 * m.pairs) backslash

/-- The text from the pairs of backslashes to the digit. -/
def text (m : Reference) : Bytes := m.slashes ++ [backslash, m.digit]

/-- Whether a backslash before all this escapes the digit. -/
def isEscaped (m : Reference) : Bool := m.before.getLast? = some backslash

end Reference

/-- The first reference in a text. -/
def nextReference? : Bytes → Option Reference
  | [] => none
  | b :: rest =>
    match referenceHere? (b :: rest) with
    | some (pairs, digit, after) => some { before := [], pairs, digit, after }
    | none => (nextReference? rest).map fun m => { m with before := b :: m.before }

theorem length_of_referenceHere? {t after : Bytes} {pairs : Nat} {digit : UInt8}
    (h : referenceHere? t = some (pairs, digit, after)) : after.length < t.length := by
  induction t using referenceHere?.induct generalizing pairs with
  | case1 rest ih =>
    rw [referenceHere?, if_pos rfl, if_pos rfl, Option.map_eq_some_iff] at h
    obtain ⟨⟨_, _, _⟩, hrest, heq⟩ := h
    cases heq
    have hlen := ih hrest
    simp only [List.length_cons]
    omega
  | case2 c rest hc hd =>
    rw [referenceHere?, if_pos rfl, if_neg hc, if_pos hd] at h
    cases h
    simp only [List.length_cons]
    omega
  | case3 c rest hc hd =>
    rw [referenceHere?, if_pos rfl, if_neg hc, if_neg hd] at h
    cases h
  | case4 b c rest hb =>
    rw [referenceHere?, if_neg hb] at h
    cases h
  | case5 t ht =>
    rw [referenceHere?.eq_def] at h
    split at h
    · exact absurd rfl (ht _ _ _)
    · cases h

theorem length_of_nextReference? {t : Bytes} {m : Reference} (h : nextReference? t = some m) :
    m.after.length < t.length := by
  induction t generalizing m with
  | nil => cases h
  | cons b t ih =>
    rw [nextReference?] at h
    split at h
    case h_1 pairs digit after hhere =>
      cases h
      exact length_of_referenceHere? hhere
    case h_2 =>
      obtain ⟨m', hm', rfl⟩ := Option.map_eq_some_iff.1 h
      have hlen := ih hm'
      exact Nat.lt_succ_of_lt hlen

/-- Read two backslashes as one. -/
def pairBackslashes : Bytes → Bytes
  | [] => []
  | [b] => [b]
  | b :: c :: rest =>
    if b = backslash && c = backslash then backslash :: pairBackslashes rest
    else b :: pairBackslashes (c :: rest)

/-- Double the dollar signs. -/
def escapeDollars (b : Bytes) : Bytes :=
  b.flatMap fun c => if c = dollar then [dollar, dollar] else [c]

/-- Rewrite the references of a text. Up to the last of them two backslashes stand for one. -/
def convertReferences (t : Bytes) : Bytes :=
  match h : nextReference? t with
  | none => t
  | some m =>
    have : m.after.length < t.length := length_of_nextReference? h
    if m.isEscaped then pairBackslashes (m.before ++ m.text) ++ convertReferences m.after
    else
      pairBackslashes (m.before ++ m.slashes) ++ [dollar, openBrace, m.digit, closeBrace] ++
        convertReferences m.after
termination_by t.length

/-- The template that a replacement text stands for. -/
def convertReplacement (b : Bytes) : Bytes := convertReferences (escapeDollars b)

/-! ### Expanding a template -/

/-- Whether a glyph may be part of the name of a group. -/
def Glyph.isGroupNamePart : Glyph → Bool
  | .char c =>
    if c.toNat < 0x80 then c.isAlpha || Decimal.isDigit c || c == '_'
    else isLetter c || Category.decimalDigit.contains c.toNat
  | .stray _ => false

/-- The name at the front of a text, and what follows it. -/
def spanGroupName (t : Bytes) : Bytes × Bytes :=
  let name := Bytes.ofGlyphs (t.glyphs.takeWhile Glyph.isGroupNamePart)
  (name, t.drop name.length)

/-- The name that follows a dollar sign, in braces or not, and what comes after it. -/
def templateName? (t : Bytes) : Option (Bytes × Bytes) :=
  match Bytes.dropLeading? [openBrace] t with
  | some inner =>
    let (name, rest) := spanGroupName inner
    if name.isEmpty then none else (Bytes.dropLeading? [closeBrace] rest).map fun rest => (name, rest)
  | none =>
    let (name, rest) := spanGroupName t
    if name.isEmpty then none else some (name, rest)

/-- The number that a name is: digits, the first of several not zero, that come to no more than a
billion. -/
def groupNumber? (name : Bytes) : Option Nat :=
  if name.head? = some 48 && 1 < name.length then none
  else
    name.foldlM (fun n b => do
      let d ← digitOf? b
      if 100000000 ≤ n then none else some (n * 10 + d)) 0

/-- The text of the group that a name stands for, which is empty if there is none. `names` has the
groups with names of their own. -/
def groupText (names : List (Nat × Bytes)) (groups : List Bytes) (name : Bytes) : Bytes :=
  match groupNumber? name with
  | some n => groups.getD n []
  | none =>
    match names.find? (·.2 = name) with
    | some (n, _) => groups.getD n []
    | none => []

theorem length_dropLeading?_le {p t rest : Bytes} (h : Bytes.dropLeading? p t = some rest) :
    rest.length ≤ t.length := by
  induction p generalizing t with
  | nil =>
    rw [Bytes.dropLeading?] at h
    cases h
    exact Nat.le_refl _
  | cons a p ih =>
    cases t with
    | nil => cases h
    | cons b t =>
      rw [Bytes.dropLeading?] at h
      split at h
      · exact Nat.le_succ_of_le (ih h)
      · cases h

theorem length_of_templateName? {t name rest : Bytes} (h : templateName? t = some (name, rest)) :
    rest.length ≤ t.length := by
  have hspan (t : Bytes) : (spanGroupName t).2.length ≤ t.length := by
    rw [spanGroupName, List.length_drop]
    exact Nat.sub_le _ _
  unfold templateName? at h
  split at h
  case h_1 inner hinner =>
    have hle := length_dropLeading?_le hinner
    have hname := hspan inner
    dsimp only at h
    split at h
    · cases h
    · obtain ⟨rest', hclose, heq⟩ := Option.map_eq_some_iff.1 h
      cases heq
      have hrest := length_dropLeading?_le hclose
      omega
  case h_2 =>
    have hname := hspan t
    dsimp only at h
    split at h
    · cases h
    · cases h
      exact hname

/-- The text of a template for the groups of a match. -/
def expandTemplate (names : List (Nat × Bytes)) (groups : List Bytes) : Bytes → Bytes
  | [] => []
  | b :: t =>
    if b = dollar then
      if t.head? = some dollar then dollar :: expandTemplate names groups t.tail
      else
        match h : templateName? t with
        | none => dollar :: expandTemplate names groups t
        | some (name, rest) =>
          have : rest.length ≤ t.length := length_of_templateName? h
          groupText names groups name ++ expandTemplate names groups rest
    else b :: expandTemplate names groups t
termination_by t => t.length
decreasing_by all_goals simp only [List.length_cons, List.length_tail]; omega

/-- The text that replaces a match. -/
def expandReplacement (names : List (Nat × Bytes)) (groups : List Bytes) (b : Bytes) : Bytes :=
  expandTemplate names groups (convertReplacement b)

end Stencil
