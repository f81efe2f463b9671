/-!
# Byte strings

The strings of the language are byte strings: usually UTF-8, but nothing
requires it. `Bytes` is a list of bytes; a Lean `String` coerces to its UTF-8
form. `glyphs` reads a byte string as a sequence of characters and stray bytes,
which is how positions are counted and how text is scanned; `Glyph.bytes` is
its inverse.

## What is proved

* `flatMap_bytes_glyphs` — reading loses nothing: the bytes of the glyphs are
  the bytes that were read.
-/

namespace Stencil

/-- A byte string. -/
abbrev Bytes := List UInt8

/-- The UTF-8 form of a string. -/
def Bytes.ofString (s : String) : Bytes := s.toUTF8.toList

instance : Coe String Bytes := ⟨Bytes.ofString⟩

/-- The byte string as a Lean string, if it is valid UTF-8. -/
def Bytes.toString? (b : Bytes) : Option String :=
  String.fromUTF8? ⟨b.toArray⟩

/-- The UTF-8 form of one character. -/
def Bytes.ofChar (c : Char) : Bytes := String.utf8EncodeChar c

/-- The decimal numeral of a natural number. -/
def Bytes.ofNat (n : Nat) : Bytes := (toString n : String)

/-- The decimal numeral of an integer, with a sign only if it is negative. -/
def Bytes.ofInt (n : Int) : Bytes :=
  if n < 0 then Bytes.ofString "-" ++ Bytes.ofNat n.natAbs else Bytes.ofNat n.natAbs

/-! ### Reading UTF-8 -/

/-- A character of a byte string, or a byte that is part of no character. -/
inductive Glyph where
  | char (c : Char)
  | stray (b : UInt8)
  deriving DecidableEq, Repr, Inhabited

/-- The bytes a glyph stands for. -/
def Glyph.bytes : Glyph → Bytes
  | .char c => Bytes.ofChar c
  | .stray b => [b]

/-- The value of a continuation byte. -/
def continuation? (b : UInt8) : Option Nat :=
  if 0x80 ≤ b ∧ b < 0xC0 then some (b.toNat - 0x80) else none

/-- The character with the given code, provided the first `size` bytes of `b` are
its encoding. -/
def shortest? (b : Bytes) (code size : Nat) : Option (Char × Nat) :=
  if Bytes.ofChar (Char.ofNat code) = b.take size ∧ 0 < size then
    some (Char.ofNat code, size)
  else none

/-- The character at the front of a byte string together with the number of its
bytes, provided the bytes are its shortest encoding. -/
def leadingChar? : Bytes → Option (Char × Nat)
  | [] => none
  | b :: rest =>
    if b < 0x80 then shortest? (b :: rest) b.toNat 1
    else if b < 0xC0 then none
    else if b < 0xE0 then
      match rest with
      | b₁ :: _ => do
        let x ← continuation? b₁
        shortest? (b :: rest) ((b.toNat - 0xC0) * 64 + x) 2
      | _ => none
    else if b < 0xF0 then
      match rest with
      | b₁ :: b₂ :: _ => do
        let x ← continuation? b₁
        let y ← continuation? b₂
        shortest? (b :: rest) (((b.toNat - 0xE0) * 64 + x) * 64 + y) 3
      | _ => none
    else if b < 0xF8 then
      match rest with
      | b₁ :: b₂ :: b₃ :: _ => do
        let x ← continuation? b₁
        let y ← continuation? b₂
        let z ← continuation? b₃
        shortest? (b :: rest) ((((b.toNat - 0xF0) * 64 + x) * 64 + y) * 64 + z) 4
      | _ => none
    else none

/-- The first glyph of a byte string that starts with `b`, and its size. -/
def headGlyph (b : UInt8) (rest : Bytes) : Glyph × Nat :=
  match leadingChar? (b :: rest) with
  | some (c, n) => (.char c, n)
  | none => (.stray b, 1)

/-- Read a byte string of at most `fuel` bytes as glyphs; `seen` are those read so
far, the last one first. -/
def glyphsAux : Nat → List Glyph → Bytes → List Glyph
  | 0, seen, _ => seen.reverse
  | _ + 1, seen, [] => seen.reverse
  | fuel + 1, seen, b :: rest =>
    let (g, n) := headGlyph b rest
    glyphsAux fuel (g :: seen) ((b :: rest).drop n)

/-- The characters and stray bytes of a byte string, in order. -/
def Bytes.glyphs (b : Bytes) : List Glyph := glyphsAux b.length [] b

/-- The bytes of a sequence of glyphs. -/
def Bytes.ofGlyphs (gs : List Glyph) : Bytes := gs.flatMap Glyph.bytes

/-- Whether a byte string is valid UTF-8. -/
def Bytes.isValid (b : Bytes) : Bool :=
  b.glyphs.all fun g => match g with
    | .char _ => true
    | .stray _ => false

/-- The replacement character, read in place of a stray byte. -/
def replacementChar : Char := Char.ofNat 0xFFFD

/-- The character of a glyph, a stray byte counting as the replacement character. -/
def Glyph.toChar : Glyph → Char
  | .char c => c
  | .stray _ => replacementChar

/-- The characters of a byte string, each stray byte replaced. -/
def Bytes.chars (b : Bytes) : List Char := b.glyphs.map Glyph.toChar

/-- The UTF-8 form of a list of characters. -/
def Bytes.ofChars (cs : List Char) : Bytes := cs.flatMap Bytes.ofChar

/-! ### Searching and cutting -/

/-- Whether `p` is an initial segment of `b`; if so, what follows it. -/
def Bytes.dropLeading? : (p b : Bytes) → Option Bytes
  | [], b => some b
  | _ :: _, [] => none
  | x :: p, y :: b => if x = y then Bytes.dropLeading? p b else none

/-- Whether `b` begins with `p`. -/
def Bytes.startsWith (b p : Bytes) : Bool := (Bytes.dropLeading? p b).isSome

/-- Whether `b` ends with `p`. -/
def Bytes.endsWith (b p : Bytes) : Bool := Bytes.startsWith b.reverse p.reverse

/-- The text before and after the first occurrence of `p` in `b`. -/
def Bytes.cutAux (p : Bytes) : (seen b : Bytes) → Option (Bytes × Bytes)
  | seen, [] => if p.isEmpty then some (seen.reverse, []) else none
  | seen, c :: b =>
    match Bytes.dropLeading? p (c :: b) with
    | some rest => some (seen.reverse, rest)
    | none => Bytes.cutAux p (c :: seen) b

/-- The text before and after the first occurrence of `p` in `b`, if it occurs. -/
def Bytes.cut? (b p : Bytes) : Option (Bytes × Bytes) := Bytes.cutAux p [] b

/-- Whether `p` occurs in `b`. -/
def Bytes.contains (b p : Bytes) : Bool := (Bytes.cut? b p).isSome

/-- Split `b` at the occurrences of a non-empty `p`, at most `fuel` times. -/
def Bytes.splitAux (p : Bytes) : Nat → Bytes → List Bytes
  | 0, b => [b]
  | fuel + 1, b =>
    match Bytes.cut? b p with
    | some (x, rest) => x :: Bytes.splitAux p fuel rest
    | none => [b]

/-- The pieces of `b` between the occurrences of a non-empty `p`. -/
def Bytes.splitOn (b p : Bytes) : List Bytes := Bytes.splitAux p b.length b

/-- Join pieces with a separator between each two. -/
def Bytes.join (sep : Bytes) (pieces : List Bytes) : Bytes :=
  (pieces.intersperse sep).flatten

/-- Replace every occurrence of a non-empty `old` by `new`. -/
def Bytes.replace (b old new : Bytes) : Bytes := Bytes.join new (Bytes.splitOn b old)

/-- The position of the first occurrence of `p` in `b`. -/
def Bytes.indexOf? (b p : Bytes) : Option Nat := (Bytes.cut? b p).map fun (x, _) => x.length

/-- Lexicographic order by bytes. -/
def Bytes.lt : Bytes → Bytes → Bool
  | _, [] => false
  | [], _ :: _ => true
  | x :: a, y :: b => x < y || (x == y && Bytes.lt a b)

/-- Order used for sorting: `a` comes no later than `b`. -/
def Bytes.le (a b : Bytes) : Bool := !Bytes.lt b a

/-- Sort byte strings bytewise. -/
def Bytes.sort (bs : List Bytes) : List Bytes := bs.mergeSort Bytes.le

/-- Repeat a byte string. -/
def Bytes.times (b : Bytes) (n : Nat) : Bytes := (List.replicate n b).flatten

/-- A hexadecimal digit. -/
def hexDigit (n : Nat) : Char :=
  if n < 10 then Char.ofNat (48 + n) else Char.ofNat (87 + n)

/-- The lower-case hexadecimal digits of a number, at least `width` of them. -/
def hexNat (width n : Nat) : Bytes :=
  let ds := (Nat.toDigits 16 n)
  Bytes.ofChars (List.replicate (width - ds.length) '0' ++ ds)

/-- The value of a hexadecimal digit. -/
def hexValue? (c : Char) : Option Nat :=
  if '0' ≤ c ∧ c ≤ '9' then some (c.toNat - 48)
  else if 'a' ≤ c ∧ c ≤ 'f' then some (c.toNat - 87)
  else if 'A' ≤ c ∧ c ≤ 'F' then some (c.toNat - 55)
  else none

/-! ### Reading loses nothing -/

private theorem bytes_of_shortest? {b : Bytes} {code size : Nat} {c : Char} {n : Nat}
    (h : shortest? b code size = some (c, n)) : Bytes.ofChar c = b.take n ∧ 0 < n := by
  unfold shortest? at h
  split at h
  · rename_i hs
    simp only [Option.some.injEq, Prod.mk.injEq] at h
    obtain ⟨rfl, rfl⟩ := h
    exact hs
  · simp at h

private theorem bytes_of_leadingChar? {b : Bytes} {c : Char} {n : Nat}
    (h : leadingChar? b = some (c, n)) : Bytes.ofChar c = b.take n ∧ 0 < n := by
  unfold leadingChar? at h
  simp only [Option.bind_eq_bind] at h
  repeat' split at h
  all_goals first
    | exact bytes_of_shortest? h
    | simp only [Option.bind_eq_some_iff, reduceCtorEq] at h
  · obtain ⟨_, _, h⟩ := h
    exact bytes_of_shortest? h
  · obtain ⟨_, _, _, _, h⟩ := h
    exact bytes_of_shortest? h
  · obtain ⟨_, _, _, _, _, _, h⟩ := h
    exact bytes_of_shortest? h

theorem bytes_headGlyph (b : UInt8) (rest : Bytes) :
    (headGlyph b rest).1.bytes = (b :: rest).take (headGlyph b rest).2 ∧
      0 < (headGlyph b rest).2 := by
  unfold headGlyph
  split
  · rename_i c n h
    exact bytes_of_leadingChar? h
  · simp [Glyph.bytes]

private theorem flatMap_bytes_glyphsAux (fuel : Nat) (seen : List Glyph) (b : Bytes)
    (h : b.length ≤ fuel) :
    (glyphsAux fuel seen b).flatMap Glyph.bytes = seen.reverse.flatMap Glyph.bytes ++ b := by
  induction fuel generalizing seen b with
  | zero =>
    have : b = [] := List.length_eq_zero_iff.1 (by omega)
    simp [glyphsAux, this]
  | succ fuel ih =>
    cases b with
    | nil => simp [glyphsAux]
    | cons x rest =>
      obtain ⟨h₁, h₂⟩ := bytes_headGlyph x rest
      simp only [glyphsAux]
      rw [ih]
      · simp [h₁]
      · simp only [List.length_drop, List.length_cons] at *
        omega

/-- The bytes of the glyphs of a byte string are the byte string. -/
theorem flatMap_bytes_glyphs (b : Bytes) : b.glyphs.flatMap Glyph.bytes = b := by
  simpa [Bytes.glyphs] using flatMap_bytes_glyphsAux b.length [] b (Nat.le_refl _)

end Stencil
