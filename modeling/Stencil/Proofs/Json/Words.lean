import Mathlib
import Stencil.Proofs.Json.Grammar
import Stencil.Proofs.Text.Utf8
import Stencil.Proofs.Text.Quoted

/-!
# Reading the words of JSON text

White space, literals and numbers are read as the grammar has them: what is read is a word of the
grammar, and a word is read if what follows it does not go on with it.
-/

namespace Stencil

/-! ### Taking glyphs off a text -/

theorem glyphs_ofChar_append (c : Char) (rest : Bytes) :
    (Bytes.ofChar c ++ rest).glyphs = .char c :: rest.glyphs := by
  obtain ⟨b, more, hb⟩ := List.exists_cons_of_ne_nil (ofChar_ne_nil c)
  have hdrop : (b :: (more ++ rest)).drop (Bytes.ofChar c).length = rest := by
    rw [hb, ← List.cons_append]
    exact List.drop_left
  have hhead := headGlyph_ofChar hb rest
  rw [hb, List.cons_append, glyphs_cons, hhead]
  dsimp only
  rw [hdrop]

theorem glyphs_ofChars_append (cs : List Char) (rest : Bytes) :
    (Bytes.ofChars cs ++ rest).glyphs = cs.map .char ++ rest.glyphs := by
  induction cs with
  | nil => rfl
  | cons c cs ih =>
    rw [← List.singleton_append, ofChars_append, List.append_assoc, List.map_append,
      List.append_assoc, ← ih]
    simpa [Bytes.ofChars] using glyphs_ofChar_append c (Bytes.ofChars cs ++ rest)

theorem eq_of_glyphs_char {text : Bytes} {c : Char} {gs : List Glyph}
    (h : text.glyphs = .char c :: gs) :
    ∃ rest, text = Bytes.ofChar c ++ rest ∧ rest.glyphs = gs := by
  cases text with
  | nil => cases h
  | cons b rest =>
    rw [glyphs_cons] at h
    obtain ⟨hg, hgs⟩ := List.cons.inj h
    have hbytes := (bytes_headGlyph b rest).1
    rw [hg] at hbytes
    refine ⟨_, ?_, hgs⟩
    rw [show Bytes.ofChar c = _ from hbytes, List.take_append_drop]

theorem eq_of_glyphs_chars {text : Bytes} {cs : List Char} {gs : List Glyph}
    (h : text.glyphs = cs.map .char ++ gs) :
    ∃ rest, text = Bytes.ofChars cs ++ rest ∧ rest.glyphs = gs := by
  induction cs generalizing text with
  | nil => exact ⟨text, rfl, h⟩
  | cons c cs ih =>
    obtain ⟨rest, rfl, hrest⟩ := eq_of_glyphs_char h
    obtain ⟨rest, rfl, hgs⟩ := ih hrest
    exact ⟨rest, by simp [Bytes.ofChars], hgs⟩

theorem eq_of_glyphs_stray {text : Bytes} {b : UInt8} {gs : List Glyph}
    (h : text.glyphs = .stray b :: gs) :
    ∃ rest : Bytes, text = b :: rest ∧ rest.glyphs = gs ∧ leadingChar? (b :: rest) = none := by
  cases text with
  | nil => cases h
  | cons x rest =>
    rw [glyphs_cons] at h
    obtain ⟨hg, hgs⟩ := List.cons.inj h
    unfold headGlyph at hg hgs
    split at hg
    · cases hg
    · rename_i hlead
      obtain rfl := Glyph.stray.inj hg
      rw [hlead] at hgs
      exact ⟨rest, rfl, hgs, hlead⟩

theorem toNat_ofNat_byte (b : UInt8) : (Char.ofNat b.toNat).toNat = b.toNat := by
  have hb := b.toNat_lt
  have hvalid : b.toNat.isValidChar := .inl (by omega)
  rw [Char.ofNat, dif_pos hvalid]
  rfl

/-- A byte below 128 is a character. -/
theorem ofChar_ofNat_byte {b : UInt8} (h : b < 128) : Bytes.ofChar (Char.ofNat b.toNat) = [b] := by
  have hb : b.toNat < 128 := UInt8.lt_iff_toNat_lt.1 h
  have hle : ¬ 127 < b.toNat := by omega
  have hval : (Char.ofNat b.toNat).val.toNat = b.toNat := toNat_ofNat_byte b
  simp [Bytes.ofChar, String.utf8EncodeChar, hval, hle]

theorem glyphs_ascii_cons {b : UInt8} (h : b < 128) (rest : Bytes) :
    Bytes.glyphs (b :: rest) = .char (Char.ofNat b.toNat) :: rest.glyphs := by
  rw [← glyphs_ofChar_append, ofChar_ofNat_byte h]
  rfl

/-- Bytes below 128 are characters. -/
theorem eq_ofChars_of_ascii {bs : Bytes} (h : ∀ b ∈ bs, b < 128) :
    bs = Bytes.ofChars (bs.map fun b => Char.ofNat b.toNat) := by
  induction bs with
  | nil => rfl
  | cons b bs ih =>
    have hb := ofChar_ofNat_byte (h b List.mem_cons_self)
    have hbs := ih fun x hx => h x (List.mem_cons_of_mem b hx)
    simp only [List.map_cons, Bytes.ofChars, List.flatMap_cons] at hbs ⊢
    rw [hb, ← hbs]
    rfl

namespace Json

variable {text rest : Bytes}

theorem ok_bind {ε α β : Type} (a : α) (f : α → Except ε β) : Except.ok a >>= f = f a := rfl

/-- Two steps succeed if both do. -/
theorem bind_eq_ok {ε α β : Type} {m : Except ε α} {f : α → Except ε β} {b : β} :
    m >>= f = .ok b ↔ ∃ a, m = .ok a ∧ f a = .ok b := by
  constructor
  · intro h
    cases m with
    | error e => cases h
    | ok a => exact ⟨a, rfl, h⟩
  · rintro ⟨a, rfl, h⟩
    exact h

/-! ### White space -/

theorem isSpace_white {b : UInt8} (h : isSpace b = true) :
    b < 128 ∧ IsWhite (.char (Char.ofNat b.toNat)) := by
  simp only [isSpace, Bool.or_eq_true, decide_eq_true_eq] at h
  obtain ((rfl | rfl) | rfl) | rfl := h
  · exact ⟨by decide, .inl rfl⟩
  · exact ⟨by decide, .inr (.inl rfl)⟩
  · exact ⟨by decide, .inr (.inr (.inl rfl))⟩
  · exact ⟨by decide, .inr (.inr (.inr rfl))⟩

theorem IsWhite.byte {g : Glyph} (h : IsWhite g) : ∃ b, g.bytes = [b] ∧ isSpace b = true := by
  obtain rfl | rfl | rfl | rfl := h
  · exact ⟨32, by decide, rfl⟩
  · exact ⟨9, by decide, rfl⟩
  · exact ⟨10, by decide, rfl⟩
  · exact ⟨13, by decide, rfl⟩

theorem IsBlank.cons {g : Glyph} {gs : List Glyph} (hg : IsWhite g) (h : IsBlank gs) :
    IsBlank (g :: gs) := by
  rintro x (_ | ⟨_, hx⟩)
  · exact hg
  · exact h x hx

theorem IsBlank.append {gs hs : List Glyph} (h : IsBlank gs) (h' : IsBlank hs) :
    IsBlank (gs ++ hs) := by
  intro g hg
  obtain hg | hg := List.mem_append.1 hg
  · exact h g hg
  · exact h' g hg

/-- What is skipped is white space. -/
theorem glyphs_skipSpace (text : Bytes) :
    ∃ ws, IsBlank ws ∧ text.glyphs = ws ++ (skipSpace text).glyphs := by
  induction text with
  | nil => exact ⟨[], .nil, rfl⟩
  | cons b text ih =>
    by_cases hb : isSpace b = true
    · obtain ⟨ws, hws, htext⟩ := ih
      obtain ⟨hlt, hwhite⟩ := isSpace_white hb
      have hskip : skipSpace (b :: text) = skipSpace text := List.dropWhile_cons_of_pos hb
      refine ⟨_ :: ws, .cons hwhite hws, ?_⟩
      rw [glyphs_ascii_cons hlt, htext, hskip, List.cons_append]
    · have hskip : skipSpace (b :: text) = b :: text := List.dropWhile_cons_of_neg hb
      exact ⟨[], .nil, by rw [hskip, List.nil_append]⟩

/-- White space is skipped. -/
theorem skipSpace_of_glyphs {ws gs : List Glyph} (hws : IsBlank ws)
    (h : text.glyphs = ws ++ gs) : ∃ rest, rest.glyphs = gs ∧ skipSpace text = skipSpace rest := by
  induction ws generalizing text with
  | nil => exact ⟨text, h, rfl⟩
  | cons g ws ih =>
    obtain ⟨hg, hws⟩ : IsWhite g ∧ IsBlank ws :=
      ⟨hws g List.mem_cons_self, fun x hx => hws x (List.mem_cons_of_mem g hx)⟩
    obtain ⟨b, hb, hspace⟩ := hg.byte
    obtain ⟨rest, rfl, hrest⟩ : ∃ rest : Bytes, text = b :: rest ∧ rest.glyphs = ws ++ gs := by
      have hchar : ∃ c, g = .char c := by
        obtain rfl | rfl | rfl | rfl := hg <;> exact ⟨_, rfl⟩
      obtain ⟨c, rfl⟩ := hchar
      obtain ⟨rest, rfl, hrest⟩ := eq_of_glyphs_char h
      rw [show Bytes.ofChar c = [b] from hb]
      exact ⟨rest, rfl, hrest⟩
    obtain ⟨rest', hgs, hskip⟩ := ih hws hrest
    exact ⟨rest', hgs, (List.dropWhile_cons_of_pos hspace).trans hskip⟩

theorem skipSpace_of_not_space {b : UInt8} (h : isSpace b = false) :
    skipSpace (b :: rest) = b :: rest :=
  List.dropWhile_cons_of_neg (by simp [h])

/-! ### Literals -/

theorem takeLiteralFrom_eq_ok {literal : String} {ls : Bytes} :
    takeLiteralFrom literal ls text = .ok rest ↔ text = ls ++ rest := by
  induction ls generalizing text with
  | nil => simp [takeLiteralFrom]
  | cons l ls ih =>
    cases text with
    | nil => simp [takeLiteralFrom]
    | cons b text =>
      by_cases hb : b = l
      · simp [takeLiteralFrom, hb, ih]
      · simp [takeLiteralFrom, hb]

theorem takeLiteral_eq_ok {literal : String} :
    takeLiteral literal text = .ok rest ↔ text = Bytes.ofChars literal.toList ++ rest := by
  rw [takeLiteral, takeLiteralFrom_eq_ok, ofString_eq_ofChars]

/-! ### Digits -/

theorem isDigit_ofNat {b : UInt8} : Decimal.isDigit (Char.ofNat b.toNat) = isDigit b := by
  have hval : (Char.ofNat b.toNat).val.toNat = b.toNat := toNat_ofNat_byte b
  have h0 : ('0' : Char).val.toNat = 48 := rfl
  have h9 : ('9' : Char).val.toNat = 57 := rfl
  simp only [Decimal.isDigit, isDigit, Char.le_def, UInt32.le_iff_toNat_le, UInt8.le_iff_toNat_le,
    hval, h0, h9]
  rfl

theorem lt_of_isDigit {b : UInt8} (h : isDigit b = true) : b < 128 := by
  simp only [isDigit, Bool.and_eq_true, decide_eq_true_eq] at h
  exact UInt8.lt_of_le_of_lt h.2 (by decide)

/-- A digit is one byte. -/
theorem ofChar_digit {c : Char} (h : Decimal.isDigit c = true) :
    ∃ b, Bytes.ofChar c = [b] ∧ isDigit b = true ∧ Char.ofNat b.toNat = c := by
  have hlt : c.toNat < 0x80 := by
    simp only [Decimal.isDigit, Bool.and_eq_true, decide_eq_true_eq, Char.le_def,
      UInt32.le_iff_toNat_le] at h
    have h9 : ('9' : Char).val.toNat = 57 := rfl
    have hc : c.toNat = c.val.toNat := rfl
    omega
  have hback : Char.ofNat (c.toNat.toUInt8).toNat = c := by
    have : (c.toNat.toUInt8).toNat = c.toNat := toNat_ofNat (by omega)
    rw [this, Char.ofNat_toNat]
  exact ⟨_, ofChar_ascii hlt, by rwa [← isDigit_ofNat, hback], hback⟩

theorem ofChars_digits {cs : List Char} (h : ∀ c ∈ cs, Decimal.isDigit c = true) :
    (∀ b ∈ Bytes.ofChars cs, isDigit b = true) ∧
      (Bytes.ofChars cs).map (fun b => Char.ofNat b.toNat) = cs := by
  induction cs with
  | nil => exact ⟨List.forall_mem_nil _, rfl⟩
  | cons c cs ih =>
    obtain ⟨b, hb, hdigit, hback⟩ := ofChar_digit (h c List.mem_cons_self)
    obtain ⟨hall, hmap⟩ := ih fun d hd => h d (List.mem_cons_of_mem c hd)
    have hcs : Bytes.ofChars (c :: cs) = b :: Bytes.ofChars cs := by
      simp [Bytes.ofChars, hb]
    rw [hcs]
    refine ⟨?_, by rw [List.map_cons, hmap, hback]⟩
    rintro x (_ | ⟨_, hx⟩)
    · exact hdigit
    · exact hall x hx

/-- The text does not go on with a digit. -/
def NoDigit (rest : Bytes) : Prop := ∀ b, rest.head? = some b → isDigit b = false

theorem NoDigit.dropWhile (text : Bytes) : NoDigit (text.dropWhile isDigit) := by
  intro b hb
  have h := List.head?_dropWhile_not isDigit text
  rw [hb] at h
  simpa using h

theorem NoDigit.span (hr : NoDigit rest) {ds : Bytes} (h : ∀ b ∈ ds, isDigit b = true) :
    (ds ++ rest).span isDigit = (ds, rest) := by
  have hrest : rest.takeWhile isDigit = [] ∧ rest.dropWhile isDigit = rest := by
    cases rest with
    | nil => exact ⟨rfl, rfl⟩
    | cons b rest => simp [hr b rfl]
  rw [List.span_eq_takeWhile_dropWhile, List.takeWhile_append_of_pos h,
    List.dropWhile_append_of_pos h, hrest.1, hrest.2, List.append_nil]

/-- What is read as digits are digits. -/
theorem takeDigits_sound {ds : Bytes} (h : takeDigits text = .ok (ds, rest)) :
    ∃ cs, IsDigits cs ∧ ds = Bytes.ofChars cs ∧ text = ds ++ rest := by
  unfold takeDigits at h
  split at h
  · cases h
  · rename_i b more
    split at h
    · rename_i hb
      have hspan := Except.ok.inj h
      rw [List.span_eq_takeWhile_dropWhile] at hspan
      obtain ⟨hds, hrest⟩ := Prod.mk.inj hspan
      have hall : ∀ x ∈ ds, isDigit x = true := fun x hx => by
        rw [← hds] at hx
        exact List.mem_takeWhile_imp hx
      have hne : ds ≠ [] := by
        rw [← hds, List.takeWhile_cons_of_pos hb]
        exact List.cons_ne_nil b _
      refine ⟨_, ⟨by simpa using hne, ?_⟩,
        eq_ofChars_of_ascii fun x hx => lt_of_isDigit (hall x hx),
        by rw [← hds, ← hrest, List.takeWhile_append_dropWhile]⟩
      intro c hc
      obtain ⟨x, hx, rfl⟩ := List.mem_map.1 hc
      rw [isDigit_ofNat, hall x hx]
    · cases h

/-- The first byte of digits is one. -/
theorem head_ofChars_digits {ds : List Char} (h : IsDigits ds) {b : UInt8}
    (hb : (Bytes.ofChars ds ++ rest).head? = some b) : isDigit b = true := by
  obtain ⟨c, cs, rfl⟩ := List.exists_cons_of_ne_nil h.1
  obtain ⟨x, hx, hdigit, -⟩ := ofChar_digit (h.2 c List.mem_cons_self)
  obtain rfl : x = b := by simpa [Bytes.ofChars, hx] using hb
  exact hdigit

/-- Digits are read up to what is none. -/
theorem takeDigits_ofChars {cs : List Char} (h : IsDigits cs) (hr : NoDigit rest) :
    takeDigits (Bytes.ofChars cs ++ rest) = .ok (Bytes.ofChars cs, rest) := by
  obtain ⟨hall, -⟩ := ofChars_digits h.2
  have hspan := hr.span hall
  obtain ⟨c, cs', rfl⟩ := List.exists_cons_of_ne_nil h.1
  obtain ⟨b, hb, hdigit, -⟩ := ofChar_digit (h.2 c List.mem_cons_self)
  have hcs : Bytes.ofChars (c :: cs') = b :: Bytes.ofChars cs' := by
    simp [Bytes.ofChars, hb]
  rw [hcs] at hspan ⊢
  rw [List.cons_append, takeDigits, if_pos hdigit]
  exact congrArg Except.ok hspan

/-! ### Numbers -/

theorem takeOptional_eq (set : List Char) (text : Bytes) :
    (∃ c ∈ set, ∃ rest, text = code c :: rest ∧ takeOptional set text = ([code c], rest)) ∨
      takeOptional set text = ([], text) := by
  cases text with
  | nil => exact .inr rfl
  | cons b rest =>
    rw [takeOptional]
    split
    · rename_i h
      obtain ⟨c, hc, hb⟩ := List.any_eq_true.1 h
      obtain rfl := of_decide_eq_true hb
      exact .inl ⟨c, hc, rest, rfl, rfl⟩
    · exact .inr rfl

theorem takeOptional_mem {set : List Char} {c : Char} (h : c ∈ set) (rest : Bytes) :
    takeOptional set (code c :: rest) = ([code c], rest) :=
  if_pos (List.any_eq_true.2 ⟨c, h, decide_eq_true rfl⟩)

theorem takeOptional_of_not {set : List Char}
    (h : ∀ b, text.head? = some b → ∀ c ∈ set, code c ≠ b) :
    takeOptional set text = ([], text) := by
  cases text with
  | nil => rfl
  | cons b rest =>
    refine if_neg fun hb => ?_
    obtain ⟨c, hc, hb⟩ := List.any_eq_true.1 hb
    exact h b rfl c hc (of_decide_eq_true hb)

/-- Read the whole part of a number. -/
def takeWhole (text : Bytes) : Except Fault (Bytes × Bytes) :=
  match text with
  | 48 :: rest => .ok ([48], rest)
  | text => takeDigits text

/-- Read the fraction of a number. -/
def takeFraction (text : Bytes) : Except Fault (Bytes × Bytes) :=
  let (point, text) := takeOptional ['.'] text
  if point.isEmpty then .ok ([], text)
  else do
    let (ds, rest) ← takeDigits text
    return (point ++ ds, rest)

/-- Read the exponent of a number. -/
def takeExponent (text : Bytes) : Except Fault (Bytes × Bytes) :=
  let (mark, text) := takeOptional ['e', 'E'] text
  if mark.isEmpty then .ok ([], text)
  else do
    let (sign, text) := takeOptional ['+', '-'] text
    let (ds, rest) ← takeDigits text
    return (mark ++ sign ++ ds, rest)

theorem takeWhole_bind {α : Type} (text : Bytes) (f : Bytes × Bytes → Except Fault α) :
    (match text with
      | 48 :: rest => .ok ([48], rest) >>= f
      | text => takeDigits text >>= f) = takeWhole text >>= f := by
  unfold takeWhole
  split
  · rfl
  · rfl

theorem takeExponent_bind (front text : Bytes) : (do
    let (mark, text) := takeOptional ['e', 'E'] text
    if mark.isEmpty then return (front, text)
    let (sign, text) := takeOptional ['+', '-'] text
    let (ds, text) ← takeDigits text
    return (front ++ mark ++ sign ++ ds, text) : Except Fault (Bytes × Bytes)) = (do
    let (exponent, text) ← takeExponent text
    return (front ++ exponent, text)) := by
  unfold takeExponent
  generalize takeOptional ['e', 'E'] text = mark
  obtain ⟨mark, text⟩ := mark
  dsimp only
  split
  · exact congrArg (fun b => Except.ok (b, text)) (List.append_nil front).symm
  · cases takeDigits (takeOptional ['+', '-'] text).2 with
    | error e => rfl
    | ok ds => exact congrArg (fun b => Except.ok (b, ds.2)) (by simp only [List.append_assoc])

/-- A number is read part by part. -/
theorem takeNumber_eq (text : Bytes) : takeNumber text = (do
    let (sign, text) := takeOptional ['-'] text
    let (whole, text) ← takeWhole text
    let (fraction, text) ← takeFraction text
    let (exponent, text) ← takeExponent text
    return (sign ++ whole ++ fraction ++ exponent, text)) := by
  rw [takeNumber]
  generalize takeOptional ['-'] text = sign
  obtain ⟨sign, text⟩ := sign
  refine (takeWhole_bind text _).trans (congrArg (takeWhole text >>= ·) (funext fun whole => ?_))
  obtain ⟨whole, text⟩ := whole
  dsimp only [takeFraction]
  generalize takeOptional ['.'] text = point
  obtain ⟨point, text⟩ := point
  dsimp only
  split
  · rename_i hpoint
    obtain rfl : point = [] := List.isEmpty_iff.1 hpoint
    simpa [ok_bind] using takeExponent_bind (sign ++ whole) text
  · cases takeDigits text with
    | error e => rfl
    | ok ds => simpa [ok_bind] using takeExponent_bind (sign ++ whole ++ point ++ ds.1) ds.2

/-- The text does not go on with what could belong to a number. -/
def EndsNumeral (rest : Bytes) : Prop :=
  ∀ b, rest.head? = some b → isDigit b = false ∧ ∀ c ∈ ['.', 'e', 'E'], code c ≠ b

theorem takeWhole_sound {w : Bytes} (h : takeWhole text = .ok (w, rest)) :
    ∃ ds, IsWhole ds ∧ w = Bytes.ofChars ds ∧ text = w ++ rest := by
  unfold takeWhole at h
  split at h
  · cases h
    exact ⟨['0'], .zero, rfl, rfl⟩
  · rename_i hzero
    obtain ⟨ds, hds, rfl, rfl⟩ := takeDigits_sound h
    refine ⟨ds, .digits hds ?_, rfl, rfl⟩
    intro hhead
    obtain ⟨cs, rfl⟩ : ∃ cs, ds = '0' :: cs := by
      cases ds with
      | nil => cases hhead
      | cons c cs => exact ⟨cs, by rw [Option.some.inj hhead]⟩
    exact hzero (Bytes.ofChars cs ++ rest) rfl

theorem takeFraction_sound {f : Bytes} (h : takeFraction text = .ok (f, rest)) :
    ∃ cs, IsFraction cs ∧ f = Bytes.ofChars cs ∧ text = f ++ rest := by
  unfold takeFraction at h
  obtain ⟨c, hc, more, rfl, hopt⟩ | hopt := takeOptional_eq ['.'] text
  · obtain rfl := List.mem_singleton.1 hc
    rw [hopt] at h
    obtain ⟨⟨ds, more'⟩, hds, hret⟩ := bind_eq_ok.1 h
    cases hret
    obtain ⟨cs, hcs, rfl, rfl⟩ := takeDigits_sound hds
    exact ⟨_, .some hcs, rfl, rfl⟩
  · rw [hopt] at h
    cases h
    exact ⟨[], .none, rfl, rfl⟩

theorem takeExponent_sound {e : Bytes} (h : takeExponent text = .ok (e, rest)) :
    ∃ cs, IsExponent cs ∧ e = Bytes.ofChars cs ∧ text = e ++ rest := by
  have char {c : Char} (hc : c = 'e' ∨ c = 'E' ∨ c = '+' ∨ c = '-') :
      Bytes.ofChar c = [code c] := by
    obtain rfl | rfl | rfl | rfl := hc <;> rfl
  unfold takeExponent at h
  obtain ⟨c, hc, more, rfl, hopt⟩ | hopt := takeOptional_eq ['e', 'E'] text
  · replace hc : c = 'e' ∨ c = 'E' := by simpa using hc
    have hcode := char (hc.imp_right .inl)
    rw [hopt] at h
    dsimp only [List.isEmpty_cons] at h
    obtain ⟨d, hd, more, rfl, hsign⟩ | hsign := takeOptional_eq ['+', '-'] more
    · replace hd : d = '+' ∨ d = '-' := by simpa using hd
      have hcode' := char (.inr (.inr hd))
      rw [hsign] at h
      obtain ⟨⟨ds, more'⟩, hds, hret⟩ := bind_eq_ok.1 h
      cases hret
      obtain ⟨cs, hcs, rfl, rfl⟩ := takeDigits_sound hds
      exact ⟨_, .signed hc hd hcs, by simp [Bytes.ofChars, hcode, hcode'], by simp⟩
    · rw [hsign] at h
      obtain ⟨⟨ds, more'⟩, hds, hret⟩ := bind_eq_ok.1 h
      cases hret
      obtain ⟨cs, hcs, rfl, rfl⟩ := takeDigits_sound hds
      exact ⟨_, .bare hc hcs, by simp [Bytes.ofChars, hcode], by simp⟩
  · rw [hopt] at h
    cases h
    exact ⟨[], .none, rfl, rfl⟩

/-- What is read as a number is one. -/
theorem takeNumber_sound {b : Bytes} (h : takeNumber text = .ok (b, rest)) :
    ∃ n : Numeral, n.IsProper ∧ b = Bytes.ofChars n.chars ∧ text = b ++ rest := by
  have hsign : ∃ s : Bool, (takeOptional ['-'] text).1 = Bytes.ofChars (if s then ['-'] else []) ∧
      text = (takeOptional ['-'] text).1 ++ (takeOptional ['-'] text).2 := by
    obtain ⟨c, hc, more, rfl, hopt⟩ | hopt := takeOptional_eq ['-'] text
    · obtain rfl := List.mem_singleton.1 hc
      exact ⟨true, by rw [hopt]; rfl, by rw [hopt]; rfl⟩
    · exact ⟨false, by rw [hopt]; rfl, by rw [hopt]; rfl⟩
  obtain ⟨s, hs, htext⟩ := hsign
  rw [takeNumber_eq] at h
  generalize takeOptional ['-'] text = sign at h hs htext
  obtain ⟨sign, t⟩ := sign
  obtain ⟨⟨w, t⟩, hw, h⟩ := bind_eq_ok.1 h
  obtain ⟨⟨f, u⟩, hf, h⟩ := bind_eq_ok.1 h
  obtain ⟨⟨e, v⟩, he, h⟩ := bind_eq_ok.1 h
  cases h
  obtain ⟨ds, hds, rfl, hw⟩ := takeWhole_sound hw
  obtain ⟨fs, hfs, rfl, rfl⟩ := takeFraction_sound hf
  obtain ⟨es, hes, rfl, rfl⟩ := takeExponent_sound he
  dsimp only at hs htext hw
  refine ⟨⟨s, ds, fs, es⟩, ⟨hds, hfs, hes⟩, ?_, ?_⟩
  · simp only [Numeral.chars, Numeral.sign, ofChars_append, hs]
  · rw [htext, hw]
    simp only [List.append_assoc]

/-- The text goes on neither with a digit nor with a point. -/
def EndsWhole (rest : Bytes) : Prop :=
  ∀ b, rest.head? = some b → isDigit b = false ∧ code '.' ≠ b

theorem EndsNumeral.noDigit (h : EndsNumeral rest) : NoDigit rest := fun b hb => (h b hb).1

theorem endsWhole_exponent {es : List Char} (h : IsExponent es) (hr : EndsNumeral rest) :
    EndsWhole (Bytes.ofChars es ++ rest) := by
  intro b hb
  cases h with
  | none => exact ⟨(hr b hb).1, (hr b hb).2 '.' (by simp)⟩
  | bare he _ =>
    obtain rfl | rfl := he <;> cases hb <;> decide
  | signed he _ _ =>
    obtain rfl | rfl := he <;> cases hb <;> decide

theorem noDigit_fraction {fs : List Char} (h : IsFraction fs) (hr : EndsWhole rest) :
    NoDigit (Bytes.ofChars fs ++ rest) := by
  intro b hb
  cases h with
  | none => exact (hr b hb).1
  | some _ =>
    cases hb
    decide

theorem IsWhole.isDigits {ds : List Char} (h : IsWhole ds) : IsDigits ds := by
  cases h with
  | zero => exact ⟨List.cons_ne_nil _ _, fun c hc => by rw [List.mem_singleton.1 hc]; rfl⟩
  | digits h _ => exact h

theorem takeWhole_ofChars {ds : List Char} (h : IsWhole ds) (hr : NoDigit rest) :
    takeWhole (Bytes.ofChars ds ++ rest) = .ok (Bytes.ofChars ds, rest) := by
  cases h with
  | zero => rfl
  | digits hds hzero =>
    obtain ⟨c, cs, rfl⟩ := List.exists_cons_of_ne_nil hds.1
    obtain ⟨b, hb, -, hback⟩ := ofChar_digit (hds.2 c List.mem_cons_self)
    have hcs : Bytes.ofChars (c :: cs) = b :: Bytes.ofChars cs := by
      simp [Bytes.ofChars, hb]
    have hne : b ≠ 48 := by
      rintro rfl
      exact hzero (congrArg some hback.symm)
    have htake := takeDigits_ofChars hds hr
    rw [hcs] at htake ⊢
    unfold takeWhole
    split
    · rename_i heq
      exact absurd (List.cons.inj heq).1 hne
    · exact htake

theorem takeFraction_ofChars {fs : List Char} (h : IsFraction fs) (hr : EndsWhole rest) :
    takeFraction (Bytes.ofChars fs ++ rest) = .ok (Bytes.ofChars fs, rest) := by
  unfold takeFraction
  cases h with
  | none =>
    have hopt : takeOptional ['.'] rest = ([], rest) := takeOptional_of_not fun b hb c hc => by
      rw [List.mem_singleton.1 hc]
      exact (hr b hb).2
    rw [show Bytes.ofChars [] ++ rest = rest from rfl, hopt]
    rfl
  | @some ds hds =>
    have hopt := takeOptional_mem (List.mem_singleton_self '.') (Bytes.ofChars ds ++ rest)
    have htake := takeDigits_ofChars hds fun b hb => (hr b hb).1
    rw [show Bytes.ofChars ('.' :: ds) ++ rest = code '.' :: (Bytes.ofChars ds ++ rest) from rfl,
      hopt]
    dsimp only [List.isEmpty_cons]
    rw [htake]
    rfl

theorem takeExponent_ofChars {es : List Char} (h : IsExponent es) (hr : EndsNumeral rest) :
    takeExponent (Bytes.ofChars es ++ rest) = .ok (Bytes.ofChars es, rest) := by
  have mark {e : Char} (he : e = 'e' ∨ e = 'E') (t : Bytes) :
      Bytes.ofChar e = [code e] ∧ takeOptional ['e', 'E'] (code e :: t) = ([code e], t) := by
    obtain rfl | rfl := he <;> exact ⟨rfl, rfl⟩
  unfold takeExponent
  cases h with
  | none =>
    have hopt : takeOptional ['e', 'E'] rest = ([], rest) := takeOptional_of_not fun b hb c hc =>
      (hr b hb).2 c (List.mem_cons_of_mem '.' hc)
    rw [show Bytes.ofChars [] ++ rest = rest from rfl, hopt]
    rfl
  | @bare e ds he hds =>
    obtain ⟨hcode, hopt⟩ := mark he (Bytes.ofChars ds ++ rest)
    have hes : Bytes.ofChars (e :: ds) ++ rest = code e :: (Bytes.ofChars ds ++ rest) := by
      simp [Bytes.ofChars, hcode]
    have hsign : takeOptional ['+', '-'] (Bytes.ofChars ds ++ rest) =
        ([], Bytes.ofChars ds ++ rest) := by
      refine takeOptional_of_not fun b hb c hc => ?_
      have hdigit := head_ofChars_digits hds hb
      rintro rfl
      have hnone : c = '+' ∨ c = '-' := by simpa using hc
      obtain rfl | rfl := hnone <;> exact absurd hdigit (by decide)
    have htake := takeDigits_ofChars hds hr.noDigit
    rw [hes, hopt]
    dsimp only [List.isEmpty_cons]
    rw [hsign]
    dsimp only
    rw [if_neg (by decide), htake, ok_bind]
    simp [Bytes.ofChars, hcode, pure, Except.pure]
  | @signed e d ds he hd hds =>
    obtain ⟨hcode, hopt⟩ := mark he (code d :: (Bytes.ofChars ds ++ rest))
    have hsign : Bytes.ofChar d = [code d] ∧
        takeOptional ['+', '-'] (code d :: (Bytes.ofChars ds ++ rest)) =
          ([code d], Bytes.ofChars ds ++ rest) := by
      obtain rfl | rfl := hd <;> exact ⟨rfl, rfl⟩
    have hes : Bytes.ofChars (e :: d :: ds) ++ rest =
        code e :: code d :: (Bytes.ofChars ds ++ rest) := by
      simp [Bytes.ofChars, hcode, hsign.1]
    have htake := takeDigits_ofChars hds hr.noDigit
    rw [hes, hopt]
    dsimp only [List.isEmpty_cons]
    rw [hsign.2]
    dsimp only
    rw [if_neg (by decide), htake, ok_bind]
    simp [Bytes.ofChars, hcode, hsign.1, pure, Except.pure]

/-- A number is read up to what does not go on with it. -/
theorem takeNumber_ofChars {n : Numeral} (h : n.IsProper) (hr : EndsNumeral rest) :
    takeNumber (Bytes.ofChars n.chars ++ rest) = .ok (Bytes.ofChars n.chars, rest) := by
  have hends := endsWhole_exponent h.exponent hr
  have hwhole := takeWhole_ofChars h.whole (noDigit_fraction h.fraction hends)
  have hfraction := takeFraction_ofChars h.fraction hends
  have hexponent := takeExponent_ofChars h.exponent hr
  have hsign : takeOptional ['-'] (Bytes.ofChars n.sign ++ (Bytes.ofChars n.whole ++
      (Bytes.ofChars n.fraction ++ (Bytes.ofChars n.exponent ++ rest)))) =
      (Bytes.ofChars n.sign, Bytes.ofChars n.whole ++ (Bytes.ofChars n.fraction ++
        (Bytes.ofChars n.exponent ++ rest))) := by
    unfold Numeral.sign
    split
    · rfl
    · refine takeOptional_of_not fun b hb c hc => ?_
      obtain rfl := List.mem_singleton.1 hc
      have hdigit := head_ofChars_digits h.whole.isDigits hb
      rintro rfl
      exact absurd hdigit (by decide)
  have htext : Bytes.ofChars n.chars ++ rest = Bytes.ofChars n.sign ++ (Bytes.ofChars n.whole ++
      (Bytes.ofChars n.fraction ++ (Bytes.ofChars n.exponent ++ rest))) := by
    simp only [Numeral.chars, ofChars_append, List.append_assoc]
  rw [htext, takeNumber_eq, hsign]
  dsimp only
  rw [hwhole, ok_bind, hfraction, ok_bind, hexponent, ok_bind]
  simp only [Numeral.chars, ofChars_append, List.append_assoc]
  rfl

/-! ### The value of a number -/

/-- A character below 128. -/
def IsAscii (c : Char) : Prop := c.toNat < 128

instance (c : Char) : Decidable (IsAscii c) := inferInstanceAs (Decidable (_ < _))

theorem IsAscii.toNat_code {c : Char} (h : IsAscii c) : (code c).toNat = c.toNat :=
  toNat_ofNat (Nat.lt_trans h (by decide))

theorem IsAscii.ofChar {c : Char} (h : IsAscii c) : Bytes.ofChar c = [code c] := ofChar_ascii h

theorem IsAscii.glyphs_code {c : Char} (h : IsAscii c) (rest : Bytes) :
    Bytes.glyphs (code c :: rest) = .char c :: rest.glyphs := by
  have hglyphs := glyphs_ofChar_append c rest
  rwa [h.ofChar] at hglyphs

theorem code_inj {c d : Char} (hc : IsAscii c) (hd : IsAscii d) (h : code c = code d) : c = d :=
  Char.toNat_inj.1 (by rw [← hc.toNat_code, ← hd.toNat_code, h])

theorem map_ofChars_ascii {cs : List Char} (h : ∀ c ∈ cs, IsAscii c) :
    (Bytes.ofChars cs).map (fun b => Char.ofNat b.toNat) = cs := by
  induction cs with
  | nil => rfl
  | cons c cs ih =>
    have hc := h c List.mem_cons_self
    have hcs : Bytes.ofChars (c :: cs) = code c :: Bytes.ofChars cs := by
      simp [Bytes.ofChars, hc.ofChar]
    rw [hcs, List.map_cons, ih fun d hd => h d (List.mem_cons_of_mem c hd), hc.toNat_code,
      Char.ofNat_toNat]

theorem readInt_sign (s : Bool) {ds : List Char} (h : IsDigits ds) (cs : List Char) :
    Decimal.readInt ((if s then ['-'] else []) ++ (ds ++ cs)) =
      if !(ds ++ cs).all Decimal.isDigit then .error .malformed
      else
        if Decimal.fitsInt64 (if s then -Decimal.digitsValue (ds ++ cs)
          else Decimal.digitsValue (ds ++ cs)) then
          .ok (if s then -Decimal.digitsValue (ds ++ cs) else Decimal.digitsValue (ds ++ cs))
        else .error .outOfRange := by
  obtain ⟨c, ds, rfl⟩ := List.exists_cons_of_ne_nil h.1
  have hc := h.2 c List.mem_cons_self
  have hminus : c ≠ '-' := ne_of_digit hc rfl
  have hplus : c ≠ '+' := ne_of_digit hc rfl
  cases s <;> simp [Decimal.readInt, hminus, hplus]

theorem isAscii_of_isDigit {c : Char} (h : Decimal.isDigit c = true) : IsAscii c := by
  simp only [Decimal.isDigit, Bool.and_eq_true, decide_eq_true_eq, Char.le_def,
    UInt32.le_iff_toNat_le] at h
  have h9 : ('9' : Char).val.toNat = 57 := rfl
  have hval : c.toNat = c.val.toNat := rfl
  rw [IsAscii]
  omega

theorem IsDigits.isAscii {ds : List Char} (h : IsDigits ds) : ∀ c ∈ ds, IsAscii c :=
  fun c hc => isAscii_of_isDigit (h.2 c hc)

theorem IsFraction.isAscii {fs : List Char} (h : IsFraction fs) : ∀ c ∈ fs, IsAscii c := by
  cases h with
  | none => exact List.forall_mem_nil _
  | some hds => exact List.forall_mem_cons.2 ⟨by decide, IsDigits.isAscii hds⟩

theorem IsExponent.isAscii {es : List Char} (h : IsExponent es) : ∀ c ∈ es, IsAscii c := by
  cases h with
  | none => exact List.forall_mem_nil _
  | bare he hds =>
    refine List.forall_mem_cons.2 ⟨?_, IsDigits.isAscii hds⟩
    obtain rfl | rfl := he <;> decide
  | signed he hd hds =>
    refine List.forall_mem_cons.2 ⟨?_, List.forall_mem_cons.2 ⟨?_, IsDigits.isAscii hds⟩⟩
    · obtain rfl | rfl := he <;> decide
    · obtain rfl | rfl := hd <;> decide

theorem IsFraction.eq_nil {fs : List Char} (h : IsFraction fs)
    (hall : fs.all Decimal.isDigit = true) : fs = [] := by
  cases h with
  | none => rfl
  | some _ => exact absurd (List.all_eq_true.1 hall '.' List.mem_cons_self) (by decide)

theorem IsExponent.eq_nil {es : List Char} (h : IsExponent es)
    (hall : es.all Decimal.isDigit = true) : es = [] := by
  have mark {e : Char} (he : e = 'e' ∨ e = 'E') : ¬ Decimal.isDigit e = true := by
    obtain rfl | rfl := he <;> decide
  cases h with
  | none => rfl
  | bare he _ => exact absurd (List.all_eq_true.1 hall _ List.mem_cons_self) (mark he)
  | signed he _ _ => exact absurd (List.all_eq_true.1 hall _ List.mem_cons_self) (mark he)

namespace Numeral

variable {n : Numeral}

theorem IsProper.isAscii (h : n.IsProper) : ∀ c ∈ n.chars, IsAscii c := by
  have hsign : ∀ c ∈ n.sign, IsAscii c := by
    unfold sign
    split
    · exact List.forall_mem_singleton.2 (by decide)
    · exact List.forall_mem_nil _
  intro c hc
  simp only [chars, List.mem_append] at hc
  obtain ((hc | hc) | hc) | hc := hc
  · exact hsign c hc
  · exact IsDigits.isAscii h.whole.isDigits c hc
  · exact IsFraction.isAscii h.fraction c hc
  · exact IsExponent.isAscii h.exponent c hc

/-- Nothing but the whole part consists of digits. -/
theorem IsProper.all_digits (h : n.IsProper) :
    (n.fraction ++ n.exponent).all Decimal.isDigit = true ↔ n.fraction = [] ∧ n.exponent = [] := by
  refine ⟨fun hall => ?_, fun ⟨hf, he⟩ => by rw [hf, he]; rfl⟩
  rw [List.all_append, Bool.and_eq_true] at hall
  exact ⟨IsFraction.eq_nil h.fraction hall.1, IsExponent.eq_nil h.exponent hall.2⟩

theorem readInt_chars (h : n.IsProper) : n.IsInt ∧ Decimal.readInt n.chars = .ok n.integer ∨
    ¬ n.IsInt ∧ ∃ e, Decimal.readInt n.chars = .error e := by
  have hdigits := h.whole.isDigits
  have hread := readInt_sign n.negative hdigits (n.fraction ++ n.exponent)
  have hchars : n.chars = (if n.negative then ['-'] else []) ++
      (n.whole ++ (n.fraction ++ n.exponent)) := by
    simp only [chars, sign, List.append_assoc]
  rw [hchars, hread, List.all_append, List.all_eq_true.2 hdigits.2, Bool.true_and]
  by_cases htail : n.fraction = [] ∧ n.exponent = []
  · obtain ⟨hf, he⟩ := htail
    by_cases hfits : Decimal.fitsInt64 n.integer = true
    · refine .inl ⟨⟨hf, he, hfits⟩, ?_⟩
      simp only [integer] at hfits ⊢
      simp [hf, he, hfits]
    · refine .inr ⟨fun hint => hfits hint.2.2, .outOfRange, ?_⟩
      simp only [integer] at hfits
      simp [hf, he, hfits]
  · refine .inr ⟨fun hint => htail ⟨hint.1, hint.2.1⟩, .malformed, ?_⟩
    have hall := eq_false_of_ne_true (mt h.all_digits.1 htail)
    rw [hall]
    rfl

end Numeral

/-- The value that is read is the one the number denotes. -/
theorem numberValue_eq_ok {n : Numeral} (h : n.IsProper) {v : JsonValue} :
    numberValue (Bytes.ofChars n.chars) = .ok v ↔ n.Denotes v := by
  unfold numberValue
  rw [map_ofChars_ascii h.isAscii]
  dsimp only
  obtain ⟨hint, hread⟩ | ⟨hint, e, hread⟩ := Numeral.readInt_chars h
  · rw [hread]
    constructor
    · intro heq
      cases heq
      exact .int hint
    · intro hv
      cases hv with
      | int _ => rfl
      | float hnot _ => exact absurd hint hnot
  · rw [hread]
    dsimp only
    constructor
    · intro heq
      cases hx : Decimal.readFloat n.chars with
      | ok x =>
        rw [hx] at heq
        cases heq
        exact .float hint hx
      | error e =>
        rw [hx] at heq
        cases heq
    · intro hv
      cases hv with
      | int hyes => exact absurd hyes hint
      | float _ hx => rw [hx]

/-! ### Literals and numbers -/

/-- What is read as a literal or number is one. -/
theorem takeWord_sound {w : Word} {v : JsonValue} (h : takeWord text = .ok (w, rest))
    (hv : w.value = .ok v) (n : Nat) :
    ∃ gs, IsValue n gs v ∧ text.glyphs = gs ++ rest.glyphs := by
  have literal {l : String} {rest' : Bytes} (hl : takeLiteral l text = .ok rest') :
      text.glyphs = l.toList.map .char ++ rest'.glyphs := by
    rw [takeLiteral_eq_ok.1 hl, glyphs_ofChars_append]
  cases text with
  | nil => cases h
  | cons b text =>
    rw [takeWord] at h
    split at h
    · obtain ⟨rest', hl, heq⟩ := bind_eq_ok.1 h
      cases heq
      cases hv
      exact ⟨_, .null, literal hl⟩
    split at h
    · obtain ⟨rest', hl, heq⟩ := bind_eq_ok.1 h
      cases heq
      cases hv
      exact ⟨_, .bool true, literal hl⟩
    split at h
    · obtain ⟨rest', hl, heq⟩ := bind_eq_ok.1 h
      cases heq
      cases hv
      exact ⟨_, .bool false, literal hl⟩
    split at h
    · obtain ⟨⟨num, rest'⟩, hnum, heq⟩ := bind_eq_ok.1 h
      cases heq
      obtain ⟨m, hm, rfl, htext⟩ := takeNumber_sound hnum
      refine ⟨_, .number hm ((numberValue_eq_ok hm).1 hv), ?_⟩
      rw [htext, glyphs_ofChars_append]
    · cases h

theorem takeWord_literal {w : Word} {l : String}
    (h : (w, l) ∈ [(Word.null, "null"), (.bool true, "true"), (.bool false, "false")])
    (rest : Bytes) : takeWord (Bytes.ofChars l.toList ++ rest) = .ok (w, rest) := by
  have hl := takeLiteral_eq_ok.2 (rfl : Bytes.ofChars l.toList ++ rest = _)
  have word (w : Word) :
      (takeLiteral l (Bytes.ofChars l.toList ++ rest) >>= fun text => .ok (w, text)) =
        .ok (w, rest) := by
    rw [hl]
    rfl
  simp only [List.mem_cons, Prod.mk.injEq, List.not_mem_nil, or_false] at h
  obtain ⟨rfl, rfl⟩ | ⟨rfl, rfl⟩ | ⟨rfl, rfl⟩ := h
  · exact word .null
  · exact word (.bool true)
  · exact word (.bool false)

/-- How a number starts. -/
theorem Numeral.IsProper.head {m : Numeral} (h : m.IsProper) :
    ∃ c cs, m.chars = c :: cs ∧ (c = '-' ∨ Decimal.isDigit c = true) := by
  obtain ⟨d, ds, hds⟩ := List.exists_cons_of_ne_nil h.whole.isDigits.1
  have hd := h.whole.isDigits.2 d (hds ▸ List.mem_cons_self)
  unfold Numeral.chars Numeral.sign
  split
  · exact ⟨'-', _, rfl, .inl rfl⟩
  · exact ⟨d, ds ++ m.fraction ++ m.exponent, by rw [hds]; rfl, .inr hd⟩

theorem takeWord_number {m : Numeral} (h : m.IsProper) (hr : EndsNumeral rest) :
    takeWord (Bytes.ofChars m.chars ++ rest) = .ok (.number (Bytes.ofChars m.chars), rest) := by
  have hnum := takeNumber_ofChars h hr
  obtain ⟨c, cs, hcs, hc⟩ := h.head
  obtain ⟨b, hb, hstart, hn, ht, hf⟩ : ∃ b, Bytes.ofChar c = [b] ∧
      (b = code '-' || isDigit b) = true ∧ b ≠ code 'n' ∧ b ≠ code 't' ∧ b ≠ code 'f' := by
    obtain rfl | hdigit := hc
    · exact ⟨code '-', rfl, by decide⟩
    · obtain ⟨b, hb, hdigit, -⟩ := ofChar_digit hdigit
      refine ⟨b, hb, by simp [hdigit], ?_⟩
      refine ⟨?_, ?_, ?_⟩ <;>
        · rintro rfl
          exact absurd hdigit (by decide)
  have htext : Bytes.ofChars m.chars = b :: Bytes.ofChars cs := by
    simp [hcs, Bytes.ofChars, hb]
  rw [htext] at hnum ⊢
  rw [List.cons_append] at hnum ⊢
  rw [takeWord, if_neg hn, if_neg ht, if_neg hf, if_pos hstart, hnum]
  rfl

end Json

end Stencil
