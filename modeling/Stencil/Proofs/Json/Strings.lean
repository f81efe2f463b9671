import Mathlib
import Stencil.Proofs.Json.Words
import Stencil.Proofs.Text.Pieces

/-!
# Reading the strings of JSON text

A string is read character by character, escape by escape: what is read is the inside of a string of
the grammar up to its quote, and the inside of a string is read as the characters it stands for.
-/

namespace Stencil.Json

variable {text rest : Bytes} {cs ds es : List Char}

/-! ### Escapes -/

theorem startsWith_iff {p : Bytes} : Bytes.startsWith text p = true ↔ ∃ rest, text = p ++ rest := by
  rw [Bytes.startsWith, Option.isSome_iff_exists]
  simp only [dropLeading?_eq_some_iff]

/-- An escape of one letter stands for what the table has. -/
theorem shortEscape?_eq_some {e b : UInt8} :
    shortEscape? e = some b ↔ ∃ p ∈ escapes, e = code p.1 ∧ b = code p.2 := by
  constructor
  · intro h
    have hcode {c : Char} (hc : Char.ofNat e.toNat = c) : e = code c := by
      rw [code, ← hc, toNat_ofNat_byte, Nat.toUInt8_eq, UInt8.ofNat_toNat]
    unfold shortEscape? at h
    split at h
    all_goals cases h
    all_goals
      rename_i hc
      obtain rfl := hcode hc
      decide
  · rintro ⟨p, hp, rfl, rfl⟩
    revert p
    decide

theorem isAscii_of_escapes : ∀ p ∈ escapes, IsAscii p.1 ∧ IsAscii p.2 := by decide

theorem isAscii_hexValue? {c : Char} {n : Nat} (h : hexValue? c = some n) : IsAscii c := by
  have h9 : ('9' : Char).val.toNat = 57 := rfl
  have hf : ('f' : Char).val.toNat = 102 := rfl
  have hF : ('F' : Char).val.toNat = 70 := rfl
  have hc : c.toNat = c.val.toNat := rfl
  rw [IsAscii, hc]
  unfold hexValue? at h
  simp only [Char.le_def, UInt32.le_iff_toNat_le] at h
  split at h
  · omega
  split at h
  · omega
  split at h
  · omega
  · cases h

/-- Four bytes are read as a code if they are digits of one. -/
theorem hexFour?_eq_some {bs : Bytes} {n : Nat} :
    hexFour? bs = some n ↔ ∃ ds, bs = Bytes.ofChars ds ∧ IsCode ds n := by
  unfold hexFour?
  constructor
  · intro h
    split at h
    · rename_i hlen
      obtain ⟨a, b, c, d, rfl⟩ : ∃ a b c d, bs = [a, b, c, d] := by
        match bs, hlen with
        | [a, b, c, d], _ => exact ⟨a, b, c, d, rfl⟩
      simp only [List.foldlM_cons, List.foldlM_nil, Option.bind_eq_bind, Option.bind_eq_some_iff,
        Option.map_eq_some_iff, Option.pure_def, Option.some.injEq] at h
      obtain ⟨_, ⟨w, hw, rfl⟩, _, ⟨x, hx, rfl⟩, _, ⟨y, hy, rfl⟩, _, ⟨z, hz, rfl⟩, rfl⟩ := h
      rw [Nat.mul_zero, Nat.zero_add]
      refine ⟨_, eq_ofChars_of_ascii ?_, .mk hw hx hy hz⟩
      have ascii {b : UInt8} {v : Nat} (h : hexValue? (Char.ofNat b.toNat) = some v) : b < 128 := by
        have hlt := isAscii_hexValue? h
        rw [IsAscii, toNat_ofNat_byte] at hlt
        exact UInt8.lt_iff_toNat_lt.2 hlt
      simp [ascii hw, ascii hx, ascii hy, ascii hz]
    · cases h
  · rintro ⟨_, rfl, @⟨a, b, c, d, w, x, y, z, hw, hx, hy, hz⟩⟩
    have ha := isAscii_hexValue? hw
    have hb := isAscii_hexValue? hx
    have hc := isAscii_hexValue? hy
    have hd := isAscii_hexValue? hz
    have hbs : Bytes.ofChars [a, b, c, d] = [code a, code b, code c, code d] := by
      simp [Bytes.ofChars, ha.ofChar, hb.ofChar, hc.ofChar, hd.ofChar]
    have hmap : (Bytes.ofChars [a, b, c, d]).map (fun b => Char.ofNat b.toNat) = [a, b, c, d] :=
      map_ofChars_ascii (by simp [ha, hb, hc, hd])
    simp only [hbs, List.map_cons, List.map_nil, List.cons.injEq, and_true] at hmap
    obtain ⟨ha, hb, hc, hd⟩ := hmap
    rw [hbs]
    simp [ha, hb, hc, hd, hw, hx, hy, hz]

/-! ### Escapes by number -/

/-- The bytes of an escape by number. -/
def escapeBytes (digits : List Char) : Bytes := Bytes.ofChars ('\\' :: 'u' :: digits)

theorem IsCode.length {n : Nat} (h : IsCode ds n) : (Bytes.ofChars ds).length = 4 := by
  obtain ⟨ha, hb, hc, hd⟩ := h
  simp [Bytes.ofChars, (isAscii_hexValue? ha).ofChar, (isAscii_hexValue? hb).ofChar,
    (isAscii_hexValue? hc).ofChar, (isAscii_hexValue? hd).ofChar]

theorem escapeBytes_append (ds : List Char) (rest : Bytes) :
    escapeBytes ds ++ rest = 92 :: code 'u' :: (Bytes.ofChars ds ++ rest) := rfl

theorem IsCode.drop {n : Nat} (h : IsCode ds n) (rest : Bytes) :
    (escapeBytes ds ++ rest).drop 6 = rest := by
  have hlen : (escapeBytes ds).length = 6 := congrArg (· + 2) h.length
  rw [← hlen]
  exact List.drop_left

theorem glyphs_escapeBytes_append (ds : List Char) (rest : Bytes) :
    (escapeBytes ds ++ rest).glyphs = escape ds ++ rest.glyphs :=
  glyphs_ofChars_append _ rest

theorem eq_of_glyphs_escape {gs : List Glyph} (h : text.glyphs = escape ds ++ gs) :
    ∃ rest, text = escapeBytes ds ++ rest ∧ rest.glyphs = gs :=
  eq_of_glyphs_chars h

/-- The code of an escape that starts the text. -/
def leadingCode? (text : Bytes) : Option Nat :=
  if Bytes.startsWith text "\\u" then hexFour? ((text.drop 2).take 4) else none

theorem startsWith_escape : Bytes.startsWith text "\\u" = true ↔
    ∃ rest, text = 92 :: code 'u' :: rest := by
  rw [startsWith_iff, ofString_eq_ofChars]
  rfl

theorem leadingCode?_eq_some {n : Nat} :
    leadingCode? text = some n ↔ ∃ ds rest, text = escapeBytes ds ++ rest ∧ IsCode ds n := by
  unfold leadingCode?
  constructor
  · intro h
    split at h
    · rename_i hstart
      obtain ⟨rest, rfl⟩ := startsWith_escape.1 hstart
      obtain ⟨ds, hds, hcode⟩ := hexFour?_eq_some.1 h
      refine ⟨ds, rest.drop 4, ?_, hcode⟩
      rw [escapeBytes_append, ← show rest.take 4 = Bytes.ofChars ds from hds,
        List.take_append_drop]
    · cases h
  · rintro ⟨ds, rest, rfl, hcode⟩
    have htake : (Bytes.ofChars ds ++ rest).take 4 = Bytes.ofChars ds := by
      rw [← hcode.length]
      exact List.take_left
    rw [escapeBytes_append, if_pos (startsWith_escape.2 ⟨Bytes.ofChars ds ++ rest, rfl⟩)]
    exact hexFour?_eq_some.2 ⟨ds, htake, hcode⟩

theorem isSurrogate_iff {n : Nat} : isSurrogate n = true ↔ IsHigh n ∨ IsLow n := by
  simp only [isSurrogate, IsHigh, IsLow, Bool.and_eq_true, decide_eq_true_eq]
  omega

theorem pairChar?_eq {m n : Nat} : pairChar? m n = if IsHigh m ∧ IsLow n then
    some (Char.ofNat (0x10000 + (m - 0xD800) * 0x400 + (n - 0xDC00))) else none := by
  simp only [pairChar?, IsHigh, IsLow, Bool.and_eq_true, decide_eq_true_eq, and_assoc]

/-- What an escape by number is read as. -/
theorem numberEscape?_append {n : Nat} (h : IsCode ds n) (rest : Bytes) :
    numberEscape? (escapeBytes ds ++ rest) =
      if !isSurrogate n then some (Char.ofNat n, 6)
      else match (leadingCode? rest).bind (pairChar? n) with
        | some c => some (c, 12)
        | none => some (replacementChar, 6) := by
  have hcode : hexFour? (((escapeBytes ds ++ rest).drop 2).take 4) = some n := by
    refine hexFour?_eq_some.2 ⟨ds, ?_, h⟩
    rw [← h.length]
    exact List.take_left
  unfold numberEscape?
  rw [hcode, h.drop]
  rfl

theorem numberEscape?_plain {n : Nat} (h : IsCode ds n) (hhigh : ¬ IsHigh n) (hlow : ¬ IsLow n)
    (rest : Bytes) : numberEscape? (escapeBytes ds ++ rest) = some (Char.ofNat n, 6) := by
  have hplain : isSurrogate n = false :=
    eq_false_of_ne_true fun hs => (isSurrogate_iff.1 hs).elim hhigh hlow
  rw [numberEscape?_append h, hplain]
  rfl

theorem numberEscape?_pair {m n : Nat} (hds : IsCode ds m) (hhigh : IsHigh m) (hes : IsCode es n)
    (hlow : IsLow n) (rest : Bytes) : numberEscape? (escapeBytes ds ++ (escapeBytes es ++ rest)) =
      some (Char.ofNat (0x10000 + (m - 0xD800) * 0x400 + (n - 0xDC00)), 12) := by
  have hcode : leadingCode? (escapeBytes es ++ rest) = some n :=
    leadingCode?_eq_some.2 ⟨es, rest, rfl, hes⟩
  have hpair := (pairChar?_eq (m := m) (n := n)).trans (if_pos ⟨hhigh, hlow⟩)
  rw [numberEscape?_append hds, isSurrogate_iff.2 (.inl hhigh), hcode, Option.bind_some, hpair]
  rfl

/-- Half a pair that the other half does not follow. -/
theorem numberEscape?_half {n : Nat} (h : IsCode ds n) (hn : IsHigh n ∨ IsLow n)
    (halone : IsHigh n → ∀ es m rest', rest = escapeBytes es ++ rest' → IsCode es m → ¬ IsLow m) :
    numberEscape? (escapeBytes ds ++ rest) = some (replacementChar, 6) := by
  have hnone : (leadingCode? rest).bind (pairChar? n) = none := by
    cases hm : leadingCode? rest with
    | none => rfl
    | some m =>
      obtain ⟨es, rest', hrest, hes⟩ := leadingCode?_eq_some.1 hm
      rw [Option.bind_some, pairChar?_eq]
      exact if_neg fun hpair => halone hpair.1 es m rest' hrest hes hpair.2
  rw [numberEscape?_append h, isSurrogate_iff.2 hn, hnone]
  rfl

/-! ### Characters -/

theorem le_of_ofChar {c : Char} {b : UInt8} {more : Bytes} (h : ¬ IsAscii c)
    (hb : Bytes.ofChar c = b :: more) : ¬ b < 128 := by
  intro hlt
  have hlead := leadingChar?_ofChar c []
  rw [List.append_nil, hb, ← List.singleton_append, ← ofChar_ofNat_byte hlt,
    leadingChar?_ofChar] at hlead
  have hc : Char.ofNat b.toNat = c := congrArg Prod.fst (Option.some.inj hlead)
  refine h ?_
  rw [IsAscii, ← hc, toNat_ofNat_byte]
  exact UInt8.lt_iff_toNat_lt.1 hlt

/-- A text that is cut off in a character has no ASCII in it. -/
theorem le_of_isCutChar {b : UInt8} (h : isCutChar (b :: rest) = true) : ∀ x ∈ rest, 128 ≤ x := by
  rw [isCutChar] at h
  split at h
  · cases h
  · rename_i n lo hi hshape
    have hlo : 128 ≤ lo := by
      unfold charShape? at hshape
      split_ifs at hshape <;> cases hshape <;> decide
    cases rest with
    | nil => exact List.forall_mem_nil _
    | cons c more =>
      simp only [Bool.and_eq_true, decide_eq_true_eq, List.all_eq_true] at h
      obtain ⟨-, ⟨hc, -⟩, hmore⟩ := h
      exact List.forall_mem_cons.2 ⟨UInt8.le_trans hlo hc, fun x hx => (hmore x hx).1⟩

/-- Where a quote follows, no character is cut off. -/
theorem isCutChar_of_quote {b : UInt8} (h : .char '"' ∈ rest.glyphs) :
    isCutChar (b :: rest) = false := by
  refine eq_false_of_ne_true fun hcut => ?_
  have hmem : (34 : UInt8) ∈ rest := by
    rw [← flatMap_bytes_glyphs rest]
    exact List.mem_flatMap.2 ⟨_, h, by decide⟩
  exact absurd (le_of_isCutChar hcut 34 hmem) (by decide)

theorem leadingChar?_ascii {b : UInt8} (h : b < 128) (rest : Bytes) :
    leadingChar? (b :: rest) = some (Char.ofNat b.toNat, 1) := by
  have hlead := leadingChar?_ofChar (Char.ofNat b.toNat) rest
  rwa [ofChar_ofNat_byte h] at hlead

theorem not_isAscii_of_leadingChar? {b : UInt8} {c : Char} {n : Nat} (hb : ¬ b < 128)
    (h : leadingChar? (b :: rest) = some (c, n)) : ¬ IsAscii c := by
  intro hc
  obtain ⟨hbytes, hpos⟩ := bytes_headGlyph b rest
  rw [headGlyph, h] at hbytes hpos
  obtain ⟨n, rfl⟩ := Nat.exists_eq_succ_of_ne_zero (Nat.ne_of_gt hpos)
  have hcode : [code c] = b :: rest.take n := hc.ofChar.symm.trans hbytes
  obtain rfl := (List.cons.inj hcode).1
  refine hb (UInt8.lt_iff_toNat_lt.2 ?_)
  rw [hc.toNat_code]
  exact hc

/-! ### Strings -/

variable {fuel : Nat} {done : Bytes}

theorem readString_letter : ∀ p ∈ escapes, readString (fuel + 1) done (92 :: code p.1 :: rest) =
    readString fuel ((Bytes.ofChar p.2).reverse ++ done) rest := by
  intro p hp
  have hshort := shortEscape?_eq_some.2 ⟨p, hp, rfl, rfl⟩
  rw [readString, if_neg (by decide), if_pos rfl, (isAscii_of_escapes p hp).2.ofChar]
  simp only [hshort]
  rfl

theorem readString_number {n k : Nat} {c : Char} (h : IsCode ds n)
    (hread : numberEscape? (escapeBytes ds ++ text) = some (c, k))
    (hrest : (escapeBytes ds ++ text).drop k = rest) :
    readString (fuel + 1) done (escapeBytes ds ++ text) =
      readString fuel ((Bytes.ofChar c).reverse ++ done) rest := by
  have hlen : ¬ (code 'u' :: (Bytes.ofChars ds ++ text)).length < 5 := by
    rw [List.length_cons, List.length_append, h.length]
    omega
  have hshort : shortEscape? (code 'u') = none := by decide
  rw [escapeBytes_append] at hread hrest ⊢
  rw [readString, if_neg (by decide), if_pos rfl]
  simp only [hshort, hread, hrest, if_neg hlen, ne_eq, not_true_eq_false, if_false]

/-- A character that is neither a quote nor a backslash is read for itself. -/
theorem readString_plain {b : UInt8} (hquote : b ≠ 34) (hslash : b ≠ 92) :
    readString (fuel + 1) done (b :: rest) =
      if b < 32 then .error (.unexpected (b :: rest) .inString)
      else if b < 128 then readString fuel (b :: done) rest
      else match leadingChar? (b :: rest) with
        | some (c, n) => readString fuel ((Bytes.ofChar c).reverse ++ done) ((b :: rest).drop n)
        | none =>
          if isCutChar (b :: rest) then .error .cut
          else readString fuel ((Bytes.ofChar replacementChar).reverse ++ done) rest := by
  rw [readString.eq_def]
  exact (if_neg hquote).trans (if_neg hslash)

theorem readString_ofChar {c : Char} (hlow : 32 ≤ c.toNat) (hquote : c ≠ '"') (hslash : c ≠ '\\') :
    readString (fuel + 1) done (Bytes.ofChar c ++ rest) =
      readString fuel ((Bytes.ofChar c).reverse ++ done) rest := by
  by_cases hc : IsAscii c
  · have hlt : ¬ code c < 32 := fun h => by
      have := UInt8.lt_iff_toNat_lt.1 h
      rw [hc.toNat_code] at this
      exact absurd hlow (Nat.not_le.2 this)
    have hascii : code c < 128 := UInt8.lt_iff_toNat_lt.2 (by rw [hc.toNat_code]; exact hc)
    have hq : code c ≠ code '"' := mt (code_inj hc (by decide)) hquote
    have hs : code c ≠ code '\\' := mt (code_inj hc (by decide)) hslash
    rw [hc.ofChar, List.singleton_append, readString_plain hq hs, if_neg hlt, if_pos hascii]
    rfl
  · obtain ⟨b, more, hb⟩ := List.exists_cons_of_ne_nil (ofChar_ne_nil c)
    have hwide := le_of_ofChar hc hb
    have hlead := leadingChar?_ofChar c rest
    have hdrop : (Bytes.ofChar c ++ rest).drop (Bytes.ofChar c).length = rest := List.drop_left
    rw [hb] at hlead hdrop ⊢
    rw [List.cons_append] at hlead hdrop ⊢
    have hq : b ≠ 34 := fun h => hwide (by rw [h]; decide)
    have hs : b ≠ 92 := fun h => hwide (by rw [h]; decide)
    have hlt : ¬ b < 32 := fun h => hwide (UInt8.lt_trans h (by decide))
    rw [readString_plain hq hs, if_neg hlt, if_neg hwide, hlead]
    dsimp only
    rw [hdrop, hb]

theorem readString_stray {b : UInt8} (hlead : leadingChar? (b :: rest) = none)
    (hcut : isCutChar (b :: rest) = false) :
    readString (fuel + 1) done (b :: rest) =
      readString fuel ((Bytes.ofChar replacementChar).reverse ++ done) rest := by
  have hwide : ¬ b < 128 := fun h => by
    rw [leadingChar?_ascii h] at hlead
    cases hlead
  have hq : b ≠ 34 := fun h => hwide (by rw [h]; decide)
  have hs : b ≠ 92 := fun h => hwide (by rw [h]; decide)
  have hlt : ¬ b < 32 := fun h => hwide (UInt8.lt_trans h (by decide))
  rw [readString_plain hq hs, if_neg hlt, if_neg hwide, hlead]
  dsimp only
  rw [hcut]
  rfl

/-- A text that is a piece of a string and what follows it: reading it takes one step. -/
theorem IsPiece.readString {gs hs : List Glyph} {c : Char} (h : IsPiece gs c hs)
    (hquote : .char '"' ∈ hs) (htext : text.glyphs = gs ++ hs) :
    ∃ rest, rest.glyphs = hs ∧ rest.length < text.length ∧
      ∀ fuel done, readString (fuel + 1) done text =
        readString fuel ((Bytes.ofChar c).reverse ++ done) rest := by
  cases h with
  | plain hlow hne hslash =>
    obtain ⟨rest, rfl, hrest⟩ := eq_of_glyphs_char htext
    have hpos := List.length_pos_of_ne_nil (ofChar_ne_nil c)
    exact ⟨rest, hrest, by rw [List.length_append]; omega, fun fuel done =>
      readString_ofChar hlow hne hslash⟩
  | stray =>
    obtain ⟨rest, rfl, rfl, hlead⟩ := eq_of_glyphs_stray htext
    exact ⟨rest, rfl, by simp, fun fuel done =>
      readString_stray hlead (isCutChar_of_quote hquote)⟩
  | letter hp =>
    obtain ⟨mid, rfl, hmid⟩ := eq_of_glyphs_char htext
    obtain ⟨rest, rfl, hrest⟩ := eq_of_glyphs_char hmid
    rw [(isAscii_of_escapes _ hp).1.ofChar]
    exact ⟨rest, hrest, by simp; omega, fun fuel done => readString_letter _ hp⟩
  | code hcode hhigh hlow =>
    obtain ⟨rest, rfl, hrest⟩ := eq_of_glyphs_escape htext
    exact ⟨rest, hrest, by simp [escapeBytes_append]; omega, fun fuel done =>
      readString_number hcode (numberEscape?_plain hcode hhigh hlow rest) (hcode.drop rest)⟩
  | pair hds hhigh hes hlow =>
    rw [List.append_assoc] at htext
    obtain ⟨mid, rfl, hmid⟩ := eq_of_glyphs_escape htext
    obtain ⟨rest, rfl, hrest⟩ := eq_of_glyphs_escape hmid
    refine ⟨rest, hrest, by simp [escapeBytes_append]; omega, fun fuel done =>
      readString_number hds (numberEscape?_pair hds hhigh hes hlow rest) ?_⟩
    rw [← List.drop_drop (i := 6) (j := 6), hds.drop, hes.drop]
  | half hcode hn halone =>
    obtain ⟨rest, rfl, rfl⟩ := eq_of_glyphs_escape htext
    refine ⟨rest, rfl, by simp [escapeBytes_append]; omega, fun fuel done =>
      readString_number hcode (numberEscape?_half hcode hn ?_) (hcode.drop rest)⟩
    rintro hhigh es m rest' rfl hes
    exact halone hhigh es m rest'.glyphs (glyphs_escapeBytes_append es rest') hes

/-- The digits of a code are not quotes. -/
theorem IsCode.not_quote {n : Nat} (h : IsCode ds n) : .char '"' ∉ escape ds := by
  have digit {c : Char} {v : Nat} (hc : hexValue? c = some v) : '"' ≠ c := by
    rintro rfl
    rw [show hexValue? '"' = none by decide] at hc
    cases hc
  obtain ⟨ha, hb, hc, hd⟩ := h
  simp [escape, digit ha, digit hb, digit hc, digit hd]

/-- Where a piece of a string is at its end, a quote may follow. -/
theorem IsPiece.append_quote {gs hs : List Glyph} {c : Char} (h : IsPiece gs c hs)
    (tail : List Glyph) : IsPiece gs c (hs ++ .char '"' :: tail) := by
  cases h with
  | plain hlow hne hslash => exact .plain hlow hne hslash
  | stray => exact .stray
  | letter hp => exact .letter hp
  | code hcode hhigh hlow => exact .code hcode hhigh hlow
  | pair hds hhigh hes hlow => exact .pair hds hhigh hes hlow
  | half hcode hn halone =>
    refine .half hcode hn fun hhigh es m ks heq hes => ?_
    obtain ⟨more, hmore, htail⟩ | ⟨more, hmore, -⟩ := List.append_eq_append_iff.1 heq
    · cases more with
      | nil => exact halone hhigh es m [] (by simpa using hmore.symm) hes
      | cons g more =>
        -- the escape would hold the quote
        obtain ⟨rfl, -⟩ := List.cons.inj htail
        refine absurd ?_ hes.not_quote
        rw [hmore]
        exact List.mem_append_right hs List.mem_cons_self
    · exact halone hhigh es m more hmore hes

/-- What follows beyond the end of a string does not count. -/
theorem IsPiece.of_append {gs hs ks : List Glyph} {c : Char} (h : IsPiece gs c (hs ++ ks)) :
    IsPiece gs c hs := by
  cases h with
  | plain hlow hne hslash => exact .plain hlow hne hslash
  | stray => exact .stray
  | letter hp => exact .letter hp
  | code hcode hhigh hlow => exact .code hcode hhigh hlow
  | pair hds hhigh hes hlow => exact .pair hds hhigh hes hlow
  | half hcode hn halone =>
    refine .half hcode hn fun hhigh es m hs' heq hes => halone hhigh es m (hs' ++ ks) ?_ hes
    rw [heq, List.append_assoc]

/-- The inside of a string is read as the characters it stands for. -/
theorem readString_of_glyphs {gs tail : List Glyph} (h : IsInside gs cs) (fuel : Nat) (done : Bytes)
    (htext : text.glyphs = gs ++ .char '"' :: tail) (hfuel : text.length ≤ fuel) :
    ∃ rest, rest.glyphs = tail ∧
      readString fuel done text = .ok (done.reverse ++ Bytes.ofChars cs, rest) := by
  induction h generalizing text fuel done with
  | nil =>
    obtain ⟨rest, rfl, hrest⟩ := eq_of_glyphs_char htext
    rw [show Bytes.ofChar '"' ++ rest = 34 :: rest from rfl] at hfuel ⊢
    obtain ⟨fuel, rfl⟩ : ∃ k, fuel = k + 1 := ⟨fuel - 1, by simp at hfuel; omega⟩
    refine ⟨rest, hrest, ?_⟩
    rw [show Bytes.ofChars [] = [] from rfl, List.append_nil, readString.eq_def]
    rfl
  | @cons gs c hs cs hpiece _ ih =>
    rw [List.append_assoc] at htext
    obtain ⟨mid, hmid, hlen, hstep⟩ := (hpiece.append_quote tail).readString (by simp) htext
    obtain ⟨fuel, rfl⟩ : ∃ k, fuel = k + 1 := ⟨fuel - 1, by omega⟩
    obtain ⟨rest, hrest, hread⟩ :=
      ih fuel ((Bytes.ofChar c).reverse ++ done) hmid (by omega)
    refine ⟨rest, hrest, ?_⟩
    rw [hstep, hread]
    simp [Bytes.ofChars]

/-- What an escape by number is read as is what it stands for. -/
theorem numberEscape?_sound {n : Nat} {c : Char}
    (h : numberEscape? (92 :: code 'u' :: text) = some (c, n)) :
    ∃ gs, ∃ rest : Bytes, (92 :: code 'u' :: text).drop n = rest ∧
      Bytes.glyphs (92 :: code 'u' :: text) = gs ++ rest.glyphs ∧ IsPiece gs c rest.glyphs := by
  obtain ⟨ds, m, rest, hds, heq⟩ : ∃ ds m, ∃ rest : Bytes, IsCode ds m ∧
      92 :: code 'u' :: text = escapeBytes ds ++ rest := by
    unfold numberEscape? at h
    obtain ⟨m, hm, -⟩ := Option.bind_eq_some_iff.1 h
    obtain ⟨ds, htake, hds⟩ := hexFour?_eq_some.1 hm
    refine ⟨ds, m, text.drop 4, hds, ?_⟩
    rw [escapeBytes_append, ← show text.take 4 = Bytes.ofChars ds from htake,
      List.take_append_drop]
  rw [heq] at h ⊢
  by_cases hplain : ¬ IsHigh m ∧ ¬ IsLow m
  · rw [numberEscape?_plain hds hplain.1 hplain.2] at h
    cases h
    exact ⟨_, rest, hds.drop rest, glyphs_escapeBytes_append ds rest,
      .code hds hplain.1 hplain.2⟩
  by_cases hpair : IsHigh m ∧ ∃ es k rest', rest = escapeBytes es ++ rest' ∧ IsCode es k ∧ IsLow k
  · obtain ⟨hhigh, es, k, rest, rfl, hes, hlow⟩ := hpair
    rw [numberEscape?_pair hds hhigh hes hlow] at h
    obtain ⟨rfl, rfl⟩ := Prod.mk.inj (Option.some.inj h)
    refine ⟨_, rest, ?_, ?_, .pair hds hhigh hes hlow⟩
    · rw [← List.drop_drop (i := 6) (j := 6), hds.drop, hes.drop]
    · rw [glyphs_escapeBytes_append, glyphs_escapeBytes_append, List.append_assoc]
  · have hhalf : IsHigh m ∨ IsLow m := by tauto
    rw [numberEscape?_half hds hhalf fun hhigh es k rest' hrest hes hlow =>
      hpair ⟨hhigh, es, k, rest', hrest, hes, hlow⟩] at h
    cases h
    refine ⟨_, rest, hds.drop rest, glyphs_escapeBytes_append ds rest, .half hds hhalf ?_⟩
    intro hhigh es k hs hrest hes hlow
    obtain ⟨rest', rfl, -⟩ := eq_of_glyphs_escape hrest
    exact hpair ⟨hhigh, es, k, rest', rfl, hes, hlow⟩

/-- One step of reading a string reads its quote or a piece of it. -/
theorem readString_step {s : Bytes} (h : readString (fuel + 1) done text = .ok (s, rest)) :
    (text = 34 :: rest ∧ s = done.reverse) ∨
      ∃ gs c, ∃ mid : Bytes, text.glyphs = gs ++ mid.glyphs ∧ IsPiece gs c mid.glyphs ∧
        readString fuel ((Bytes.ofChar c).reverse ++ done) mid = .ok (s, rest) := by
  cases text with
  | nil =>
    rw [readString.eq_def] at h
    cases h
  | cons b text =>
    by_cases hquote : b = 34
    · subst hquote
      rw [readString.eq_def] at h
      cases h
      exact .inl ⟨rfl, rfl⟩
    right
    by_cases hslash : b = 92
    · subst hslash
      cases text with
      | nil =>
        rw [readString.eq_def] at h
        cases h
      | cons e text =>
        cases hshort : shortEscape? e with
        | some x =>
          obtain ⟨p, hp, rfl, rfl⟩ := shortEscape?_eq_some.1 hshort
          rw [readString_letter p hp] at h
          refine ⟨_, p.2, text, ?_, .letter hp, h⟩
          have hcode : Bytes.ofChars ['\\', p.1] = [92, code p.1] := by
            simp [Bytes.ofChars, (isAscii_of_escapes p hp).1.ofChar]
            rfl
          have hchars := glyphs_ofChars_append ['\\', p.1] text
          rwa [hcode] at hchars
        | none =>
          rw [readString, if_neg (by decide), if_pos rfl, hshort] at h
          dsimp only at h
          split at h
          · cases h
          rename_i hu
          obtain rfl : e = code 'u' := not_not.1 hu
          split at h
          · cases h
          split at h
          · rename_i c n hnumber
            obtain ⟨gs, mid, hmid, hgs, hpiece⟩ := numberEscape?_sound hnumber
            exact ⟨gs, c, mid, hgs, hpiece, hmid ▸ h⟩
          · cases h
    rw [readString_plain hquote hslash] at h
    split at h
    · cases h
    rename_i hlow
    by_cases hb : b < 128
    · rw [if_pos hb] at h
      have hchar := ofChar_ofNat_byte hb
      refine ⟨_, _, text, glyphs_ascii_cons hb text, .plain ?_ ?_ ?_, by rw [hchar]; exact h⟩
      · rw [toNat_ofNat_byte]
        exact Nat.not_lt.1 fun hlt => hlow (UInt8.lt_iff_toNat_lt.2 hlt)
      · intro heq
        rw [heq] at hchar
        exact hquote (List.cons.inj hchar).1.symm
      · intro heq
        rw [heq] at hchar
        exact hslash (List.cons.inj hchar).1.symm
    rw [if_neg hb] at h
    have hglyphs := glyphs_cons b text
    unfold headGlyph at hglyphs
    cases hlead : leadingChar? (b :: text) with
    | some r =>
      obtain ⟨c, n⟩ := r
      rw [hlead] at h hglyphs
      have hwide := not_isAscii_of_leadingChar? hb hlead
      refine ⟨_, c, _, hglyphs, .plain ?_ ?_ ?_, h⟩
      · exact Nat.le_of_not_lt fun hlt => hwide (Nat.lt_trans hlt (by decide))
      · rintro rfl
        exact hwide (by decide)
      · rintro rfl
        exact hwide (by decide)
    | none =>
      rw [hlead] at h hglyphs
      dsimp only at h
      split at h
      · cases h
      · exact ⟨_, _, text, hglyphs, .stray, h⟩

/-- What is read of a string is its inside, up to the quote. -/
theorem readString_sound {s : Bytes} (h : readString fuel done text = .ok (s, rest)) :
    ∃ gs cs, IsInside gs cs ∧ text.glyphs = gs ++ .char '"' :: rest.glyphs ∧
      s = done.reverse ++ Bytes.ofChars cs := by
  induction fuel generalizing done text with
  | zero => cases h
  | succ fuel ih =>
    obtain ⟨rfl, rfl⟩ | ⟨gs, c, mid, htext, hpiece, h⟩ := readString_step h
    · exact ⟨[], [], .nil, glyphs_ascii_cons (by decide) rest, (List.append_nil _).symm⟩
    · obtain ⟨hs, cs, hinside, hmid, hs'⟩ := ih h
      rw [hmid] at htext hpiece
      refine ⟨gs ++ hs, c :: cs, .cons hpiece.of_append hinside, ?_, ?_⟩
      · rw [htext, List.append_assoc]
      · rw [hs']
        simp [Bytes.ofChars]

theorem takeString_sound {s : Bytes} (h : takeString (34 :: text) = .ok (s, rest)) :
    ∃ gs cs, IsString gs cs ∧ Bytes.glyphs (34 :: text) = gs ++ rest.glyphs ∧
      s = Bytes.ofChars cs := by
  obtain ⟨gs, cs, hinside, hgs, rfl⟩ := readString_sound h
  refine ⟨_, cs, .mk hinside, ?_, rfl⟩
  rw [glyphs_ascii_cons (by decide), show text.glyphs = _ from hgs]
  simp only [List.cons_append, List.append_assoc, List.nil_append]
  rfl

/-- A string is read up to its end. -/
theorem takeString_of_glyphs {gs tail : List Glyph} (h : IsString gs cs)
    (htext : text.glyphs = gs ++ tail) :
    text.head? = some 34 ∧ ∃ rest, rest.glyphs = tail ∧
      takeString text = .ok (Bytes.ofChars cs, rest) := by
  obtain ⟨hinside⟩ := h
  rw [List.append_assoc] at htext
  obtain ⟨mid, rfl, hmid⟩ := eq_of_glyphs_char htext
  have hread := readString_of_glyphs hinside (34 :: mid).length [] hmid (Nat.le_succ _)
  exact ⟨rfl, hread⟩

end Stencil.Json
