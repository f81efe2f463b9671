import Mathlib
import Stencil.Proofs.Text.Utf8
import Stencil.Source.Lexer

/-!
# How tokens are written

`Spells cs t` says that the characters `cs` are a spelling of the token `t`, for the tokens of
code outside of templates. Followed by a space or by the end of the text, a spelling is read as
its token and nothing of it is left.
-/

namespace Stencil

/-! ### Spellings -/

/-- A run of decimal digits. -/
def IsDigits (cs : List Char) : Prop := cs ≠ [] ∧ ∀ c ∈ cs, Decimal.isDigit c = true

/-- The spelling of a name, which may also be a keyword. -/
inductive IsWord : List Char → Prop where
  | mk {c cs} : isNameStart c = true → (∀ d ∈ cs, (Glyph.char d).isNamePart = true) →
      IsWord (c :: cs)

/-- The fraction of a decimal number. -/
inductive IsFraction : List Char → Prop where
  | none : IsFraction []
  | some {ds} : IsDigits ds → IsFraction ('.' :: ds)

/-- The exponent of a decimal number. -/
inductive IsExponent : List Char → Prop where
  | none : IsExponent []
  | bare {e ds} : e = 'e' ∨ e = 'E' → IsDigits ds → IsExponent (e :: ds)
  | signed {e sign ds} : e = 'e' ∨ e = 'E' → sign = '+' ∨ sign = '-' → IsDigits ds →
      IsExponent (e :: sign :: ds)

/-- The inside of a string literal between quotes `q`. -/
inductive IsQuotable (q : Char) : List Char → Prop where
  | nil : IsQuotable q []
  | plain {c cs} : c ≠ q → c ≠ '\n' → c ≠ '\\' → IsQuotable q cs → IsQuotable q (c :: cs)
  | escape {c cs} : IsQuotable q cs → IsQuotable q ('\\' :: c :: cs)

/-- The mark is one of code outside of templates. -/
def Punct.IsCode : Punct → Prop
  | .openTemplate | .closeTemplate | .dollar => False
  | _ => True

/-- The characters are a spelling of the token. -/
inductive Spells : List Char → Token → Prop where
  | punct {p} : p.IsCode → Spells p.spelling.toList (.punct p)
  | keyword (k) : Spells k.spelling.toList (.keyword k)
  | name {cs} : IsWord cs → Keyword.ofChars? cs = none → Spells cs (.ident (Bytes.ofChars cs))
  | int {ds} : IsDigits ds → Decimal.digitsValue ds < 2 ^ 63 →
      Spells ds (.int (Int64.ofInt (Decimal.digitsValue ds)))
  | float {ds frac exp x} : IsDigits ds → IsFraction frac → IsExponent exp → frac ≠ [] ∨ exp ≠ [] →
      Decimal.readFloat (ds ++ frac ++ exp) = .ok x → Spells (ds ++ frac ++ exp) (.float x)
  | string {q body s} : q = '"' ∨ q = '\'' → IsQuotable q body → unquoteBody? q body = some s →
      Spells (q :: body ++ [q]) (.string s)

/-- What may follow a spelling: nothing or a space. -/
inductive IsGap : List Glyph → Prop where
  | nil : IsGap []
  | space {gs} : IsGap (.char ' ' :: gs)

/-! ### Runs of characters -/

theorem glyphChars_map (cs : List Char) : glyphChars (cs.map .char) = cs := by
  rw [glyphChars, List.map_map]
  exact List.map_id cs

theorem ofGlyphs_map (cs : List Char) : Bytes.ofGlyphs (cs.map .char) = Bytes.ofChars cs := by
  simp [Bytes.ofGlyphs, Bytes.ofChars, List.flatMap_map, Glyph.bytes]

theorem ofChars_append (cs ds : List Char) :
    Bytes.ofChars (cs ++ ds) = Bytes.ofChars cs ++ Bytes.ofChars ds := List.flatMap_append

/-- A run of glyphs ends where one comes that does not belong to it. -/
theorem span_append {P : Glyph → Bool} {gs rest : List Glyph} (h : ∀ g ∈ gs, P g = true)
    (hr : ∀ g, rest.head? = some g → P g = false) :
    (gs ++ rest).takeWhile P = gs ∧ (gs ++ rest).dropWhile P = rest := by
  have hrest : rest.takeWhile P = [] ∧ rest.dropWhile P = rest := by
    cases rest with
    | nil => exact ⟨rfl, rfl⟩
    | cons g rest => simp [hr g rfl]
  rw [List.takeWhile_append_of_pos h, List.dropWhile_append_of_pos h, hrest.1, hrest.2,
    List.append_nil]
  exact ⟨rfl, rfl⟩

theorem IsGap.head {gs : List Glyph} (h : IsGap gs) {g : Glyph} (hg : gs.head? = some g) :
    g = .char ' ' := by
  cases h with
  | nil => cases hg
  | space => exact (Option.some.inj hg).symm

theorem ne_of_digit {c d : Char} (h : Decimal.isDigit c = true) (hd : Decimal.isDigit d = false) :
    c ≠ d := by
  rintro rfl
  exact Bool.noConfusion (h.symm.trans hd)

/-- A run of digits ends at a glyph that is none. -/
theorem span_digits {ds : List Char} {rest : List Glyph} (h : IsDigits ds)
    (hr : ∀ g, rest.head? = some g → g.isDigit = false) :
    (ds.map Glyph.char ++ rest).takeWhile Glyph.isDigit = ds.map Glyph.char ∧
      (ds.map Glyph.char ++ rest).dropWhile Glyph.isDigit = rest := by
  refine span_append (fun g hg => ?_) hr
  obtain ⟨c, hc, rfl⟩ := List.mem_map.1 hg
  exact h.2 c hc

theorem IsGap.not_digit {rest : List Glyph} (h : IsGap rest) (g : Glyph)
    (hg : rest.head? = some g) : g.isDigit = false := by
  rw [h.head hg]
  rfl

theorem readInt_digits {ds : List Char} (h : IsDigits ds) (hn : Decimal.digitsValue ds < 2 ^ 63) :
    Decimal.readInt ds = .ok (Decimal.digitsValue ds) := by
  obtain ⟨hne, hall⟩ := h
  obtain ⟨c, cs, rfl⟩ := List.exists_cons_of_ne_nil hne
  have hc := hall c List.mem_cons_self
  have hdigits : (c :: cs).all Decimal.isDigit = true := List.all_eq_true.2 hall
  have hpow : Nat.pow 2 63 = 2 ^ 63 := rfl
  have hfits : Decimal.fitsInt64 (Decimal.digitsValue (c :: cs)) = true := by
    simp only [Decimal.fitsInt64, Decimal.minInt64, Decimal.maxInt64, hpow, Bool.and_eq_true,
      decide_eq_true_iff]
    constructor <;> omega
  have hminus : c ≠ '-' := ne_of_digit hc rfl
  have hplus : c ≠ '+' := ne_of_digit hc rfl
  simp [Decimal.readInt, hminus, hplus, hdigits, hfits]

/-- The fraction at the front of the text, and what follows it. -/
def splitFraction (gs : List Glyph) : List Glyph × List Glyph :=
  match gs with
  | .char '.' :: d :: more =>
    if d.isDigit then
      (.char '.' :: (d :: more).takeWhile Glyph.isDigit, (d :: more).dropWhile Glyph.isDigit)
    else ([], gs)
  | _ => ([], gs)

/-- The end of a number with the given digits before and after the point: its exponent. -/
def scanExponent (p : Position) (whole frac rest : List Glyph) : Except SyntaxError Scanned :=
  let (mark, afterMark) : List Glyph × List Glyph := match rest with
    | .char 'e' :: more => ([.char 'e'], more)
    | .char 'E' :: more => ([.char 'E'], more)
    | _ => ([], rest)
  let (sign, afterSign) : List Glyph × List Glyph :=
    if mark.isEmpty then ([], rest)
    else match afterMark with
      | .char '+' :: more => ([.char '+'], more)
      | .char '-' :: more => ([.char '-'], more)
      | _ => ([], afterMark)
  let exp := if mark.isEmpty then [] else afterSign.takeWhile Glyph.isDigit
  let rest := if mark.isEmpty then rest else afterSign.dropWhile Glyph.isDigit
  let raw := whole ++ frac ++ mark ++ sign ++ exp
  if !mark.isEmpty && exp.isEmpty then
    .error ⟨p.right raw.length, .invalidFloat, false⟩
  else if frac.isEmpty && mark.isEmpty then
    match Decimal.readInt (glyphChars raw) with
    | .ok n => .ok ⟨.int (Int64.ofInt n), raw, rest⟩
    | .error _ => .error ⟨p, .intOutOfRange (Bytes.ofGlyphs raw), false⟩
  else
    match Decimal.readFloat (glyphChars raw) with
    | .ok x => .ok ⟨.float x, raw, rest⟩
    | .error _ => .error ⟨p, .invalidFloat, false⟩

theorem scanNumber_eq (p : Position) (gs : List Glyph) :
    scanNumber p gs = scanExponent p (gs.takeWhile Glyph.isDigit)
      (splitFraction (gs.dropWhile Glyph.isDigit)).1
      (splitFraction (gs.dropWhile Glyph.isDigit)).2 := rfl

theorem scanNumber_int {ds : List Char} {rest : List Glyph} (p : Position) (h : IsDigits ds)
    (hn : Decimal.digitsValue ds < 2 ^ 63) (hr : IsGap rest) :
    scanNumber p (ds.map Glyph.char ++ rest) =
      .ok ⟨.int (Int64.ofInt (Decimal.digitsValue ds)), ds.map Glyph.char, rest⟩ := by
  obtain ⟨hw, hd⟩ := span_digits h hr.not_digit
  have hread := readInt_digits h hn
  rw [scanNumber_eq, hw, hd]
  cases hr with
  | nil => simp [splitFraction, scanExponent, glyphChars_map, hread]
  | space => simp [splitFraction, scanExponent, glyphChars_map, hread]

/-- An exponent starts with a letter. -/
theorem IsExponent.head {exp : List Char} {rest : List Glyph} (h : IsExponent exp)
    (hr : IsGap rest) {g : Glyph} (hg : (exp.map Glyph.char ++ rest).head? = some g) :
    g.isDigit = false ∧ g ≠ .char '.' := by
  cases h with
  | none =>
    rw [hr.head hg]
    exact ⟨rfl, nofun⟩
  | bare he _ =>
    obtain rfl := Option.some.inj hg
    obtain rfl | rfl := he <;> exact ⟨rfl, nofun⟩
  | signed he _ _ =>
    obtain rfl := Option.some.inj hg
    obtain rfl | rfl := he <;> exact ⟨rfl, nofun⟩

theorem splitFraction_spec {frac exp : List Char} {rest : List Glyph} (hf : IsFraction frac)
    (he : IsExponent exp) (hr : IsGap rest) :
    splitFraction (frac.map Glyph.char ++ (exp.map Glyph.char ++ rest)) =
      (frac.map Glyph.char, exp.map Glyph.char ++ rest) := by
  cases hf with
  | none =>
    have hdot := fun g hg => (he.head (g := g) hr hg).2
    rw [List.map_nil, List.nil_append]
    unfold splitFraction
    split
    · rename_i heq
      exact absurd rfl (hdot _ (by rw [heq]; rfl))
    · rfl
  | @some ds hds =>
    obtain ⟨hw, hd⟩ := span_digits hds fun g hg => (he.head hr hg).1
    obtain ⟨c, cs, rfl⟩ := List.exists_cons_of_ne_nil hds.1
    have hc : (Glyph.char c).isDigit = true := hds.2 c List.mem_cons_self
    simp only [List.map_cons, List.cons_append] at hw hd ⊢
    rw [splitFraction, if_pos hc, hw, hd]

theorem scanExponent_float {ds frac exp : List Char} {x : Float} {rest : List Glyph}
    (p : Position) (he : IsExponent exp) (hne : frac ≠ [] ∨ exp ≠ [])
    (hx : Decimal.readFloat (ds ++ frac ++ exp) = .ok x) (hr : IsGap rest) :
    scanExponent p (ds.map Glyph.char) (frac.map Glyph.char) (exp.map Glyph.char ++ rest) =
      .ok ⟨.float x, (ds ++ frac ++ exp).map Glyph.char, rest⟩ := by
  have hchars := glyphChars_map (ds ++ frac ++ exp)
  rw [← hchars] at hx
  -- the digits of an exponent, which do not start with a sign
  have digits {es : List Char} (h : IsDigits es) :
      (es.map Glyph.char ++ rest).takeWhile Glyph.isDigit = es.map Glyph.char ∧
        (es.map Glyph.char ++ rest).dropWhile Glyph.isDigit = rest ∧
        ∃ c cs, es = c :: cs ∧ c ≠ '-' ∧ c ≠ '+' := by
    obtain ⟨c, cs, rfl⟩ := List.exists_cons_of_ne_nil h.1
    have hc := h.2 c List.mem_cons_self
    exact ⟨(span_digits h hr.not_digit).1, (span_digits h hr.not_digit).2, c, cs, rfl,
      ne_of_digit hc rfl, ne_of_digit hc rfl⟩
  unfold scanExponent
  cases he with
  | none =>
    have hfrac : frac ≠ [] := hne.resolve_right (absurd rfl)
    simp only [List.append_nil, List.map_append] at hx
    cases hr with
    | nil => simp [hfrac, hx]
    | space => simp [hfrac, hx]
  | bare he hes =>
    obtain ⟨hw, hd, c, cs, rfl, hminus, hplus⟩ := digits hes
    simp only [List.map_cons, List.map_append, List.append_assoc, List.cons_append] at hx hw hd ⊢
    obtain rfl | rfl := he
    · simp [hw, hd, hminus, hplus, hx]
    · simp [hw, hd, hminus, hplus, hx]
  | signed he hs hes =>
    obtain ⟨hw, hd, c, cs, rfl, -, -⟩ := digits hes
    simp only [List.map_cons, List.map_append, List.append_assoc, List.cons_append] at hx hw hd ⊢
    obtain rfl | rfl := he <;> obtain rfl | rfl := hs <;> simp [hw, hd, hx]

theorem scanNumber_float {ds frac exp : List Char} {x : Float} {rest : List Glyph} (p : Position)
    (h : IsDigits ds) (hf : IsFraction frac) (he : IsExponent exp) (hne : frac ≠ [] ∨ exp ≠ [])
    (hx : Decimal.readFloat (ds ++ frac ++ exp) = .ok x) (hr : IsGap rest) :
    scanNumber p ((ds ++ frac ++ exp).map Glyph.char ++ rest) =
      .ok ⟨.float x, (ds ++ frac ++ exp).map Glyph.char, rest⟩ := by
  have htail (g : Glyph) (hg : (frac.map Glyph.char ++ (exp.map Glyph.char ++ rest)).head? = some g) :
      g.isDigit = false := by
    cases hf with
    | none => exact (he.head hr hg).1
    | some _ => exact Option.some.inj hg ▸ rfl
  obtain ⟨hw, hd⟩ := span_digits h htail
  rw [List.map_append, List.map_append, List.append_assoc, List.append_assoc, scanNumber_eq, hw, hd,
    splitFraction_spec hf he hr, scanExponent_float p he hne hx hr, List.map_append, List.map_append,
    List.append_assoc]

/-! ### Strings, words and marks -/

theorem scanStringBody_quotable {q : Char} {body : List Char} (h : IsQuotable q body)
    (hq : q ≠ '\\') (start : Position) (rest : List Glyph) :
    ∀ (p : Position) (seen : List Glyph),
      scanStringBody q start p seen (body.map Glyph.char ++ .char q :: rest) =
        .ok (seen.reverse ++ (body ++ [q]).map Glyph.char, rest) := by
  induction h with
  | nil =>
    intro p seen
    rw [List.map_nil, List.nil_append, scanStringBody.eq_def]
    simp
  | plain hc hn hb _ ih =>
    intro p seen
    rw [List.map_cons, List.cons_append, scanStringBody.eq_def]
    simp [hc, hn, hb, ih]
  | escape _ ih =>
    intro p seen
    rw [List.map_cons, List.map_cons, List.cons_append, List.cons_append, scanStringBody.eq_def]
    simp [Ne.symm hq, ih]

theorem scanString_quotable {q : Char} {body : List Char} {s : Bytes} (hq : q = '"' ∨ q = '\'')
    (h : IsQuotable q body) (hs : unquoteBody? q body = some s) (p : Position) (rest : List Glyph) :
    scanString q p ((body ++ [q]).map Glyph.char ++ rest) =
      .ok ⟨.string s, (q :: body ++ [q]).map Glyph.char, rest⟩ := by
  have hne : q ≠ '\\' := by obtain rfl | rfl := hq <;> decide
  have hb := scanStringBody_quotable h hne p rest (p.right 1) []
  have hdrop : glyphChars ((body ++ [q]).map Glyph.char).dropLast = body := by
    rw [List.map_append, List.map_singleton, List.dropLast_concat, glyphChars_map]
  rw [List.map_append, List.map_singleton, List.append_assoc, List.singleton_append, scanString, hb]
  simp only [List.reverse_nil, List.nil_append, bind, Except.bind, hdrop, hs]
  simp

theorem IsGap.not_namePart {rest : List Glyph} (h : IsGap rest) (g : Glyph)
    (hg : rest.head? = some g) : g.isNamePart = false := by
  rw [h.head hg]
  rfl

theorem span_word {cs : List Char} {rest : List Glyph} (h : IsWord cs)
    (hr : ∀ g, rest.head? = some g → g.isNamePart = false) :
    (cs.map Glyph.char ++ rest).takeWhile Glyph.isNamePart = cs.map Glyph.char ∧
      (cs.map Glyph.char ++ rest).dropWhile Glyph.isNamePart = rest := by
  refine span_append (fun g hg => ?_) hr
  obtain ⟨c, hc, rfl⟩ := List.mem_map.1 hg
  cases h with
  | mk hstart hall =>
    obtain rfl | hc := List.mem_cons.1 hc
    · simp [Glyph.isNamePart, hstart]
    · exact hall c hc

theorem IsWord.of_all {c : Char} {cs : List Char} (hc : isNameStart c = true)
    (hcs : (cs.all fun d => (Glyph.char d).isNamePart) = true) : IsWord (c :: cs) :=
  .mk hc (List.all_eq_true.1 hcs)

theorem Keyword.isWord (k : Keyword) : IsWord k.spelling.toList := by
  cases k <;> exact .of_all (by decide) (by decide)

theorem Keyword.ofChars?_spelling (k : Keyword) : Keyword.ofChars? k.spelling.toList = some k := by
  cases k <;> decide

theorem not_nameStart_of_digit {c : Char} (h : Decimal.isDigit c = true) :
    isNameStart c = false := by
  have hne : (c == '_') = false := beq_false_of_ne (ne_of_digit h rfl)
  simp only [Decimal.isDigit, Bool.and_eq_true, decide_eq_true_eq, Char.le_def,
    UInt32.le_iff_toNat_le] at h
  have h0 : '0'.val.toNat = 48 := rfl
  have h9 : '9'.val.toNat = 57 := rfl
  have hval : c.toNat = c.val.toNat := rfl
  have halpha : c.isAlpha = false := by
    simp [Char.isAlpha, Char.isUpper, Char.isLower, UInt32.le_iff_toNat_le]
    omega
  rw [isNameStart, if_pos (by omega), hne, halpha]
  rfl

theorem scanCode_word {cs : List Char} {rest : List Glyph} {t : Token} (h : IsWord cs)
    (ht : t = match Keyword.ofChars? cs with
      | some k => .keyword k
      | none => .ident (Bytes.ofChars cs))
    (hr : ∀ g, rest.head? = some g → g.isNamePart = false) (p : Position)
    (modes : List LexMode) :
    scanCode ⟨cs.map Glyph.char ++ rest, p, modes⟩ = .ok (⟨t, p, Bytes.ofChars cs⟩,
      ⟨rest, p.advanceAll (cs.map Glyph.char), modes⟩) := by
  obtain ⟨hw, hd⟩ := span_word h hr
  have hchars := glyphChars_map cs
  have hbytes := ofGlyphs_map cs
  cases h with
  | mk hstart _ =>
    simp only [List.map_cons, List.cons_append] at hw hd hchars hbytes ⊢
    unfold scanCode
    simp only [hstart, if_true, hw, hd, hchars, hbytes]
    subst ht
    rfl

theorem scanCode_number {ds : List Char} {gs rest : List Glyph} {t : Token} {raw : List Char}
    (h : IsDigits ds) {p : Position} (hs : scanNumber p (ds.map Glyph.char ++ gs) =
      .ok ⟨t, raw.map Glyph.char, rest⟩) (modes : List LexMode) :
    scanCode ⟨ds.map Glyph.char ++ gs, p, modes⟩ = .ok (⟨t, p, Bytes.ofChars raw⟩,
      ⟨rest, p.advanceAll (raw.map Glyph.char), modes⟩) := by
  obtain ⟨hne, hall⟩ := h
  obtain ⟨c, cs, rfl⟩ := List.exists_cons_of_ne_nil hne
  have hc := hall c List.mem_cons_self
  simp only [List.map_cons, List.cons_append] at hs ⊢
  unfold scanCode
  simp [not_nameStart_of_digit hc, hc, hs, Except.map, ofGlyphs_map]

theorem scanCode_string {q : Char} {body : List Char} {b : Bytes} (hq : q = '"' ∨ q = '\'')
    (h : IsQuotable q body) (hb : unquoteBody? q body = some b) (p : Position) (rest : List Glyph)
    (modes : List LexMode) :
    scanCode ⟨(q :: body ++ [q]).map Glyph.char ++ rest, p, modes⟩ =
      .ok (⟨.string b, p, Bytes.ofChars (q :: body ++ [q])⟩,
        ⟨rest, p.advanceAll ((q :: body ++ [q]).map Glyph.char), modes⟩) := by
  have hscan := scanString_quotable hq h hb p rest
  have hstart : isNameStart q = false ∧ Decimal.isDigit q = false := by
    obtain rfl | rfl := hq <;> decide
  rw [List.cons_append, List.map_cons, List.cons_append]
  unfold scanCode
  simp only [hstart.1, hstart.2, if_pos hq, hscan, Except.map, ofGlyphs_map,
    Bool.false_eq_true, if_false, List.cons_append]
  rfl

/-- A spelling is read as its token, and what follows it is left. -/
theorem scanCode_spells {cs : List Char} {t : Token} (h : Spells cs t) {rest : List Glyph}
    (hr : IsGap rest) (p : Position) (modes : List LexMode) :
    ∃ l p', scanCode ⟨cs.map Glyph.char ++ rest, p, modes⟩ = .ok (l, ⟨rest, p', modes⟩) ∧
      l.token = t ∧ ((∀ m, t ≠ .punct m) → l.raw = Bytes.ofChars cs) := by
  cases h with
  | @punct m hm =>
    refine ⟨⟨.punct m, p, []⟩, p.right m.spelling.length, ?_, rfl, fun h => absurd rfl (h m)⟩
    cases m <;> first | exact hm.elim | (cases hr <;> rfl)
  | keyword k =>
    have ht := scanCode_word (t := .keyword k) k.isWord (by rw [k.ofChars?_spelling])
      hr.not_namePart p modes
    exact ⟨_, _, ht, rfl, fun _ => rfl⟩
  | name hw hk =>
    have ht := scanCode_word (t := .ident (Bytes.ofChars cs)) hw (by rw [hk])
      hr.not_namePart p modes
    exact ⟨_, _, ht, rfl, fun _ => rfl⟩
  | int hd hn => exact ⟨_, _, scanCode_number hd (scanNumber_int p hd hn hr) modes, rfl, fun _ => rfl⟩
  | @float ds frac exp x hd hf he hne hx =>
    have hs := scanNumber_float p hd hf he hne hx hr
    have hsplit : (ds ++ frac ++ exp).map Glyph.char ++ rest =
        ds.map Glyph.char ++ ((frac ++ exp).map Glyph.char ++ rest) := by simp
    rw [hsplit] at hs ⊢
    exact ⟨_, _, scanCode_number hd hs modes, rfl, fun _ => rfl⟩
  | string hq hb hs => exact ⟨_, _, scanCode_string hq hb hs p rest modes, rfl, fun _ => rfl⟩

/-! ### Texts of spaced tokens -/

/-- A character of some class is not skipped if no blank and no slash is in the class. -/
theorem skipGap_char {P : Char → Bool} {c : Char} (h : P c = true)
    (hP : (['/', ' ', '\t', '\r', '\n'].all fun d => !P d) = true) (p : Position)
    (rest : List Glyph) :
    skipGap .blanks p (.char c :: rest) = .ok (p, .char c :: rest) := by
  have ne (d : Char) (hd : d ∈ ['/', ' ', '\t', '\r', '\n']) : c ≠ d := by
    rintro rfl
    simpa [h] using List.all_eq_true.1 hP c hd
  have hslash := ne '/' (by simp)
  have hgap : (Glyph.char c).isGap = false := by
    simp [Glyph.isGap, ne ' ' (by simp), ne '\t' (by simp), ne '\r' (by simp), ne '\n' (by simp)]
  rw [skipGap.eq_def]
  simp [hslash, hgap]

/-- No spelling is skipped: it starts with no blank and with no comment. -/
theorem skipGap_spells {cs : List Char} {t : Token} (h : Spells cs t) {rest : List Glyph}
    (hr : IsGap rest) (p : Position) :
    skipGap .blanks p (cs.map Glyph.char ++ rest) = .ok (p, cs.map Glyph.char ++ rest) := by
  have word {cs : List Char} (h : IsWord cs) :
      skipGap .blanks p (cs.map Glyph.char ++ rest) = .ok (p, cs.map Glyph.char ++ rest) := by
    cases h with
    | mk hc _ => exact skipGap_char hc (by decide) p _
  have digits {ds : List Char} {gs : List Glyph} (h : IsDigits ds) :
      skipGap .blanks p (ds.map Glyph.char ++ gs) = .ok (p, ds.map Glyph.char ++ gs) := by
    obtain ⟨hne, hall⟩ := h
    obtain ⟨c, cs, rfl⟩ := List.exists_cons_of_ne_nil hne
    exact skipGap_char (hall c List.mem_cons_self) (by decide) p _
  cases h with
  | @punct m hm => cases m <;> first | exact hm.elim | (cases hr <;> rfl)
  | keyword k => exact word k.isWord
  | name hw _ => exact word hw
  | int hd _ => exact digits hd
  | float hd _ _ _ _ =>
    rw [List.map_append, List.map_append, List.append_assoc, List.append_assoc]
    exact digits hd
  | string hq _ _ => obtain rfl | rfl := hq <;> rfl

end Stencil
