import Mathlib
import Stencil.Proofs.Syntax.Spelling
import Stencil.Text.Quoted

/-!
# Reading quoted text back

What `Bytes.quote` writes between its quotes may stand in a string literal, and the literal denotes
the bytes that were quoted: `IsQuotable.quotedChars`, `unquoteBody?_quotedChars`. No byte string is
excepted: a byte that is part of no character is written as an escape of its value.
-/

namespace Stencil

/-! ### Numbers in hexadecimal digits -/

/-- The digits of `hexNat`. -/
def hexChars (width n : Nat) : List Char :=
  List.replicate (width - (Nat.toDigits 16 n).length) '0' ++ Nat.toDigits 16 n

theorem hexNat_eq_ofChars (width n : Nat) : hexNat width n = Bytes.ofChars (hexChars width n) := rfl

theorem hexValue?_digitChar {d : Nat} (hd : d < 16) : hexValue? d.digitChar = some d := by
  have h : ∀ d : Fin 16, hexValue? (Nat.digitChar d) = some d.val := by decide
  exact h ⟨d, hd⟩

/-- A digit is read as the last one of a number. -/
theorem takeDigits?_digitChar {d : Nat} (hd : d < 16) (n acc : Nat) (cs : List Char) :
    takeDigits? 16 (n + 1) acc (d.digitChar :: cs) = takeDigits? 16 n (16 * acc + d) cs := by
  simp [takeDigits?, hexValue?_digitChar hd, hd]

theorem takeDigits?_zeros (k n : Nat) (cs : List Char) :
    takeDigits? 16 (k + n) 0 (List.replicate k '0' ++ cs) = takeDigits? 16 n 0 cs := by
  induction k with
  | zero => simp
  | succ k ih =>
    rw [Nat.add_right_comm, List.replicate_succ, List.cons_append]
    exact (takeDigits?_digitChar (d := 0) (by decide) _ 0 _).trans ih

theorem takeDigits?_toDigits (m : Nat) :
    ∀ (n acc : Nat) (cs : List Char),
      takeDigits? 16 ((Nat.toDigits 16 m).length + n) acc (Nat.toDigits 16 m ++ cs) =
        takeDigits? 16 n (16 ^ (Nat.toDigits 16 m).length * acc + m) cs := by
  induction m using Nat.strong_induction_on with
  | _ m ih =>
    intro n acc cs
    by_cases hm : m < 16
    · rw [Nat.toDigits_of_lt_base hm]
      have h := takeDigits?_digitChar hm n acc cs
      simpa [Nat.add_comm] using h
    · have hsplit := Nat.toDigits_of_base_le (by decide : 1 < 16) (Nat.le_of_not_lt hm)
      rw [hsplit, List.length_append, List.length_singleton, List.append_assoc, Nat.add_assoc,
        ih (m / 16) (by omega), Nat.add_comm 1 n, List.singleton_append,
        takeDigits?_digitChar (Nat.mod_lt _ (by decide))]
      congr 1
      rw [Nat.pow_succ]
      have := Nat.div_add_mod m 16
      ring_nf
      omega

theorem length_toDigits_le {width n : Nat} (hw : 0 < width) (h : n < 16 ^ width) :
    (Nat.toDigits 16 n).length ≤ width :=
  (Nat.length_toDigits_le_iff (by decide) hw).2 h

/-- The digits written are read as the number. -/
theorem takeDigits?_hexChars {width n : Nat} (hw : 0 < width) (h : n < 16 ^ width)
    (cs : List Char) : takeDigits? 16 width 0 (hexChars width n ++ cs) = some (n, cs) := by
  have hlen := length_toDigits_le hw h
  have hpad := takeDigits?_zeros (width - (Nat.toDigits 16 n).length) (Nat.toDigits 16 n).length
    (Nat.toDigits 16 n ++ cs)
  rw [Nat.sub_add_cancel hlen] at hpad
  rw [hexChars, List.append_assoc, hpad]
  simpa [takeDigits?] using takeDigits?_toDigits n 0 0 cs

theorem digit_of_mem_toDigits {n : Nat} {c : Char} (hc : c ∈ Nat.toDigits 16 n) :
    ∃ d < 16, c = Nat.digitChar d := by
  induction n using Nat.strong_induction_on with
  | _ n ih =>
    by_cases hn : n < 16
    · rw [Nat.toDigits_of_lt_base hn, List.mem_singleton] at hc
      exact ⟨n, hn, hc⟩
    · rw [Nat.toDigits_of_base_le (by decide) (Nat.le_of_not_lt hn), List.mem_append,
        List.mem_singleton] at hc
      obtain hc | hc := hc
      · exact ih (n / 16) (by omega) hc
      · exact ⟨n % 16, Nat.mod_lt _ (by decide), hc⟩

/-- The digits stand for themselves in a string literal. -/
theorem IsQuotable.hexChars {cs : List Char} (h : IsQuotable '"' cs) (width n : Nat) :
    IsQuotable '"' (hexChars width n ++ cs) := by
  have hdigit : ∀ c ∈ Stencil.hexChars width n, c ≠ '"' ∧ c ≠ '\n' ∧ c ≠ '\\' := by
    intro c hc
    obtain hc | hc := List.mem_append.1 hc
    · rw [List.eq_of_mem_replicate hc]
      decide
    · obtain ⟨d, hd, rfl⟩ := digit_of_mem_toDigits hc
      have hall : ∀ d : Fin 16, d.val.digitChar ≠ '"' ∧ d.val.digitChar ≠ '\n' ∧
          d.val.digitChar ≠ '\\' := by decide
      exact hall ⟨d, hd⟩
  generalize Stencil.hexChars width n = ds at hdigit
  induction ds with
  | nil => exact h
  | cons d ds ih =>
    obtain ⟨hq, hn, hb⟩ := hdigit d List.mem_cons_self
    exact .plain hq hn hb (ih fun c hc => hdigit c (List.mem_cons_of_mem d hc))

/-! ### Glyphs between quotes -/

/-- How a glyph stands between double quotes: as itself or as one of five escapes. -/
inductive Glyph.Quoted : Glyph → List Char → Prop where
  | plain {c} : c ≠ '"' → c ≠ '\\' → isPrintable c = true → Quoted (.char c) [c]
  | mark {c} : c = '"' ∨ c = '\\' → Quoted (.char c) ['\\', c]
  | letter {c l} : escapeLetter? c = some l → Quoted (.char c) ['\\', l]
  | control {c} : c.toNat < 0x80 → Quoted (.char c) ('\\' :: 'x' :: hexChars 2 c.toNat)
  | short {c} : c.toNat < 0x10000 → Quoted (.char c) ('\\' :: 'u' :: hexChars 4 c.toNat)
  | long {c} : Quoted (.char c) ('\\' :: 'U' :: hexChars 8 c.toNat)
  | stray {b} : Quoted (.stray b) ('\\' :: 'x' :: hexChars 2 b.toNat)

theorem quoteGlyph_quoted (g : Glyph) :
    ∃ cs, quoteGlyph '"' g = Bytes.ofChars cs ∧ g.Quoted cs := by
  have marked (l : Char) (width n : Nat) : Bytes.ofString (.ofList ['\\', l]) ++ hexNat width n =
      Bytes.ofChars ('\\' :: l :: hexChars width n) := by
    rw [ofString_eq_ofChars, hexNat_eq_ofChars, ← ofChars_append, String.toList_ofList]
    rfl
  cases g with
  | stray b => exact ⟨_, marked 'x' 2 b.toNat, .stray⟩
  | char c =>
    rw [quoteGlyph]
    by_cases hmark : c = '"' ∨ c = '\\'
    · exact ⟨_, if_pos hmark, .mark hmark⟩
    rw [if_neg hmark]
    obtain ⟨hq, hb⟩ := not_or.1 hmark
    by_cases hprint : isPrintable c = true
    · exact ⟨[c], by simp [hprint, Bytes.ofChars], .plain hq hb hprint⟩
    rw [if_neg hprint]
    cases hletter : escapeLetter? c with
    | some l => exact ⟨_, rfl, .letter hletter⟩
    | none =>
      dsimp only
      split_ifs with hcontrol hshort
      · exact ⟨_, marked 'x' 2 c.toNat, .control (by omega)⟩
      · exact ⟨_, marked 'u' 4 c.toNat, .short hshort⟩
      · exact ⟨_, marked 'U' 8 c.toNat, .long⟩

/-- A quoted glyph may stand in a string literal. -/
theorem Glyph.Quoted.isQuotable {g : Glyph} {cs ds : List Char} (h : g.Quoted cs)
    (hds : IsQuotable '"' ds) : IsQuotable '"' (cs ++ ds) := by
  cases h with
  | plain hq hb hprint =>
    refine .plain hq ?_ hb hds
    rintro rfl
    exact absurd hprint (by decide)
  | mark _ => exact .escape hds
  | letter _ => exact .escape hds
  | control _ => exact .escape (hds.hexChars _ _)
  | short _ => exact .escape (hds.hexChars _ _)
  | long => exact .escape (hds.hexChars _ _)
  | stray => exact .escape (hds.hexChars _ _)

theorem escapedControl?_letter {c l : Char} (h : escapeLetter? c = some l) :
    escapedControl? l = some c := by
  have hc : Char.ofNat c.toNat = c := Char.ofNat_toNat c
  unfold escapeLetter? at h
  split at h
  all_goals cases h
  all_goals
    rename_i hn
    rw [hn] at hc
    exact congrArg some hc

theorem ofChar_ascii {c : Char} (h : c.toNat < 0x80) : Bytes.ofChar c = [c.toNat.toUInt8] := by
  have hle : ¬ 127 < c.toNat := Nat.not_lt.2 (Nat.le_of_lt_succ h)
  simp [Bytes.ofChar, String.utf8EncodeChar, hle]

theorem Glyph.Quoted.ne_nil {g : Glyph} {cs : List Char} (h : g.Quoted cs) : cs ≠ [] := by
  cases h <;> exact List.cons_ne_nil _ _

/-- One step of reading back: an escape or a plain character is read as its glyph. -/
theorem Glyph.Quoted.unescape {g : Glyph} {cs : List Char} (h : g.Quoted cs) (ds : List Char) :
    ∃ e, unescape? '"' (cs ++ ds) = some (e, ds) ∧ e.bytes = g.bytes := by
  have byte {n : Nat} (hn : n < 256) : unescape? '"' ('\\' :: 'x' :: hexChars 2 n ++ ds) =
      some (.byte n.toUInt8, ds) := by
    simp [unescape?, escapedControl?, takeDigits?_hexChars (by decide : 0 < 2) hn]
  have hvalid (c : Char) : charOfCode? c.toNat = some c := by
    have hc : c.toNat.isValidChar := c.valid
    rw [charOfCode?, if_pos hc, Char.ofNat_toNat]
  cases h with
  | plain hq hb _ =>
    refine ⟨.char _, ?_, rfl⟩
    rw [List.singleton_append, unescape?.eq_def]
    split
    · rename_i heq
      cases heq
    · rename_i heq
      exact absurd (List.cons.inj heq).1 hb
    · rename_i heq
      obtain ⟨rfl, rfl⟩ := List.cons.inj heq
      rw [if_neg hq]
  | @mark c hc =>
    refine ⟨.char c, ?_, rfl⟩
    obtain rfl | rfl := hc <;> rfl
  | @letter c l hl =>
    refine ⟨.char c, ?_, rfl⟩
    simp [unescape?, escapedControl?_letter hl]
  | @control c hc => exact ⟨_, byte (by omega), (ofChar_ascii hc).symm⟩
  | @short c hc =>
    refine ⟨.char c, ?_, rfl⟩
    have hread := takeDigits?_hexChars (by decide : 0 < 4) (n := c.toNat) (by omega) ds
    simp [unescape?, escapedControl?, hread, hvalid]
  | @long c =>
    refine ⟨.char c, ?_, rfl⟩
    have hlt : c.toNat < 0x110000 := by
      have hc := c.valid
      have hn : c.toNat = c.val.toNat := rfl
      rw [UInt32.isValidChar, Nat.isValidChar] at hc
      omega
    have hread := takeDigits?_hexChars (by decide : 0 < 8) (n := c.toNat) (by omega) ds
    simp [unescape?, escapedControl?, hread, hvalid]
  | @stray b => exact ⟨_, byte b.toNat_lt, by simp [Escaped.bytes, Glyph.bytes]⟩

/-! ### Byte strings between quotes -/

/-- How a run of glyphs stands between double quotes. -/
inductive QuotedRun : List Glyph → List Char → Prop where
  | nil : QuotedRun [] []
  | cons {g gs cs ds} : Glyph.Quoted g cs → QuotedRun gs ds → QuotedRun (g :: gs) (cs ++ ds)

theorem quoteGlyphs_run (gs : List Glyph) :
    ∃ cs, gs.flatMap (quoteGlyph '"') = Bytes.ofChars cs ∧ QuotedRun gs cs := by
  induction gs with
  | nil => exact ⟨[], rfl, .nil⟩
  | cons g gs ih =>
    obtain ⟨cs, hcs, hg⟩ := quoteGlyph_quoted g
    obtain ⟨ds, hds, hrun⟩ := ih
    exact ⟨cs ++ ds, by rw [List.flatMap_cons, hcs, hds, ofChars_append], .cons hg hrun⟩

namespace QuotedRun

variable {gs : List Glyph} {cs : List Char}

theorem isQuotable (h : QuotedRun gs cs) : IsQuotable '"' cs := by
  induction h with
  | nil => exact .nil
  | cons hg _ ih => exact hg.isQuotable ih

theorem length_le (h : QuotedRun gs cs) : gs.length ≤ cs.length := by
  induction h with
  | nil => exact Nat.le_refl 0
  | cons hg _ ih =>
    have hpos := List.length_pos_of_ne_nil hg.ne_nil
    rw [List.length_cons, List.length_append]
    omega

/-- A quoted run is read back as the bytes of its glyphs. -/
theorem unescapeAll (h : QuotedRun gs cs) (lenient : List Char → Option (Char × List Char)) :
    ∀ fuel, gs.length ≤ fuel → unescapeAll '"' lenient fuel cs = some (Bytes.ofGlyphs gs) := by
  induction h with
  | nil =>
    intro fuel _
    cases fuel <;> rfl
  | @cons g gs cs ds hg _ ih =>
    intro fuel hfuel
    obtain ⟨fuel, rfl⟩ : ∃ n, fuel = n + 1 := Nat.exists_eq_add_one_of_ne_zero (by
      rintro rfl
      exact Nat.not_succ_le_zero _ hfuel)
    obtain ⟨e, he, hbytes⟩ := hg.unescape ds
    obtain ⟨c, more, hc⟩ : ∃ c more, cs ++ ds = c :: more :=
      List.exists_cons_of_ne_nil (List.append_ne_nil_of_left_ne_nil hg.ne_nil ds)
    rw [hc] at he ⊢
    rw [Stencil.unescapeAll, he]
    · simp only [ih fuel (Nat.le_of_succ_le_succ hfuel), hbytes]
      rfl
    · exact List.cons_ne_nil c more

/-- A run without an escape is its own text. -/
theorem ofChars (h : QuotedRun gs cs) (hb : '\\' ∉ cs) : Bytes.ofChars cs = Bytes.ofGlyphs gs := by
  induction h with
  | nil => rfl
  | cons hg _ ih =>
    rw [List.mem_append, not_or] at hb
    rw [ofChars_append, ih hb.2]
    cases hg with
    | plain _ _ _ => simp [Bytes.ofChars, Bytes.ofGlyphs, Glyph.bytes]
    | mark _ => exact absurd List.mem_cons_self hb.1
    | letter _ => exact absurd List.mem_cons_self hb.1
    | control _ => exact absurd List.mem_cons_self hb.1
    | short _ => exact absurd List.mem_cons_self hb.1
    | long => exact absurd List.mem_cons_self hb.1
    | stray => exact absurd List.mem_cons_self hb.1

theorem unquoteBody? (h : QuotedRun gs cs) :
    unquoteBody? '"' cs = some (Bytes.ofGlyphs gs) := by
  rw [Stencil.unquoteBody?]
  split_ifs with hb
  · exact h.unescapeAll dollarEscape? _ h.length_le
  · exact congrArg some (h.ofChars (by simpa using hb))

end QuotedRun

/-- What stands between the quotes of a quoted byte string is the inside of a string literal that
denotes the byte string. -/
theorem quote_eq_ofChars (b : Bytes) :
    ∃ body, b.quote = Bytes.ofChars ('"' :: body ++ ['"']) ∧ IsQuotable '"' body ∧
      unquoteBody? '"' body = some b := by
  obtain ⟨body, hbody, hrun⟩ := quoteGlyphs_run b.glyphs
  have hread := hrun.unquoteBody?
  rw [show Bytes.ofGlyphs b.glyphs = b from flatMap_bytes_glyphs b] at hread
  refine ⟨body, ?_, hrun.isQuotable, hread⟩
  rw [Bytes.quote, hbody, ofString_eq_ofChars, ← ofChars_append, ← ofChars_append]
  rfl

end Stencil
