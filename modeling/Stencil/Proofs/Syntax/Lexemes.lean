import Stencil.Proofs.Syntax.Grammar
import Stencil.Proofs.Syntax.Reading
import Stencil.Proofs.Syntax.Spelling
import Stencil.Proofs.Text.Pieces

/-!
# The lexemes of a text

The end of the file stands at the end of the lexemes of a text and nowhere else, unless the
text breaks off with an error; then it does not occur at all.
-/

namespace Stencil

open TokenStream

/-- The end of the file, if it is reached, is the last lexeme of a text. -/
inductive Scan.Closed : Scan → Prop where
  | ended {ls e} : (∀ l ∈ ls, l.token ≠ .eof) → e.token = .eof → Scan.Closed ⟨ls ++ [e], none⟩
  | broken {ls e} : (∀ l ∈ ls, l.token ≠ .eof) → Scan.Closed ⟨ls, some e⟩

theorem scanAll_closed (n : Nat) (seen : List Lexeme) (c : ScanPoint)
    (hs : ∀ l ∈ seen, l.token ≠ .eof) : Scan.Closed (scanAll n seen c) := by
  induction n generalizing seen c with
  | zero =>
    rw [scanAll, List.reverse_cons]
    exact .ended (fun l hl => hs l (List.mem_reverse.1 hl)) rfl
  | succ n ih =>
    rw [scanAll]
    split
    · exact .broken fun l hl => hs l (List.mem_reverse.1 hl)
    · split
      · rename_i he
        rw [List.reverse_cons]
        exact .ended (fun l hl => hs l (List.mem_reverse.1 hl)) he
      · rename_i l _ _ he
        refine ih _ _ fun l' hl' => ?_
        rcases List.mem_cons.1 hl' with rfl | hl'
        · exact he
        · exact hs l' hl'

theorem scan_closed (file src : Bytes) : Scan.Closed (scan file src) :=
  scanAll_closed _ _ _ fun _ h => absurd h List.not_mem_nil

/-- The stream of a text ends as the text does. -/
theorem Scan.Closed.ended_stream {s : TokenStream} (h : Scan.Closed ⟨s.lexemes, s.fault⟩) :
    s.Ended := by
  intro hf
  generalize hx : (⟨s.lexemes, s.fault⟩ : Scan) = x at h
  cases h with
  | @ended ls e _ he =>
    obtain ⟨hl, -⟩ := Scan.mk.inj hx
    exact ⟨e, by rw [hl]; exact List.getLast?_concat, he⟩
  | broken _ =>
    obtain ⟨-, hf'⟩ := Scan.mk.inj hx
    cases hf.symm.trans hf'

/-- Nothing follows the end of the file. -/
theorem Scan.Closed.eq_of_eof {ls : List Lexeme} {s : TokenStream}
    (h : Scan.Closed ⟨(ls ++ s).lexemes, s.fault⟩) (he : s.current.token = .eof) :
    s = ⟨s.current, [], none⟩ := by
  generalize hx : (⟨(ls ++ s).lexemes, s.fault⟩ : Scan) = x at h
  rw [lexemes_append] at hx
  obtain ⟨l, rest, fault⟩ := s
  cases h with
  | @ended ms e hms _ =>
    obtain ⟨hl, rfl⟩ := Scan.mk.inj hx
    obtain rfl | ⟨rest, z, rfl⟩ := rest.eq_nil_or_concat
    · rfl
    · -- the end of the file would stand before the last lexeme
      have hl' : (ls ++ l :: rest) ++ [z] = ms ++ [e] := by simpa [TokenStream.lexemes] using hl
      obtain ⟨rfl, -⟩ := List.append_inj' hl' rfl
      exact absurd he (hms l (by simp))
  | @broken ms e hms =>
    obtain ⟨rfl, -⟩ := Scan.mk.inj hx
    exact absurd he (hms l (by simp [TokenStream.lexemes]))

namespace Parser

theorem run_of_scan {α : Type} {p : Nat → Parser α} {file src : Bytes} {l : Lexeme}
    {rest : List Lexeme} {fault : Option SyntaxError} (h : scan file src = ⟨l :: rest, fault⟩) :
    run p file src =
      (StateT.run (p (16 * (rest.length + 4))) ⟨l, rest, fault⟩).map (·.1) := by
  rw [run, h]
  rfl

/-- A reader is run on the stream of the lexemes of a text. -/
theorem run_eq_ok {α : Type} {p : Nat → Parser α} {file src : Bytes} {a : α} :
    run p file src = .ok a ↔ ∃ s s' : TokenStream, scan file src = ⟨s.lexemes, s.fault⟩ ∧
      (p (16 * (s.rest.length + 4))).Yields s a s' := by
  have hc := scan_closed file src
  have hmap {x : Except SyntaxError (α × TokenStream)} :
      x.map (·.1) = .ok a ↔ ∃ s', x = .ok (a, s') := by
    cases x with
    | error e => simp [Except.map]
    | ok r => simp [Except.map, Prod.ext_iff]
  unfold run
  generalize scan file src = t at hc
  obtain ⟨lexemes, fault⟩ := t
  cases lexemes with
  | nil =>
    cases fault with
    | none =>
      generalize hx : (⟨[], none⟩ : Scan) = x at hc
      cases hc with
      | ended _ _ => simp at hx
      | broken _ => cases hx
    | some e => simp [TokenStream.lexemes]
  | cons l rest =>
    refine hmap.trans ⟨?_, ?_⟩
    · rintro ⟨s', h⟩
      exact ⟨⟨l, rest, fault⟩, s', rfl, h⟩
    · rintro ⟨⟨_, _, _⟩, s', ⟨⟩, h⟩
      exact ⟨s', h⟩

end Parser

/-!
## Texts of spaced tokens

A `Word` is a token with the way it is written. The lexemes of a text of words with a space
between each two are the tokens of the words: `scan_spaced`.
-/

/-- A token and how it is written. -/
structure Word where
  token : Token
  text : Bytes

/-- The text of the word is a spelling of its token. -/
def Word.IsSpelled (w : Word) : Prop := ∃ cs, w.text = Bytes.ofChars cs ∧ Spells cs w.token

/-- The text of some words with a space between each two. -/
def spaced (ws : List Word) : Bytes := Bytes.join (Bytes.ofChars [' ']) (ws.map (·.text))

/-- What a tree keeps of a token: the token and, of a literal, how it is written. -/
def Token.key (t : Token) (raw : Bytes) : Token × Bytes :=
  (t, if (Parser.literal? t).isSome then raw else [])

/-- What a tree keeps of a lexeme. -/
def Lexeme.key (l : Lexeme) : Token × Bytes := l.token.key l.raw

/-- What a tree keeps of a word. -/
def Word.key (w : Word) : Token × Bytes := w.token.key w.text

/-- The lexemes are those of the words. -/
def Writes (ls : List Lexeme) (ws : List Word) : Prop := ls.map Lexeme.key = ws.map Word.key

theorem writes_nil {ls : List Lexeme} : Writes ls [] ↔ ls = [] := by
  simp [Writes]

theorem writes_cons {ls : List Lexeme} {w : Word} {ws : List Word} :
    Writes ls (w :: ws) ↔ ∃ l ms, ls = l :: ms ∧ l.key = w.key ∧ Writes ms ws := by
  simp [Writes, List.map_eq_cons_iff]

theorem writes_append {ls : List Lexeme} {ws vs : List Word} :
    Writes ls (ws ++ vs) ↔ ∃ l₁ l₂, ls = l₁ ++ l₂ ∧ Writes l₁ ws ∧ Writes l₂ vs := by
  simp only [Writes, List.map_append, List.map_eq_append_iff]

/-! ### One word -/

theorem Spells.not_eof {cs : List Char} {t : Token} (h : Spells cs t) : t ≠ .eof := by
  cases h <;> nofun

theorem Spells.ne_nil {cs : List Char} {t : Token} (h : Spells cs t) : cs ≠ [] := by
  cases h with
  | @punct m _ => cases m <;> decide
  | keyword k => cases k <;> decide
  | name h _ => cases h; exact List.cons_ne_nil _ _
  | int h _ => exact h.1
  | float h _ _ _ _ => simp [h.1]
  | string _ _ _ => exact List.cons_ne_nil _ _

/-- The next token of a text that starts with a spelling, perhaps after a space. -/
theorem next_spells {cs : List Char} {t : Token} (h : Spells cs t) {rest : List Glyph}
    (hr : IsGap rest) (p : Position) {gs : List Glyph}
    (hgs : gs = cs.map Glyph.char ++ rest ∨ gs = .char ' ' :: (cs.map Glyph.char ++ rest)) :
    ∃ l p', ScanPoint.next ⟨gs, p, [.code]⟩ = .ok (l, ⟨rest, p', [.code]⟩) ∧ l.token = t ∧
      l.key = t.key (Bytes.ofChars cs) := by
  have hskip : ∃ p', skipGap .blanks p gs = .ok (p', cs.map Glyph.char ++ rest) := by
    obtain rfl | rfl := hgs
    · exact ⟨p, skipGap_spells h hr p⟩
    · exact ⟨_, skipGap_spells h hr (p.advance (.char ' '))⟩
  obtain ⟨p₁, hp⟩ := hskip
  obtain ⟨l, p₂, hl, rfl, hraw⟩ := scanCode_spells h hr p₁ [.code]
  refine ⟨l, p₂, ?_, rfl, ?_⟩
  · rw [ScanPoint.next, show ScanPoint.mode ⟨gs, p, [.code]⟩ = .code from rfl]
    simp only [hp, bind, Except.bind]
    exact hl
  · rw [Lexeme.key, Token.key, Token.key]
    split
    · rw [hraw]
      intro m hm
      simp_all [Parser.literal?]
    · rfl

/-! ### All words -/

/-- The lexemes of some words, each after a space. -/
theorem scanAll_words {ws : List Word} (h : ∀ w ∈ ws, w.IsSpelled) :
    ∃ cs, ws.flatMap (fun w => Bytes.ofChars [' '] ++ w.text) = Bytes.ofChars cs ∧
      ws.length ≤ cs.length ∧ IsGap (cs.map Glyph.char) ∧
      ∀ n seen p, ws.length < n → ∃ ls e, scanAll n seen ⟨cs.map Glyph.char, p, [.code]⟩ =
        ⟨seen.reverse ++ ls ++ [e], none⟩ ∧ e.token = .eof ∧ Writes ls ws := by
  induction ws with
  | nil =>
    refine ⟨[], rfl, Nat.le_refl _, .nil, fun n seen p hn => ?_⟩
    obtain ⟨n, rfl⟩ : ∃ k, n = k + 1 := ⟨n - 1, by simp at hn; omega⟩
    exact ⟨[], ⟨.eof, p, []⟩, by simp [scanAll, ScanPoint.next, ScanPoint.mode, skipGap, bind, Except.bind, scanCode], rfl, rfl⟩
  | cons w ws ih =>
    obtain ⟨rest, htext, hlen, hgap, hscan⟩ := ih fun w hw => h w (List.mem_cons_of_mem _ hw)
    obtain ⟨cs, hw, hs⟩ := h w List.mem_cons_self
    refine ⟨' ' :: (cs ++ rest), ?_, ?_, .space, fun n seen p hn => ?_⟩
    · rw [List.flatMap_cons, htext, hw]
      simp [Bytes.ofChars]
    · simp only [List.length_cons, List.length_append]
      omega
    · obtain ⟨n, rfl⟩ : ∃ k, n = k + 1 := ⟨n - 1, by omega⟩
      obtain ⟨l, p', hnext, hl, hkey⟩ := next_spells hs hgap p (.inr rfl)
      obtain ⟨ls, e, hls, he, hws⟩ := hscan n (l :: seen) p' (by simp at hn; omega)
      refine ⟨l :: ls, e, ?_, he, writes_cons.2 ⟨l, ls, rfl, ?_, hws⟩⟩
      · rw [List.map_cons, List.map_append, scanAll, hnext]
        dsimp only
        split
        · rename_i heof
          exact absurd (hl.symm.trans heof) hs.not_eof
        · rw [hls]
          simp
      · rw [hkey, Word.key, hw]

/-- The lexemes of a text of words with a space between each two are those of the words. -/
theorem scan_spaced (file : Bytes) {ws : List Word} (h : ∀ w ∈ ws, w.IsSpelled) :
    ∃ ls e, scan file (spaced ws) = ⟨ls ++ [e], none⟩ ∧ e.token = .eof ∧ Writes ls ws := by
  cases ws with
  | nil => exact ⟨[], _, rfl, rfl, writes_nil.2 rfl⟩
  | cons w ws =>
    obtain ⟨rest, htext, hlen, hgap, hscan⟩ :=
      scanAll_words fun w hw => h w (List.mem_cons_of_mem _ hw)
    obtain ⟨cs, hw, hs⟩ := h w List.mem_cons_self
    have hspaced : spaced (w :: ws) = Bytes.ofChars (cs ++ rest) := by
      rw [spaced, List.map_cons, join_cons, List.flatMap_map, htext, hw]
      simp [Bytes.ofChars]
    have hpos : 0 < cs.length := List.length_pos_iff.2 hs.ne_nil
    obtain ⟨l, p', hnext, hl, hkey⟩ := next_spells hs hgap (.start file) (.inl rfl)
    obtain ⟨ls, e, hls, he, hws⟩ :=
      hscan (cs.length + rest.length) [l] p' (by omega)
    refine ⟨l :: ls, e, ?_, he, writes_cons.2 ⟨l, ls, rfl, by rw [hkey, Word.key, hw], hws⟩⟩
    rw [scan, ScanPoint.ofBytes, hspaced, glyphs_ofChars, List.length_map, List.map_append,
      List.length_append, scanAll, hnext]
    dsimp only
    split
    · rename_i heof
      exact absurd (hl.symm.trans heof) hs.not_eof
    · rw [hls]
      simp

end Stencil
