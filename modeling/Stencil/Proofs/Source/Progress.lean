import Stencil.Proofs.Source.Modes

/-!
# Reading tokens comes to an end

Every token but the end of the file takes at least one byte (`ScanPoint.next_shrinks`), so a text
has no more of them than it has bytes (`count_reads`). Once the end of the file is read, it is read
for ever after (`ScanPoint.next_eof`). Where no token can be read, the error has a position in the
file (`ScanPoint.next_error`), as every lexeme of a text has (`scan_placed`).
-/

namespace Stencil

/-! ### Positions -/

/-- The position is one of the file. -/
structure Position.InFile (file : Bytes) (p : Position) : Prop where
  file : p.file = some file
  line : 1 ≤ p.line
  col : 1 ≤ p.col

/-- The error has a position in the file, and is not about the depth of recursion. -/
structure SyntaxError.Placed (file : Bytes) (e : SyntaxError) : Prop where
  pos : e.pos.InFile file
  cause : e.cause ≠ .nestingLimit

namespace Position.InFile

variable {file : Bytes} {p : Position}

theorem start (file : Bytes) : (Position.start file).InFile file :=
  ⟨rfl, Nat.le_refl 1, Nat.le_refl 1⟩

theorem right (h : p.InFile file) (n : Nat) : (p.right n).InFile file :=
  ⟨h.file, h.line, Nat.le_add_right_of_le h.col⟩

theorem advance (h : p.InFile file) (g : Glyph) : (p.advance g).InFile file := by
  unfold Position.advance
  split
  · exact ⟨h.file, Nat.le_add_right_of_le h.line, Nat.le_refl 1⟩
  · exact ⟨h.file, h.line, Nat.le_add_right_of_le h.col⟩

theorem advanceAll (h : p.InFile file) (gs : List Glyph) : (p.advanceAll gs).InFile file := by
  induction gs generalizing p with
  | nil => exact h
  | cons g gs ih => exact ih (h.advance g)

end Position.InFile

/-! ### Errors -/

section

variable {file : Bytes} {p : Position} {gs : List Glyph} {e : SyntaxError}

/-- Where a part of a gap began, if it has to be closed. -/
def GapPart.InFile (file : Bytes) : GapPart → Prop
  | .bracketed start => start.InFile file
  | _ => True

theorem skipGap_error {part : GapPart} (hp : p.InFile file) (hpart : part.InFile file)
    (h : skipGap part p gs = .error e) : e.Placed file := by
  fun_induction skipGap part p gs with
  | case1 p gs ih => exact ih (hp.right 2) trivial h
  | case2 p gs ih => exact ih (hp.right 2) hp h
  | case3 p g gs _ _ _ ih => exact ih (hp.advance g) trivial h
  | case4 | case5 | case6 => cases h
  | case7 =>
    cases h
    exact ⟨hp, by simp⟩
  | case8 p c gs ih =>
    refine ih (hp.advance _) ?_ h
    split <;> trivial
  | case9 =>
    cases h
    exact ⟨hpart, by simp⟩
  | case10 start p gs ih => exact ih (hp.right 2) trivial h
  | case11 =>
    cases h
    exact ⟨hp, by simp⟩
  | case12 start p c gs _ ih => exact ih (hp.advance _) hpart h

theorem finishNumber_error {whole frac mark sign exp rest : List Glyph} (hp : p.InFile file)
    (h : finishNumber p whole frac mark sign exp rest = .error e) : e.Placed file := by
  unfold finishNumber at h
  dsimp only at h
  split at h
  · cases h
    exact ⟨hp.right _, by simp⟩
  · split at h <;> split at h <;> cases h <;> exact ⟨hp, by simp⟩

theorem scanNumber_error (hp : p.InFile file) (h : scanNumber p gs = .error e) :
    e.Placed file := by
  rw [scanNumber_eq] at h
  generalize splitFraction (gs.dropWhile Glyph.isDigit) = split at h
  by_cases hbare : (splitMark split.2).1 = []
  · rw [scanExponent_bare _ _ _ hbare] at h
    exact finishNumber_error hp h
  · rw [scanExponent_marked _ _ _ hbare] at h
    exact finishNumber_error hp h

theorem scanStringBody_error {q : Char} {start : Position} {seen : List Glyph}
    (hstart : start.InFile file) (hp : p.InFile file)
    (h : scanStringBody q start p seen gs = .error e) : e.Placed file := by
  fun_induction scanStringBody q start p seen gs with
  | case1 | case4 | case5 =>
    cases h
    exact ⟨hstart, by simp⟩
  | case2 =>
    cases h
    exact ⟨hp, by simp⟩
  | case3 => cases h
  | case6 =>
    cases h
    exact ⟨hp.right 1, by simp⟩
  | case7 =>
    rename_i ih
    exact ih ((hp.right 1).advance _) h
  | case8 =>
    rename_i ih
    exact ih (hp.advance _) h

theorem scanString_error {q : Char} (hp : p.InFile file) (h : scanString q p gs = .error e) :
    e.Placed file := by
  unfold scanString at h
  cases hb : scanStringBody q p (p.right 1) [] gs with
  | error e' =>
    rw [hb] at h
    cases h
    exact scanStringBody_error hp (hp.right 1) hb
  | ok r =>
    simp only [hb, bind, Except.bind] at h
    split at h
    · cases h
    · cases h
      exact ⟨hp, by simp⟩

theorem map_error {α β : Type} {x : Except SyntaxError α} {f : α → β} (h : x.map f = .error e) :
    x = .error e := by
  cases x with
  | error e' =>
    cases h
    rfl
  | ok a => cases h

theorem scanCode_error {c : ScanPoint} (hp : c.pos.InFile file) (h : scanCode c = .error e) :
    e.Placed file := by
  unfold scanCode at h
  split at h
  · cases h
  · cases h
    exact ⟨hp, by simp⟩
  dsimp only at h
  split at h
  · cases h
  split at h
  · exact scanNumber_error hp (map_error h)
  split at h
  · exact scanString_error hp (map_error h)
  split at h
  · split at h
    · cases h
    · cases h
      exact ⟨hp, by simp⟩
  · split at h
    · cases h
    · cases h
      exact ⟨hp, by simp⟩

theorem scanText_error {text raw : List Glyph} (hp : p.InFile file)
    (h : scanText p text raw gs = .error e) : e.Placed file := by
  fun_induction scanText p text raw gs with
  | case1 | case3 | case5 => cases h
  | case2 =>
    rename_i ih
    exact ih (hp.right 2) h
  | case4 =>
    cases h
    exact ⟨hp, by simp⟩
  | case6 =>
    rename_i ih
    exact ih (hp.advance _) h

theorem scanTemplate_error {c : ScanPoint} (hp : c.pos.InFile file)
    (h : scanTemplate c = .error e) : e.Placed file := by
  unfold scanTemplate at h
  cases hs : scanText c.pos [] [] c.rest with
  | error e' =>
    rw [hs] at h
    cases h
    exact scanText_error hp hs
  | ok r =>
    simp only [hs, bind, Except.bind] at h
    split at h
    · cases h
    · split at h <;> cases h

/-- Where no token can be read, the error has a position. -/
theorem ScanPoint.next_error {c : ScanPoint} (hp : c.pos.InFile file) (h : c.next = .error e) :
    e.Placed file := by
  unfold ScanPoint.next at h
  split at h
  · exact scanTemplate_error hp h
  · cases hs : skipGap .blanks c.pos c.rest with
    | error e' =>
      rw [hs] at h
      cases h
      have hpart : GapPart.InFile file .blanks := trivial
      exact skipGap_error hp hpart hs
    | ok r =>
      obtain ⟨p, rest⟩ := r
      rw [hs] at h
      obtain ⟨cs, -, -, rfl⟩ := skipGap_takes hs
      exact scanCode_error (c := ⟨rest, c.pos.advanceAll _, c.modes⟩) (hp.advanceAll _) h

end

/-! ### What a token takes -/

/-- The number of bytes that are left. -/
def ScanPoint.left (c : ScanPoint) : Nat := (Bytes.ofGlyphs c.rest).length

/-- A call of the reader for the next token takes bytes, stays at the end of the file, or fails at
a position. -/
inductive ScanPoint.Step (file : Bytes) (c : ScanPoint) :
    Except SyntaxError (Lexeme × ScanPoint) → Prop where
  | token {l d} : l.token ≠ .eof → d.left < c.left → Step file c (.ok (l, d))
  | ended {l d} : l.token = .eof → d.next = .ok (l, d) → Step file c (.ok (l, d))
  | fault {e : SyntaxError} : e.Placed file → Step file c (.error e)

section

variable {file src : Bytes} {c d : ScanPoint} {l : Lexeme} {ls : List Lexeme} {gap word : List Char}

theorem left_ofBytes : (ScanPoint.ofBytes file src).left = src.length :=
  congrArg List.length (flatMap_bytes_glyphs src)

theorem ScanPoint.Takes.left (h : c.Takes gap word l d) :
    c.left = (Bytes.ofChars gap).length + (Bytes.ofChars word).length + d.left := by
  rw [ScanPoint.left, h.text, ScanPoint.left]
  simp only [Bytes.ofGlyphs, List.flatMap_append, List.length_append, ← Nat.add_assoc]
  congr 2 <;> exact congrArg List.length (ofGlyphs_map _)

theorem length_ofChars_pos (h : word ≠ []) : 0 < (Bytes.ofChars word).length := by
  obtain ⟨ch, more, rfl⟩ := List.exists_cons_of_ne_nil h
  rw [Bytes.ofChars, List.flatMap_cons, List.length_append]
  have := List.length_pos_iff.2 (ofChar_ne_nil ch)
  omega

/-- Every token takes bytes, except the end of the file. -/
theorem ScanPoint.next_shrinks (h : c.next = .ok (l, d)) (hl : l.token ≠ .eof) :
    d.left < c.left := by
  obtain ⟨gap, word, htakes⟩ := ScanPoint.next_takes h
  have := length_ofChars_pos (htakes.spans.ne_nil hl)
  have := htakes.left
  omega

theorem ScanPoint.next_left_le (h : c.next = .ok (l, d)) : d.left ≤ c.left := by
  obtain ⟨gap, word, htakes⟩ := ScanPoint.next_takes h
  have := htakes.left
  omega

/-- After the end of the file comes the end of the file. -/
theorem ScanPoint.next_eof (h : c.next = .ok (l, d)) (hl : l.token = .eof) :
    d.next = .ok (l, d) := by
  obtain ⟨gap, word, htakes⟩ := ScanPoint.next_takes h
  have hmodes : d.modes = c.modes := by rw [htakes.modes, hl]; rfl
  have hspans := htakes.spans
  obtain ⟨rest, p, modes⟩ := d
  obtain rfl : rest = [] := htakes.ended hl
  obtain rfl : l = ⟨.eof, p, []⟩ := by
    cases hspans with
    | eof p' =>
      obtain rfl : p = p' := htakes.pos
      rfl
    | number _ hnumber _ => exact absurd hl hnumber.ne_eof
    | _ => cases hl
  unfold ScanPoint.next
  split <;> rfl

theorem ScanPoint.Takes.inFile (h : c.Takes gap word l d) (hp : c.pos.InFile file) :
    l.pos.InFile file ∧ d.pos.InFile file := by
  have hl : l.pos.InFile file := by
    rw [h.start]
    exact hp.advanceAll _
  refine ⟨hl, ?_⟩
  rw [h.pos]
  exact hl.advanceAll _

/-! ### Texts -/

/-- The number of tokens before the end of the file. -/
def countTokens (ls : List Lexeme) : Nat := ls.countP fun l => l.token.kind ≠ .eof

/-- A text has no more tokens before its end than bytes. -/
theorem count_reads (h : c.Reads ls d) : countTokens ls + d.left ≤ c.left := by
  induction h with
  | nil => simp [countTokens]
  | @cons c d e l ls hnext _ ih =>
    rw [countTokens] at ih ⊢
    rw [List.countP_cons]
    by_cases hl : l.token = .eof
    · have := ScanPoint.next_left_le hnext
      rw [if_neg (by simp [hl, Token.kind])]
      omega
    · have := ScanPoint.next_shrinks hnext hl
      split <;> omega

theorem ScanPoint.Reads.inFile (h : c.Reads ls d) (hp : c.pos.InFile file) : d.pos.InFile file := by
  induction h with
  | nil => exact hp
  | cons hnext _ ih =>
    obtain ⟨gap, word, htakes⟩ := ScanPoint.next_takes hnext
    exact ih (htakes.inFile hp).2

/-- The lexemes of a text, and the error at which it breaks off, have positions in its file. -/
structure Scan.Placed (file : Bytes) (s : Scan) : Prop where
  lexemes : ∀ l ∈ s.lexemes, l.pos.InFile file
  fault : ∀ e, s.fault = some e → e.Placed file

theorem Lexes.placed {s : Scan} (h : Lexes c s) (hp : c.pos.InFile file) : s.Placed file := by
  induction h with
  | fault hnext =>
    refine ⟨by simp, fun e he => ?_⟩
    cases he
    exact ScanPoint.next_error hp hnext
  | eof hnext =>
    obtain ⟨gap, word, htakes⟩ := ScanPoint.next_takes hnext
    exact ⟨List.forall_mem_singleton.2 (htakes.inFile hp).1, by simp⟩
  | cons hnext _ _ ih =>
    obtain ⟨gap, word, htakes⟩ := ScanPoint.next_takes hnext
    have hrest := ih (htakes.inFile hp).2
    exact ⟨List.forall_mem_cons.2 ⟨(htakes.inFile hp).1, hrest.lexemes⟩, hrest.fault⟩

theorem scan_placed (file src : Bytes) : (scan file src).Placed file :=
  (scan_lexes file src).placed (.start file)

theorem ScanPoint.step_next (hp : c.pos.InFile file) : ScanPoint.Step file c c.next := by
  cases h : c.next with
  | error e => exact .fault (ScanPoint.next_error hp h)
  | ok r =>
    obtain ⟨l, d⟩ := r
    by_cases hl : l.token = .eof
    · exact .ended hl (ScanPoint.next_eof h hl)
    · exact .token hl (ScanPoint.next_shrinks h hl)

end

end Stencil
