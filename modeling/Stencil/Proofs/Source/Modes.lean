import Stencil.Proofs.Source.Lexing

/-!
# The modes of the reader are well nested

Sections of a text lie within each other: templates in code and in islands, islands in templates.
The marks `<|`, `|>` and `$` open and close them (`Shifts`), and nothing else changes the modes.
The marks that were read so far and not yet closed are those of the modes on the stack (`Pending`),
for one token keeps this, `Pending.shift`, and so does any number of them, `pending_reads`. With the
marks that close the modes they make up a well-nested sequence (`Pending.wellNested`), in every text
and at every point of it (`modes_wellNested`).
-/

namespace Stencil

/-! ### Sections -/

/-- The sections that may lie directly within a section. -/
def LexMode.LiesIn (inner outer : LexMode) : Prop :=
  (inner = .template ∧ outer ≠ .template) ∨ (inner = .island ∧ outer = .template)

/-- The mark that opens a section within another. -/
def LexMode.opening : LexMode → Punct
  | .template => .openTemplate
  | _ => .dollar

/-- The mark that closes it. -/
def LexMode.closing : LexMode → Punct
  | .template => .closeTemplate
  | _ => .dollar

/-- The stack of modes with the given number of sections open: templates and islands in turn, and
code below them. -/
def nesting : Nat → List LexMode
  | 0 => [.code]
  | n + 1 => (if (nesting n).head? = some .template then .island else .template) :: nesting n

/-- The marks of whole sections within a section. -/
inductive WellNested : LexMode → List Punct → Prop where
  | nil (m) : WellNested m []
  | section {m n : LexMode} {inner rest : List Punct} : n.LiesIn m → WellNested n inner →
      WellNested m rest → WellNested m (n.opening :: inner ++ n.closing :: rest)

/-- The marks that were read while the modes of the stack, the innermost first, are open. -/
inductive Pending : List LexMode → List Punct → Prop where
  | code {marks : List Punct} : WellNested .code marks → Pending [.code] marks
  | opened {m n : LexMode} {modes : List LexMode} {marks inner : List Punct} : n.LiesIn m →
      Pending (m :: modes) marks → WellNested n inner →
      Pending (n :: m :: modes) (marks ++ n.opening :: inner)

/-- The marks that close the sections that are open. -/
def closings (modes : List LexMode) : List Punct := modes.dropLast.map LexMode.closing

section

variable {m n : LexMode} {modes : List LexMode} {marks inner a b : List Punct}

theorem WellNested.append (ha : WellNested m a) (hb : WellNested m b) : WellNested m (a ++ b) := by
  induction ha with
  | nil => exact hb
  | «section» hn hinner _ _ ih =>
    rw [List.append_assoc, List.cons_append]
    exact .section hn hinner (ih hb)

theorem WellNested.single (h : n.LiesIn m) (hinner : WellNested n inner) :
    WellNested m (n.opening :: inner ++ [n.closing]) := .section h hinner (.nil m)

/-- The modes that are open alternate. -/
theorem Pending.modes_eq (h : Pending modes marks) : ∃ k, modes = nesting k := by
  induction h with
  | code => exact ⟨0, rfl⟩
  | @opened m n modes _ _ hn _ _ ih =>
    obtain ⟨k, hk⟩ := ih
    refine ⟨k + 1, ?_⟩
    rw [nesting, ← hk]
    obtain ⟨rfl, hm⟩ | ⟨rfl, rfl⟩ := hn
    · rw [if_neg (by simpa using hm)]
    · rfl

/-- A section is closed, and then lies within the one around it. -/
theorem Pending.close (h : Pending (n :: m :: modes) marks) :
    Pending (m :: modes) (marks ++ [n.closing]) := by
  cases h with
  | opened hn hpending hinner =>
    have hsection := WellNested.single hn hinner
    rw [List.append_assoc]
    cases hpending with
    | code hcode => exact .code (hcode.append hsection)
    | opened hm hpending hlast =>
      rw [List.append_assoc, List.cons_append]
      exact .opened hm hpending (hlast.append hsection)

theorem Pending.open (h : Pending (m :: modes) marks) (hn : n.LiesIn m) :
    Pending (n :: m :: modes) (marks ++ [n.opening]) := .opened hn h (.nil n)

/-- With the marks that close what is open, the marks are well nested. -/
theorem Pending.wellNested (h : Pending modes marks) :
    WellNested .code (marks ++ closings modes) := by
  induction modes generalizing marks with
  | nil => cases h
  | cons n modes ih =>
    cases modes with
    | nil =>
      cases h with
      | code h => simpa [closings] using h
    | cons m modes =>
      have hrest := ih h.close
      rwa [List.append_assoc] at hrest

end

/-! ### Tokens -/

/-- The mark that a token is, if it opens or closes a section. -/
def Token.mark? : Token → Option Punct
  | .punct .openTemplate => some .openTemplate
  | .punct .closeTemplate => some .closeTemplate
  | .punct .dollar => some .dollar
  | _ => none

/-- What a token does to the modes. -/
inductive Shifts : Token → List LexMode → List LexMode → Prop where
  | openTemplate {m modes} : m ≠ .template →
      Shifts (.punct .openTemplate) (m :: modes) (.template :: m :: modes)
  | closeTemplate {modes} : Shifts (.punct .closeTemplate) (.template :: modes) modes
  | openIsland {modes} :
      Shifts (.punct .dollar) (.template :: modes) (.island :: .template :: modes)
  | closeIsland {modes} : Shifts (.punct .dollar) (.island :: modes) modes
  | keep {t modes} : t.mark? = none → Shifts t modes modes

/-- The marks among lexemes. -/
def modeMarks (ls : List Lexeme) : List Punct := ls.filterMap fun l => l.token.mark?

theorem Token.IsNumber.mark? {t : Token} (h : t.IsNumber) : t.mark? = none := by
  cases h <;> rfl

theorem Punct.shifts {m : Punct} (hclose : m ≠ .closeTemplate) (hdollar : m ≠ .dollar)
    {mode : LexMode} {modes : List LexMode} (hmode : mode ≠ .template) :
    Shifts (.punct m) (mode :: modes)
      (if m = .openTemplate then .template :: mode :: modes else mode :: modes) := by
  split
  · rename_i h
    subst h
    exact .openTemplate hmode
  · cases m <;> first | exact .keep rfl | contradiction

/-- In code, a template may be opened, and an island closed. -/
theorem scanCode_shifts {c d : ScanPoint} {l : Lexeme} {mode : LexMode} {modes : List LexMode}
    (h : scanCode c = .ok (l, d)) (hmodes : c.modes = mode :: modes) (hmode : mode ≠ .template) :
    Shifts l.token c.modes d.modes := by
  obtain ⟨rest, p, _⟩ := c
  subst hmodes
  unfold scanCode at h
  dsimp only at h
  split at h
  · cases h
    exact .keep rfl
  · cases h
  rename_i ch more
  split at h
  · -- a name or a keyword
    cases h
    dsimp only
    split <;> exact .keep rfl
  split at h
  · -- a number
    cases hs : scanNumber p (.char ch :: more) with
    | error e =>
      rw [hs] at h
      cases h
    | ok s =>
      rw [hs] at h
      cases h
      exact .keep (scanNumber_takes hs).1.mark?
  split at h
  · -- a string
    cases hs : scanString ch p more with
    | error e =>
      rw [hs] at h
      cases h
    | ok s =>
      rw [hs] at h
      cases h
      obtain ⟨⟨t, ht⟩, -⟩ := scanString_takes hs
      exact .keep (by rw [ht]; rfl)
  split at h
  · -- the `$` that closes an island
    split at h
    · rename_i hisland
      cases h
      rw [hisland]
      exact .closeIsland
    · cases h
  split at h
  · rename_i m n hm
    cases h
    obtain ⟨-, -, hclose, hdollar⟩ := leadingPunct?_takes hm
    exact Punct.shifts hclose hdollar hmode
  · cases h

/-- In a template, the template may be closed, and an island opened. -/
theorem scanTemplate_shifts {c d : ScanPoint} {l : Lexeme} {modes : List LexMode}
    (h : scanTemplate c = .ok (l, d)) (hmodes : c.modes = .template :: modes) :
    Shifts l.token c.modes d.modes := by
  unfold scanTemplate at h
  cases hs : scanText c.pos [] [] c.rest with
  | error e =>
    rw [hs] at h
    cases h
  | ok r =>
    simp only [hs, bind, Except.bind] at h
    split at h
    · cases h
      exact .keep rfl
    · split at h <;> cases h
      · rw [hmodes]
        exact .closeTemplate
      · rw [hmodes]
        exact .openIsland
      · exact .keep rfl

/-- What reading one token does to the modes. -/
theorem ScanPoint.next_shifts {c d : ScanPoint} {l : Lexeme} (h : c.next = .ok (l, d))
    (hmodes : c.modes ≠ []) : Shifts l.token c.modes d.modes := by
  obtain ⟨mode, modes, hcons⟩ := List.exists_cons_of_ne_nil hmodes
  have hmode : c.mode = mode := by rw [ScanPoint.mode, hcons, List.headD_cons]
  unfold ScanPoint.next at h
  split at h
  · rename_i htemplate
    exact scanTemplate_shifts h (by rw [hcons, ← hmode, htemplate])
  · rename_i hother
    cases hs : skipGap .blanks c.pos c.rest with
    | error e =>
      rw [hs] at h
      cases h
    | ok r =>
      rw [hs] at h
      exact scanCode_shifts (c := ⟨r.2, r.1, c.modes⟩) h hcons fun heq => hother (hmode.trans heq)

/-- A token keeps the marks in step with the modes. -/
theorem Pending.shift {t : Token} {modes modes' : List LexMode} {marks : List Punct}
    (h : Pending modes marks) (hshift : Shifts t modes modes') :
    Pending modes' (marks ++ t.mark?.toList) := by
  cases hshift with
  | openTemplate hm => exact h.open (.inl ⟨rfl, hm⟩)
  | closeTemplate =>
    cases modes' with
    | nil => cases h
    | cons => exact h.close
  | openIsland => exact h.open (.inr ⟨rfl, rfl⟩)
  | closeIsland =>
    cases modes' with
    | nil => cases h
    | cons => exact h.close
  | keep ht => rwa [ht, Option.toList_none, List.append_nil]

/-! ### Texts -/

/-- One call after the other gives the lexemes and leaves the reader at the second point. After the
end of the text, calls give the end again. -/
inductive ScanPoint.Reads : ScanPoint → List Lexeme → ScanPoint → Prop where
  | nil (c) : Reads c [] c
  | cons {c d e l ls} : c.next = .ok (l, d) → Reads d ls e → Reads c (l :: ls) e

section

variable {c d : ScanPoint} {ls : List Lexeme} {marks : List Punct}

theorem Pending.ne_nil {modes : List LexMode} (h : Pending modes marks) : modes ≠ [] := by
  rintro rfl
  cases h

/-- Any number of tokens keeps the marks in step with the modes. -/
theorem pending_reads (h : Pending c.modes marks) (hreads : c.Reads ls d) :
    Pending d.modes (marks ++ modeMarks ls) := by
  induction hreads generalizing marks with
  | nil => simpa [modeMarks] using h
  | @cons c d e l ls hnext _ ih =>
    have hrest := ih (h.shift (ScanPoint.next_shifts hnext h.ne_nil))
    rw [List.append_assoc] at hrest
    convert hrest using 2
    cases hmark : l.token.mark? <;> simp [modeMarks, hmark]

/-- The lexemes of a text that is read without an error are read one after the other. -/
theorem Lexes.reads {s : Scan} (h : Lexes c s) (hfault : s.fault = none) :
    ∃ d, c.Reads s.lexemes d := by
  induction h with
  | fault => cases hfault
  | eof hnext => exact ⟨_, .cons hnext (.nil _)⟩
  | cons hnext _ _ ih =>
    obtain ⟨e, he⟩ := ih hfault
    exact ⟨e, .cons hnext he⟩

end

/-- The reader after the lexemes `ls` of a text: its modes alternate, the marks read so far are
pending for them and well nested once they are closed, and the next token shifts them. -/
structure ScanPoint.Nested (ls : List Lexeme) (d : ScanPoint) : Prop where
  alternates : ∃ k, d.modes = nesting k
  pending : Pending d.modes (modeMarks ls)
  wellNested : WellNested .code (modeMarks ls ++ closings d.modes)
  shifts : ∀ l e, d.next = .ok (l, e) → Shifts l.token d.modes e.modes

/-- In every text the modes are well nested after any number of tokens, and so are the marks of a
text that is read to its end. -/
theorem modes_wellNested (file src : Bytes) :
    (∀ ls d, (ScanPoint.ofBytes file src).Reads ls d → d.Nested ls) ∧
      ((scan file src).fault = none → ∃ d,
        (ScanPoint.ofBytes file src).Reads (scan file src).lexemes d ∧
          d.Nested (scan file src).lexemes) := by
  have hall (ls : List Lexeme) (d : ScanPoint) (hreads : (ScanPoint.ofBytes file src).Reads ls d) :
      d.Nested ls := by
    have hpending : Pending d.modes (modeMarks ls) := pending_reads (.code (.nil .code)) hreads
    exact ⟨hpending.modes_eq, hpending, hpending.wellNested,
      fun l e h => ScanPoint.next_shifts h hpending.ne_nil⟩
  refine ⟨hall, fun hfault => ?_⟩
  obtain ⟨d, hd⟩ := (scan_lexes file src).reads hfault
  exact ⟨d, hd, hall _ d hd⟩

end Stencil
