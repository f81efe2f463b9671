import Mathlib
import Stencil.Proofs.Json.Strings

/-!
# Reading JSON text

`parse_eq_ok` : a text is read as a value if and only if the grammar has it as a text of that value,
where the decoder takes the end of the text for an error inside of an array or object. Where it lets
what is open end there, closing brackets may lack at the end (`isText_of_parse`).

The reader looks ahead for the next word and its delimiter, so that the delimiter between two
elements belongs to the second one. `IsLead` is what stands before a word that is looked ahead to.
-/

namespace Stencil.Json

variable {text rest : Bytes} {gs hs tail : List Glyph} {v : JsonValue} {n depth fuel : Nat}
variable {endsOpen : Bool}

/-! ### Looking ahead -/

/-- What stands before a word: white space, with a delimiter if there is to be one. -/
inductive IsLead : Option UInt8 → List Glyph → Prop where
  | blank {ws} : IsBlank ws → IsLead none ws
  | mark {c ws ws'} : c = ':' ∨ c = ',' → IsBlank ws → IsBlank ws' →
      IsLead (some (code c)) (ws ++ .char c :: ws')

theorem IsLead.append {d : Option UInt8} (h : IsLead d gs) (hblank : IsBlank hs) :
    IsLead d (gs ++ hs) := by
  cases h with
  | blank hws => exact .blank (hws.append hblank)
  | mark hc hws hws' =>
    rw [List.append_assoc]
    exact .mark hc hws (hws'.append hblank)

/-- The delimiter before a word that starts with a byte that is neither kind of bracket is the same
for all of them. -/
theorem delimiter?_open (a : Ahead) {b : UInt8} (h : b ≠ code ']') (h' : b ≠ code '\x7d') :
    a.delimiter? b = a.delimiter? 34 := by
  unfold Ahead.delimiter?
  split <;> simp [h, h'] <;> decide

/-- A colon and a comma stand before words. -/
theorem glyphs_delimiter {b : UInt8} (h : b = code ':' ∨ b = code ',') (rest : Bytes) :
    ∃ c, (c = ':' ∨ c = ',') ∧ b = code c ∧ Bytes.glyphs (b :: rest) = .char c :: rest.glyphs := by
  obtain rfl | rfl := h
  · exact ⟨':', .inl rfl, rfl, glyphs_ofChar_append ':' rest⟩
  · exact ⟨',', .inr rfl, rfl, glyphs_ofChar_append ',' rest⟩

/-- What is looked ahead to comes after white space and the delimiter. -/
theorem peek_sound {a : Ahead} {b : UInt8} (h : peek a text = .ok (b, rest)) :
    ∃ lead, IsLead (a.delimiter? b) lead ∧ text.glyphs = lead ++ rest.glyphs ∧
      ∃ more : Bytes, rest = b :: more := by
  obtain ⟨ws, hws, htext⟩ := glyphs_skipSpace text
  unfold peek at h
  split at h
  · cases h
  rename_i x after hskip
  rw [hskip] at htext
  dsimp only at h
  by_cases hx : x = code ':' ∨ x = code ','
  · obtain ⟨ws', hws', hafter⟩ := glyphs_skipSpace after
    obtain ⟨c, hc, rfl, hglyphs⟩ := glyphs_delimiter hx after
    have hmark : (decide (code c = code ':') || decide (code c = code ',')) = true := by
      simpa using hx
    rw [if_pos hmark] at h
    simp only [Option.isSome_some, if_true] at h
    split at h
    · split at h <;> cases h
    rename_i y more hmore
    split at h
    · rename_i hdelim
      cases h
      refine ⟨ws ++ .char c :: ws', hdelim ▸ .mark hc hws hws', ?_, more, rfl⟩
      rw [htext, hglyphs, hafter, hmore]
      simp
    · cases h
  · have hmark : ¬ (decide (x = code ':') || decide (x = code ',')) = true := by simpa using hx
    rw [if_neg hmark] at h
    simp only [Option.isSome_none, Bool.false_eq_true, if_false] at h
    split at h
    · rename_i hdelim
      cases h
      exact ⟨ws, hdelim ▸ .blank hws, htext, after, rfl⟩
    · cases h

/-- The characters that a word does not start with. -/
def IsBetween (c : Char) : Prop := c ∈ [' ', '\t', '\n', '\r', ':', ',']

instance (c : Char) : Decidable (IsBetween c) := List.instDecidableMemOfLawfulBEq c _

theorem not_space_code {c : Char} (hc : IsAscii c) (h : ¬ IsBetween c) :
    isSpace (code c) = false ∧ code c ≠ code ':' ∧ code c ≠ code ',' := by
  have hne {d : Char} (hd : IsAscii d) (hmem : IsBetween d) : code c ≠ code d := fun heq =>
    h (code_inj hc hd heq ▸ hmem)
  have hspace : code c ≠ code ' ' ∧ code c ≠ code '\t' ∧ code c ≠ code '\n' ∧ code c ≠ code '\r' :=
    ⟨hne (by decide) (by decide), hne (by decide) (by decide), hne (by decide) (by decide),
      hne (by decide) (by decide)⟩
  refine ⟨?_, hne (by decide) (by decide), hne (by decide) (by decide)⟩
  obtain ⟨hs, ht, hn, hr⟩ := hspace
  simp only [isSpace, Bool.or_eq_false_iff, decide_eq_false_iff_not]
  exact ⟨⟨⟨hs, ht⟩, hn⟩, hr⟩

/-- What comes after white space and the delimiter is looked ahead to. -/
theorem peek_of_glyphs {a : Ahead} {c : Char} (hlead : IsLead (a.delimiter? (code c)) gs)
    (hc : IsAscii c) (hstart : ¬ IsBetween c) (htext : text.glyphs = gs ++ .char c :: tail) :
    ∃ rest : Bytes, rest.glyphs = tail ∧ peek a text = .ok (code c, code c :: rest) := by
  obtain ⟨hspace, hcolon, hcomma⟩ := not_space_code hc hstart
  have skip {t : Bytes} {ws : List Glyph} (hws : IsBlank ws)
      (ht : t.glyphs = ws ++ .char c :: tail) :
      ∃ rest : Bytes, rest.glyphs = tail ∧ skipSpace t = code c :: rest := by
    obtain ⟨u, hu, hskip⟩ := skipSpace_of_glyphs hws ht
    obtain ⟨rest, rfl, hrest⟩ := eq_of_glyphs_char hu
    rw [hc.ofChar] at hskip
    exact ⟨rest, hrest, hskip.trans (skipSpace_of_not_space hspace)⟩
  unfold peek
  generalize hd : a.delimiter? (code c) = d at hlead
  cases hlead with
  | blank hws =>
    obtain ⟨rest, hrest, hskip⟩ := skip hws htext
    have hmark : ¬ (decide (code c = code ':') || decide (code c = code ',')) = true := by
      simp [hcolon, hcomma]
    refine ⟨rest, hrest, ?_⟩
    rw [hskip]
    dsimp only
    rw [if_neg hmark]
    simp [hd]
  | @mark e ws ws' he hws hws' =>
    rw [List.append_assoc] at htext
    obtain ⟨u, hu, hskip⟩ := skipSpace_of_glyphs hws htext
    obtain ⟨mid, rfl, hmid⟩ := eq_of_glyphs_char hu
    obtain ⟨rest, hrest, hskip'⟩ := skip hws' hmid
    refine ⟨rest, hrest, ?_⟩
    obtain ⟨hmark, hechar, hespace⟩ :
        (decide (code e = code ':') || decide (code e = code ',')) = true ∧
          Bytes.ofChar e = [code e] ∧ isSpace (code e) = false := by
      obtain rfl | rfl := he <;> decide
    rw [hskip, hechar, List.singleton_append, skipSpace_of_not_space hespace]
    dsimp only
    rw [if_pos hmark]
    simp only [Option.isSome_some, if_true, hskip', hd]

/-! ### What is read is in the grammar -/

/-- What stands before an element or member together with the white space before it: a comma that
follows the one before, if it is not the first. -/
inductive IsFront : Bool → List Glyph → Prop where
  | first : IsFront true []
  | later {ws} : IsBlank ws → IsFront false (ws ++ [.char ','])

/-- The delimiter before an element or member. -/
def frontMark (isFirst : Bool) : Option UInt8 := if isFirst then none else some (code ',')

/-- The look-ahead to an element or member: its front and the white space before it. -/
theorem IsLead.front {isFirst : Bool} {lead : List Glyph} (h : IsLead (frontMark isFirst) lead) :
    ∃ front ws, IsFront isFirst front ∧ IsBlank ws ∧ lead = front ++ ws := by
  generalize hd : frontMark isFirst = d at h
  cases isFirst with
  | true =>
    cases h with
    | blank hws => exact ⟨[], lead, .first, hws, rfl⟩
    | mark _ _ _ => cases hd
  | false =>
    cases h with
    | blank hws => cases hd
    | mark hc hws hws' =>
      obtain rfl | rfl := hc
      · exact absurd hd (by decide)
      · exact ⟨_, _, .later hws, hws', by simp⟩

theorem IsFront.lead {isFirst : Bool} {front ws : List Glyph} (h : IsFront isFirst front)
    (hws : IsBlank ws) : IsLead (frontMark isFirst) (front ++ ws) := by
  cases h with
  | first => exact .blank hws
  | later hws' =>
    rw [List.append_assoc]
    exact .mark (.inr rfl) hws' hws

/-- The look-ahead to the value of a member: a colon with white space around it. -/
theorem IsLead.colon {lead : List Glyph} (h : IsLead (Ahead.memberValue.delimiter? 34) lead) :
    ∃ ws gap, IsBlank ws ∧ IsBlank gap ∧ lead = ws ++ .char ':' :: gap := by
  generalize hd : Ahead.memberValue.delimiter? 34 = d at h
  cases h with
  | blank hws => cases hd
  | mark hc hws hws' =>
    obtain rfl | rfl := hc
    · exact ⟨_, _, hws, hws', rfl⟩
    · exact absurd hd (by decide)

theorem delimiter?_element (isFirst : Bool) :
    (Ahead.element isFirst).delimiter? 34 = frontMark isFirst := by
  cases isFirst <;> rfl

theorem delimiter?_name (isFirst : Bool) :
    (Ahead.name isFirst).delimiter? 34 = frontMark isFirst := by
  cases isFirst <;> rfl

theorem delimiter?_close {a : Ahead} {b : UInt8}
    (ha : (∃ isFirst, a = .element isFirst) ∨ ∃ isFirst, a = .name isFirst)
    (hb : b = code ']' ∨ b = code '\x7d') : a.delimiter? b = none := by
  obtain ⟨isFirst, rfl⟩ | ⟨isFirst, rfl⟩ := ha <;> obtain rfl | rfl := hb <;> cases isFirst <;> rfl

/-- What a text may lack at its end: closing brackets, where the decoder lets what is open end there. -/
def IsCut (endsOpen : Bool) (cut : List Glyph) : Prop :=
  ∀ g ∈ cut, endsOpen = true ∧ (g = .char ']' ∨ g = .char '\x7d')

namespace IsCut

variable {cut cut' : List Glyph}

theorem nil : IsCut endsOpen [] := List.forall_mem_nil _

theorem append (h : IsCut endsOpen cut) (h' : IsCut endsOpen cut') : IsCut endsOpen (cut ++ cut') :=
  List.forall_mem_append.2 ⟨h, h'⟩

/-- Nothing lacks where the decoder takes the end of the text for an error. -/
theorem eq_nil (h : IsCut false cut) : cut = [] :=
  List.eq_nil_iff_forall_not_mem.2 fun g hg => Bool.false_ne_true (h g hg).1

end IsCut

theorem skipSpace_isEmpty : (skipSpace text).isEmpty = true ↔ IsBlank text.glyphs := by
  constructor
  · intro h
    obtain ⟨ws, hws, htext⟩ := glyphs_skipSpace text
    rw [List.isEmpty_iff.1 h, glyphs_nil, List.append_nil] at htext
    exact htext ▸ hws
  · intro h
    obtain ⟨rest, hrest, hskip⟩ := skipSpace_of_glyphs h (List.append_nil _).symm
    obtain rfl : rest = [] := by
      rw [← flatMap_bytes_glyphs rest, hrest]
      rfl
    rw [hskip]
    rfl

/-- A text in which something is looked ahead to is not over. -/
theorem not_isOver {a : Ahead} {x : UInt8 × Bytes} (h : peek a text = .ok x) :
    ¬ isOver endsOpen text = true := by
  cases hskip : skipSpace text with
  | nil =>
    rw [peek, hskip] at h
    cases h
  | cons b rest => simp [isOver, hskip]

theorem isOver_eq_true : isOver endsOpen text = true ↔ endsOpen = true ∧ IsBlank text.glyphs := by
  rw [isOver, Bool.and_eq_true, skipSpace_isEmpty]

/-- What the readers say about the text they read, for a given fuel. -/
structure Sound (endsOpen : Bool) (fuel : Nat) : Prop where
  value {depth a text v rest} : depth ≤ maxDepth →
    readValue endsOpen fuel depth a text = .ok (v, rest) →
    ∃ cut lead gs, IsCut endsOpen cut ∧ IsLead (a.delimiter? 34) lead ∧
      text.glyphs ++ cut = lead ++ gs ++ rest.glyphs ∧ IsValue (maxDepth - depth) gs v
  elements {depth isFirst text vs rest} : depth ≤ maxDepth →
    readElements endsOpen fuel depth isFirst text = .ok (vs, rest) → ∃ cut, IsCut endsOpen cut ∧
      ((∃ ws, IsBlank ws ∧ text.glyphs ++ cut = ws ++ .char ']' :: rest.glyphs ∧ vs = []) ∨
        ∃ front gs, IsFront isFirst front ∧
          text.glyphs ++ cut = front ++ gs ++ .char ']' :: rest.glyphs ∧
          IsElements (maxDepth - depth) gs vs)
  members {depth isFirst text old ms rest} : depth ≤ maxDepth →
    readMembers endsOpen fuel depth isFirst old text = .ok (ms, rest) → ∃ cut, IsCut endsOpen cut ∧
      ((∃ ws, IsBlank ws ∧ text.glyphs ++ cut = ws ++ .char '\x7d' :: rest.glyphs ∧ ms = old) ∨
        ∃ front gs new, IsFront isFirst front ∧
          text.glyphs ++ cut = front ++ gs ++ .char '\x7d' :: rest.glyphs ∧
          IsMembers (maxDepth - depth) gs new ∧
          ms = new.foldl (fun ms m => setMember m.1 m.2 ms) old)

namespace Sound

theorem value_succ (h : Sound endsOpen fuel) {a : Ahead} (hdepth : depth ≤ maxDepth)
    (hread : readValue endsOpen (fuel + 1) depth a text = .ok (v, rest)) :
    ∃ cut lead gs, IsCut endsOpen cut ∧ IsLead (a.delimiter? 34) lead ∧
      text.glyphs ++ cut = lead ++ gs ++ rest.glyphs ∧ IsValue (maxDepth - depth) gs v := by
  rw [readValue] at hread
  obtain ⟨⟨b, t⟩, hpeek, hread⟩ := bind_eq_ok.1 hread
  obtain ⟨lead, hlead, htext, more, rfl⟩ := peek_sound hpeek
  dsimp only at hread
  have hclose : ¬ (b = code ']' ∨ b = code '\x7d') := by
    rintro (rfl | rfl) <;> cases hread
  rw [delimiter?_open a (fun hb => hclose (.inl hb)) fun hb => hclose (.inr hb)] at hlead
  split at hread
  · rename_i hquote
    subst hquote
    obtain ⟨⟨s, rest'⟩, hstring, heq⟩ := bind_eq_ok.1 hread
    cases heq
    obtain ⟨gs, cs, hgs, htake, rfl⟩ := takeString_sound hstring
    refine ⟨[], lead, gs, .nil, hlead, ?_, .string hgs⟩
    rw [List.append_nil, htext, htake, List.append_assoc]
  split at hread
  · rename_i hopen
    subst hopen
    split at hread
    · cases hread
    rename_i hdeep
    obtain ⟨⟨vs, rest'⟩, helements, heq⟩ := bind_eq_ok.1 hread
    cases heq
    have hroom : maxDepth - depth = maxDepth - (depth + 1) + 1 := by omega
    have hglyphs := IsAscii.glyphs_code (by decide : IsAscii '[') more
    rw [hroom]
    obtain ⟨cut, hcut, ⟨ws, hws, hmore, rfl⟩ | ⟨front, gs, hfront, hmore, hgs⟩⟩ :=
      h.elements (by omega) helements
    · refine ⟨cut, lead, _, hcut, hlead, ?_, .emptyArray hws⟩
      rw [htext, hglyphs, List.append_assoc, List.cons_append, show more.glyphs ++ cut = _ from hmore]
      simp
    · cases hfront
      refine ⟨cut, lead, _, hcut, hlead, ?_, .array hgs⟩
      rw [htext, hglyphs, List.append_assoc, List.cons_append, show more.glyphs ++ cut = _ from hmore]
      simp
  split at hread
  · rename_i hopen
    subst hopen
    split at hread
    · cases hread
    rename_i hdeep
    obtain ⟨⟨ms, rest'⟩, hmembers, heq⟩ := bind_eq_ok.1 hread
    cases heq
    have hroom : maxDepth - depth = maxDepth - (depth + 1) + 1 := by omega
    have hglyphs := IsAscii.glyphs_code (by decide : IsAscii '\x7b') more
    rw [hroom]
    obtain ⟨cut, hcut, ⟨ws, hws, hmore, rfl⟩ | ⟨front, gs, new, hfront, hmore, hgs, rfl⟩⟩ :=
      h.members (by omega) hmembers
    · refine ⟨cut, lead, _, hcut, hlead, ?_, .emptyObject hws⟩
      rw [htext, hglyphs, List.append_assoc, List.cons_append, show more.glyphs ++ cut = _ from hmore]
      simp
    · cases hfront
      refine ⟨cut, lead, _, hcut, hlead, ?_, .object hgs⟩
      rw [htext, hglyphs, List.append_assoc, List.cons_append, show more.glyphs ++ cut = _ from hmore]
      simp
  split at hread
  · cases hread
  rename_i hclose
  obtain ⟨⟨w, rest'⟩, hword, hread⟩ := bind_eq_ok.1 hread
  obtain ⟨v', hvalue, heq⟩ := bind_eq_ok.1 hread
  cases heq
  obtain ⟨gs, hgs, hmore⟩ := takeWord_sound hword hvalue (maxDepth - depth)
  exact ⟨[], lead, gs, .nil, hlead, by rw [List.append_nil, htext, hmore, List.append_assoc], hgs⟩

theorem elements_succ (h : Sound endsOpen fuel) {isFirst : Bool} {vs : List JsonValue}
    (hdepth : depth ≤ maxDepth)
    (hread : readElements endsOpen (fuel + 1) depth isFirst text = .ok (vs, rest)) :
    ∃ cut, IsCut endsOpen cut ∧
      ((∃ ws, IsBlank ws ∧ text.glyphs ++ cut = ws ++ .char ']' :: rest.glyphs ∧ vs = []) ∨
        ∃ front gs, IsFront isFirst front ∧
          text.glyphs ++ cut = front ++ gs ++ .char ']' :: rest.glyphs ∧
          IsElements (maxDepth - depth) gs vs) := by
  rw [readElements] at hread
  split at hread
  · rename_i hover
    cases hread
    obtain ⟨hends, hws⟩ := isOver_eq_true.1 hover
    exact ⟨[.char ']'], List.forall_mem_singleton.2 ⟨hends, .inl rfl⟩, .inl ⟨_, hws, rfl, rfl⟩⟩
  obtain ⟨⟨b, t⟩, hpeek, hread⟩ := bind_eq_ok.1 hread
  obtain ⟨lead, hlead, htext, more, rfl⟩ := peek_sound hpeek
  dsimp only at hread
  split at hread
  · rename_i hclose
    subst hclose
    cases hread
    rw [delimiter?_close (.inl ⟨isFirst, rfl⟩) (.inl rfl)] at hlead
    cases hlead with
    | blank hws =>
      refine ⟨[], .nil, .inl ⟨lead, hws, ?_, rfl⟩⟩
      rw [List.append_nil, htext, IsAscii.glyphs_code (by decide)]
      rfl
  split at hread
  · cases hread
  obtain ⟨⟨v, rest₁⟩, hvalue, hread⟩ := bind_eq_ok.1 hread
  obtain ⟨⟨vs', rest₂⟩, hrest, heq⟩ := bind_eq_ok.1 hread
  cases heq
  obtain ⟨cut, lead, gs, hcut, hlead, htext, hgs⟩ := h.value hdepth hvalue
  rw [delimiter?_element] at hlead
  obtain ⟨front, ws, hfront, hws, rfl⟩ := hlead.front
  dsimp only at htext hrest
  obtain ⟨cut', hcut', hmore⟩ := h.elements hdepth hrest
  -- What the element lacks and what the rest lacks come after one another.
  refine ⟨cut ++ cut', hcut.append hcut', .inr ?_⟩
  rw [← List.append_assoc, htext, List.append_assoc]
  obtain ⟨ws', hws', hmore, rfl⟩ | ⟨_, hs, hlater, hmore, hhs⟩ := hmore
  · refine ⟨front, ws ++ gs ++ ws', hfront, ?_, .one hws hgs hws'⟩
    rw [hmore]
    simp
  · cases hlater with
    | later hws' =>
      refine ⟨front, _, hfront, ?_, .more hws hgs hws' hhs⟩
      rw [hmore]
      simp

theorem members_succ (h : Sound endsOpen fuel) {isFirst : Bool}
    {old ms : List (Bytes × JsonValue)} (hdepth : depth ≤ maxDepth)
    (hread : readMembers endsOpen (fuel + 1) depth isFirst old text = .ok (ms, rest)) :
    ∃ cut, IsCut endsOpen cut ∧
      ((∃ ws, IsBlank ws ∧ text.glyphs ++ cut = ws ++ .char '\x7d' :: rest.glyphs ∧ ms = old) ∨
        ∃ front gs new, IsFront isFirst front ∧
          text.glyphs ++ cut = front ++ gs ++ .char '\x7d' :: rest.glyphs ∧
          IsMembers (maxDepth - depth) gs new ∧
          ms = new.foldl (fun ms m => setMember m.1 m.2 ms) old) := by
  rw [readMembers] at hread
  split at hread
  · rename_i hover
    cases hread
    obtain ⟨hends, hws⟩ := isOver_eq_true.1 hover
    exact ⟨[.char '\x7d'], List.forall_mem_singleton.2 ⟨hends, .inr rfl⟩, .inl ⟨_, hws, rfl, rfl⟩⟩
  obtain ⟨⟨b, t⟩, hpeek, hread⟩ := bind_eq_ok.1 hread
  obtain ⟨lead, hlead, htext, more, rfl⟩ := peek_sound hpeek
  dsimp only at hread
  split at hread
  · rename_i hclose
    subst hclose
    cases hread
    rw [delimiter?_close (.inr ⟨isFirst, rfl⟩) (.inr rfl)] at hlead
    cases hlead with
    | blank hws =>
      refine ⟨[], .nil, .inl ⟨lead, hws, ?_, rfl⟩⟩
      rw [List.append_nil, htext, IsAscii.glyphs_code (by decide)]
      rfl
  split at hread
  · cases hread
  split at hread
  · rename_i hquote
    subst hquote
    rw [delimiter?_name] at hlead
    obtain ⟨front, ws, hfront, hws, rfl⟩ := hlead.front
    obtain ⟨⟨name, rest₁⟩, hstring, hread⟩ := bind_eq_ok.1 hread
    obtain ⟨⟨v, rest₂⟩, hvalue, hread⟩ := bind_eq_ok.1 hread
    obtain ⟨ks, cs, hks, htake, rfl⟩ := takeString_sound hstring
    obtain ⟨cut, lead, gs, hcut, hlead, hcolon, hgs⟩ := h.value hdepth hvalue
    obtain ⟨ws', gap, hws', hgap, rfl⟩ := hlead.colon
    dsimp only at hread hcolon
    obtain ⟨cut', hcut', hmore⟩ := h.members hdepth hread
    refine ⟨cut ++ cut', hcut.append hcut', .inr ?_⟩
    have hglyphs : text.glyphs ++ (cut ++ cut') = front ++ ws ++ (ks ++
        (ws' ++ .char ':' :: gap ++ gs ++ (Bytes.glyphs rest₂ ++ cut'))) := by
      rw [htext, htake]
      simp only [List.append_assoc] at hcolon ⊢
      rw [← List.append_assoc _ cut cut', hcolon]
      simp
    rw [hglyphs]
    obtain ⟨gap', hgap', hmore, rfl⟩ | ⟨_, hs, new, hlater, hmore, hhs, rfl⟩ := hmore
    · refine ⟨front, _, [(_, v)], hfront, ?_, .one (.mk hws hks hws' hgap hgs hgap'), rfl⟩
      rw [hmore]
      simp
    · cases hlater with
      | later hgap' =>
        refine ⟨front, _, (_, v) :: new, hfront, ?_,
          .more (.mk hws hks hws' hgap hgs hgap') hhs, rfl⟩
        rw [hmore]
        simp
  split at hread
  · cases hread
  · obtain ⟨_, -, hread⟩ := bind_eq_ok.1 hread
    cases hread

end Sound

/-- The readers read what the grammar has, but for the brackets that lack at the end. -/
theorem sound (endsOpen : Bool) (fuel : Nat) : Sound endsOpen fuel := by
  induction fuel with
  | zero =>
    constructor <;> intros <;> contradiction
  | succ fuel ih => exact ⟨ih.value_succ, ih.elements_succ, ih.members_succ⟩

/-! ### What the grammar has is read -/

/-- What follows does not go on with a number. -/
def EndsWord (gs : List Glyph) : Prop :=
  ∀ c, gs.head? = some (.char c) → Decimal.isDigit c = false ∧ c ∉ ['.', 'e', 'E']

theorem EndsWord.numeral (h : EndsWord rest.glyphs) : EndsNumeral rest := by
  intro b hb
  cases rest with
  | nil => cases hb
  | cons x rest =>
    obtain rfl := Option.some.inj hb
    have head (hlt : x < 128) := h _ (congrArg List.head? (glyphs_ascii_cons hlt rest))
    constructor
    · refine eq_false_of_ne_true fun hdigit => ?_
      have hnone := (head (lt_of_isDigit hdigit)).1
      rw [isDigit_ofNat, hdigit] at hnone
      cases hnone
    · rintro c hc rfl
      have hascii : IsAscii c := by
        simp only [List.mem_cons, List.not_mem_nil, or_false] at hc
        obtain rfl | rfl | rfl := hc <;> decide
      have hnot := (head (UInt8.lt_iff_toNat_lt.2 (by rw [hascii.toNat_code]; exact hascii))).2
      rw [hascii.toNat_code, Char.ofNat_toNat] at hnot
      exact hnot hc

theorem EndsWord.nil : EndsWord [] := fun _ h => by cases h

/-- The characters that may follow a value. -/
def IsClosing (c : Char) : Prop := c ∈ [' ', '\t', '\n', '\r', ',', ']', '\x7d']

instance (c : Char) : Decidable (IsClosing c) := List.instDecidableMemOfLawfulBEq c _

theorem IsClosing.endsWord {c : Char} (h : IsClosing c) (tail : List Glyph) :
    EndsWord (.char c :: tail) := by
  intro d hd
  obtain rfl : c = d := by simpa using hd
  simp only [IsClosing, List.mem_cons, List.not_mem_nil, or_false] at h
  obtain rfl | rfl | rfl | rfl | rfl | rfl | rfl := h <;> decide

theorem IsBlank.endsWord (h : IsBlank gs) (htail : EndsWord tail) :
    EndsWord (gs ++ tail) := by
  cases gs with
  | nil => exact htail
  | cons g gs =>
    obtain rfl | rfl | rfl | rfl := h g List.mem_cons_self
    all_goals exact IsClosing.endsWord (by decide) _

/-- The characters that a value starts with. -/
def IsOpening (c : Char) : Prop :=
  c ∈ ['"', '[', '\x7b', 'n', 't', 'f', '-'] ∨ Decimal.isDigit c = true

theorem IsOpening.isAscii {c : Char} (h : IsOpening c) : IsAscii c := by
  obtain h | h := h
  · simp only [List.mem_cons, List.not_mem_nil, or_false] at h
    obtain rfl | rfl | rfl | rfl | rfl | rfl | rfl := h <;> decide
  · exact isAscii_of_isDigit h

theorem IsOpening.code_ne {c d : Char} (h : IsOpening c) (hd : IsAscii d) (hne : c ≠ d) :
    code c ≠ code d := mt (code_inj h.isAscii hd) hne

/-- A value starts with none of the characters that stand between and after values. -/
theorem IsOpening.not_isClosing {c : Char} (h : IsOpening c) : ¬ IsClosing c ∧ ¬ IsBetween c := by
  obtain h | h := h
  · simp only [List.mem_cons, List.not_mem_nil, or_false] at h
    obtain rfl | rfl | rfl | rfl | rfl | rfl | rfl := h <;> decide
  · constructor
    all_goals
      intro hc
      simp only [IsClosing, IsBetween, List.mem_cons, List.not_mem_nil, or_false] at hc
    · obtain rfl | rfl | rfl | rfl | rfl | rfl | rfl := hc <;> exact absurd h (by decide)
    · obtain rfl | rfl | rfl | rfl | rfl | rfl := hc <;> exact absurd h (by decide)

theorem IsOpening.not_bracket {c : Char} (h : IsOpening c) :
    code c ≠ code ']' ∧ code c ≠ code '\x7d' := by
  constructor
  all_goals
    refine h.code_ne (by decide) ?_
    rintro rfl
    exact h.not_isClosing.1 (by decide)

theorem IsValue.head (h : IsValue n gs v) : ∃ c hs, gs = .char c :: hs ∧ IsOpening c := by
  cases h with
  | null => exact ⟨'n', _, rfl, .inl (by decide)⟩
  | bool b => cases b <;> exact ⟨_, _, rfl, .inl (by decide)⟩
  | number hm _ =>
    obtain ⟨c, cs, hcs, hc⟩ := hm.head
    refine ⟨c, cs.map .char, by rw [hcs]; rfl, ?_⟩
    exact hc.imp (fun heq => by rw [heq]; decide) id
  | string hs =>
    cases hs
    exact ⟨'"', _, rfl, .inl (by decide)⟩
  | emptyArray _ => exact ⟨'[', _, rfl, .inl (by decide)⟩
  | array _ => exact ⟨'[', _, rfl, .inl (by decide)⟩
  | emptyObject _ => exact ⟨'\x7b', _, rfl, .inl (by decide)⟩
  | object _ => exact ⟨'\x7b', _, rfl, .inl (by decide)⟩

theorem eq_of_glyphs_append (h : text.glyphs = gs ++ rest.glyphs) :
    text = gs.flatMap Glyph.bytes ++ rest := by
  rw [← flatMap_bytes_glyphs text, h, List.flatMap_append, flatMap_bytes_glyphs]

/-- What is left of a text is not longer. -/
theorem length_le_of_glyphs (h : text.glyphs = gs ++ rest.glyphs) : rest.length ≤ text.length := by
  rw [eq_of_glyphs_append h, List.length_append]
  omega

/-- What is left of a text of which something was read is shorter. -/
theorem length_lt_of_glyphs (h : text.glyphs = gs ++ rest.glyphs) (hne : gs ≠ []) :
    rest.length < text.length := by
  obtain ⟨g, gs, rfl⟩ := List.exists_cons_of_ne_nil hne
  have hpos : 0 < g.bytes.length := by
    cases g with
    | char c => exact List.length_pos_of_ne_nil (ofChar_ne_nil c)
    | stray b => exact Nat.one_pos
  rw [eq_of_glyphs_append h, List.flatMap_cons, List.length_append, List.length_append]
  omega

/-- A text between brackets. -/
theorem eq_of_glyphs_enclosed {c d : Char} (hc : IsAscii c)
    (h : text.glyphs = .char c :: gs ++ [Glyph.char d] ++ tail) :
    ∃ mid : Bytes, text = code c :: mid ∧ mid.glyphs = gs ++ .char d :: tail := by
  obtain ⟨mid, rfl, hmid⟩ := eq_of_glyphs_char h
  exact ⟨mid, by rw [hc.ofChar]; rfl, by simpa using hmid⟩

section steps

variable {a : Ahead} {isFirst : Bool} {t : Bytes} {b : UInt8} {c : Char} {vs : List JsonValue}
variable {old ms : List (Bytes × JsonValue)}

theorem readValue_string {s : Bytes} (hpeek : peek a text = .ok (34, t))
    (hread : takeString t = .ok (s, rest)) :
    readValue endsOpen (fuel + 1) depth a text = .ok (.string s, rest) := by
  rw [readValue, hpeek, ok_bind]
  dsimp only
  rw [if_pos rfl, hread]
  rfl

theorem readValue_array (hpeek : peek a text = .ok (code '[', code '[' :: t))
    (hdepth : depth ≠ maxDepth) (hread : readElements endsOpen fuel (depth + 1) true t = .ok (vs, rest)) :
    readValue endsOpen (fuel + 1) depth a text = .ok (.array vs, rest) := by
  rw [readValue, hpeek, ok_bind]
  dsimp only
  rw [if_neg (by decide), if_pos rfl, if_neg hdepth, List.drop_one, List.tail_cons, hread]
  rfl

theorem readValue_object (hpeek : peek a text = .ok (code '\x7b', code '\x7b' :: t))
    (hdepth : depth ≠ maxDepth) (hread : readMembers endsOpen fuel (depth + 1) true [] t = .ok (ms, rest)) :
    readValue endsOpen (fuel + 1) depth a text = .ok (.object ms, rest) := by
  rw [readValue, hpeek, ok_bind]
  dsimp only
  rw [if_neg (by decide), if_neg (by decide), if_pos rfl, if_neg hdepth, List.drop_one,
    List.tail_cons, hread]
  rfl

theorem readValue_word {w : Word} (hpeek : peek a text = .ok (code c, t)) (hc : IsOpening c)
    (hword : c ∉ ['"', '[', '\x7b']) (hread : takeWord t = .ok (w, rest)) (hv : w.value = .ok v) :
    readValue endsOpen (fuel + 1) depth a text = .ok (v, rest) := by
  simp only [List.mem_cons, List.not_mem_nil, or_false, not_or] at hword
  obtain ⟨hquote, hsquare, hcurly⟩ := hword
  have hq : code c ≠ code '"' := hc.code_ne (by decide) hquote
  have hs : code c ≠ code '[' := hc.code_ne (by decide) hsquare
  have hb : code c ≠ code '\x7b' := hc.code_ne (by decide) hcurly
  have hclose : ¬ (decide (code c = code ']') || decide (code c = code '\x7d')) = true := by
    simp [hc.not_bracket]
  rw [readValue, hpeek, ok_bind]
  dsimp only
  rw [if_neg (show code c ≠ 34 from hq), if_neg hs, if_neg hb, if_neg hclose, hread, ok_bind]
  dsimp only
  rw [hv]
  rfl

/-- A literal is read. -/
theorem readValue_literal {w : Word} {l : String}
    (hmem : (w, l) ∈ [(Word.null, "null"), (.bool true, "true"), (.bool false, "false")])
    (hpeek : peek a text = .ok (code c, t)) (hc : IsOpening c) (hhead : l.toList.head? = some c)
    (ht : t.glyphs = l.toList.map .char ++ tail) (hv : w.value = .ok v) :
    ∃ rest : Bytes, rest.glyphs = tail ∧ readValue endsOpen (fuel + 1) depth a text = .ok (v, rest) := by
  obtain ⟨rest, rfl, hrest⟩ := eq_of_glyphs_chars ht
  refine ⟨rest, hrest, readValue_word hpeek hc ?_ (takeWord_literal hmem rest) hv⟩
  simp only [List.mem_cons, Prod.mk.injEq, List.not_mem_nil, or_false] at hmem
  obtain ⟨-, rfl⟩ | ⟨-, rfl⟩ | ⟨-, rfl⟩ := hmem <;> cases hhead <;> decide

theorem readElements_close (depth fuel : Nat) {ws : List Glyph} (hws : IsBlank ws)
    (hfuel : 0 < fuel) (htext : text.glyphs = ws ++ .char ']' :: tail) :
    ∃ rest : Bytes, rest.glyphs = tail ∧
      readElements endsOpen fuel depth isFirst text = .ok ([], rest) := by
  obtain ⟨fuel, rfl⟩ := Nat.exists_eq_add_one.2 hfuel
  have hlead : IsLead ((Ahead.element isFirst).delimiter? (code ']')) ws := by
    rw [delimiter?_close (.inl ⟨isFirst, rfl⟩) (.inl rfl)]
    exact .blank hws
  obtain ⟨rest, hrest, hpeek⟩ := peek_of_glyphs hlead (by decide) (by decide) htext
  refine ⟨rest, hrest, ?_⟩
  rw [readElements, if_neg (not_isOver hpeek), hpeek, ok_bind]
  rfl

theorem readMembers_close (depth fuel : Nat) {ws : List Glyph} (hws : IsBlank ws) (hfuel : 0 < fuel)
    (htext : text.glyphs = ws ++ .char '\x7d' :: tail) : ∃ rest : Bytes, rest.glyphs = tail ∧
      readMembers endsOpen fuel depth isFirst old text = .ok (old, rest) := by
  obtain ⟨fuel, rfl⟩ := Nat.exists_eq_add_one.2 hfuel
  have hlead : IsLead ((Ahead.name isFirst).delimiter? (code '\x7d')) ws := by
    rw [delimiter?_close (.inr ⟨isFirst, rfl⟩) (.inr rfl)]
    exact .blank hws
  obtain ⟨rest, hrest, hpeek⟩ := peek_of_glyphs hlead (by decide) (by decide) htext
  refine ⟨rest, hrest, ?_⟩
  rw [readMembers, if_neg (not_isOver hpeek), hpeek, ok_bind]
  rfl

theorem readElements_cons {rest' : Bytes} (hpeek : peek (.element isFirst) text = .ok (code c, t))
    (hc : IsOpening c) (hvalue : readValue endsOpen fuel depth (.element isFirst) text = .ok (v, rest))
    (hread : readElements endsOpen fuel depth false rest = .ok (vs, rest')) :
    readElements endsOpen (fuel + 1) depth isFirst text = .ok (v :: vs, rest') := by
  rw [readElements, if_neg (not_isOver hpeek), hpeek, ok_bind]
  dsimp only
  rw [if_neg hc.not_bracket.1, if_neg hc.not_bracket.2, hvalue, ok_bind]
  dsimp only
  rw [hread]
  rfl

theorem readMembers_cons {name rest' rest'' : Bytes}
    (hpeek : peek (.name isFirst) text = .ok (34, t)) (hname : takeString t = .ok (name, rest))
    (hvalue : readValue endsOpen fuel depth .memberValue rest = .ok (v, rest'))
    (hread : readMembers endsOpen fuel depth false (setMember name v old) rest' = .ok (ms, rest'')) :
    readMembers endsOpen (fuel + 1) depth isFirst old text = .ok (ms, rest'') := by
  rw [readMembers, if_neg (not_isOver hpeek), hpeek, ok_bind]
  dsimp only
  rw [if_neg (by decide), if_neg (by decide), if_pos rfl, hname, ok_bind]
  dsimp only
  rw [hvalue, ok_bind]
  exact hread

end steps

theorem IsValue.append_ne_nil (h : IsValue n gs v) {lead : List Glyph} : lead ++ gs ≠ [] := by
  obtain ⟨c, hs, rfl, -⟩ := h.head
  exact List.append_ne_nil_of_right_ne_nil lead (List.cons_ne_nil _ _)

/-- A value is looked ahead to. -/
theorem IsValue.peek (h : IsValue n gs v) {a : Ahead} {lead : List Glyph}
    (hlead : IsLead (a.delimiter? 34) lead) (htext : text.glyphs = lead ++ gs ++ tail) :
    ∃ c, IsOpening c ∧ gs.head? = some (.char c) ∧ ∃ t : Bytes, t.glyphs = gs ++ tail ∧
      peek a text = .ok (code c, t) := by
  obtain ⟨c, hs, rfl, hc⟩ := h.head
  rw [← delimiter?_open a hc.not_bracket.1 hc.not_bracket.2] at hlead
  obtain ⟨t, ht, hpeek⟩ := peek_of_glyphs hlead hc.isAscii hc.not_isClosing.2
    (htext.trans (List.append_assoc _ _ _))
  refine ⟨c, hc, rfl, code c :: t, ?_, hpeek⟩
  rw [hc.isAscii.glyphs_code, ht]
  rfl

mutual

/-- A value of the grammar is read. -/
theorem readValue_of_glyphs {n gs v} (h : IsValue n gs v) (depth fuel : Nat) {a lead tail text}
    (hdepth : depth + n ≤ maxDepth) (hlead : IsLead (a.delimiter? 34) lead)
    (htail : EndsWord tail) (htext : text.glyphs = lead ++ gs ++ tail)
    (hfuel : 2 * text.length + 1 ≤ fuel) :
    ∃ rest : Bytes, rest.glyphs = tail ∧ readValue endsOpen fuel depth a text = .ok (v, rest) := by
  obtain ⟨c, hc, hhead, t, ht, hpeek⟩ := h.peek hlead htext
  have hlen : t.length ≤ text.length :=
    length_le_of_glyphs (by rw [htext, ht, List.append_assoc])
  obtain ⟨fuel, rfl⟩ : ∃ k, fuel = k + 1 := ⟨fuel - 1, by omega⟩
  cases h with
  | null =>
    obtain rfl : 'n' = c := by simpa using hhead
    exact readValue_literal (w := .null) (by simp) hpeek hc rfl ht rfl
  | bool b =>
    cases b with
    | false =>
      obtain rfl : 'f' = c := Glyph.char.inj (Option.some.inj hhead)
      exact readValue_literal (w := .bool false) (l := "false") (by simp) hpeek hc rfl ht rfl
    | true =>
      obtain rfl : 't' = c := Glyph.char.inj (Option.some.inj hhead)
      exact readValue_literal (w := .bool true) (l := "true") (by simp) hpeek hc rfl ht rfl
  | number hm hv =>
    obtain ⟨rest, rfl, rfl⟩ := eq_of_glyphs_chars ht
    refine ⟨rest, rfl, readValue_word hpeek hc ?_ (takeWord_number hm htail.numeral)
      ((numberValue_eq_ok hm).2 hv)⟩
    obtain ⟨d, ds, hds, hd⟩ := hm.head
    obtain rfl : d = c := by simpa [hds] using hhead
    obtain rfl | hdigit := hd
    · decide
    · simp only [List.mem_cons, List.not_mem_nil, or_false]
      rintro (rfl | rfl | rfl) <;> exact absurd hdigit (by decide)
  | string hs =>
    obtain ⟨hquote, rest, hrest, hread⟩ := takeString_of_glyphs hs ht
    obtain rfl : '"' = c := by
      cases hs
      simpa using hhead
    exact ⟨rest, hrest, readValue_string hpeek hread⟩
  | emptyArray hws =>
    obtain rfl : '[' = c := by simpa using hhead
    obtain ⟨mid, rfl, hmid⟩ := eq_of_glyphs_enclosed (by decide) ht
    rw [List.length_cons] at hlen
    obtain ⟨rest, hrest, hread⟩ := readElements_close (depth + 1) fuel hws (by omega) hmid
    exact ⟨rest, hrest, readValue_array hpeek (by omega) hread⟩
  | array hgs =>
    obtain rfl : '[' = c := by simpa using hhead
    obtain ⟨mid, rfl, hmid⟩ := eq_of_glyphs_enclosed (by decide) ht
    rw [List.length_cons] at hlen
    obtain ⟨rest, hrest, hread⟩ := readElements_of_glyphs hgs (depth + 1) fuel (by omega) .first
      hmid (by omega)
    exact ⟨rest, hrest, readValue_array hpeek (by omega) hread⟩
  | emptyObject hws =>
    obtain rfl : '\x7b' = c := by simpa using hhead
    obtain ⟨mid, rfl, hmid⟩ := eq_of_glyphs_enclosed (by decide) ht
    rw [List.length_cons] at hlen
    obtain ⟨rest, hrest, hread⟩ := readMembers_close (depth + 1) fuel hws (by omega) hmid
    exact ⟨rest, hrest, readValue_object hpeek (by omega) hread⟩
  | object hgs =>
    obtain rfl : '\x7b' = c := by simpa using hhead
    obtain ⟨mid, rfl, hmid⟩ := eq_of_glyphs_enclosed (by decide) ht
    rw [List.length_cons] at hlen
    obtain ⟨rest, hrest, hread⟩ := readMembers_of_glyphs hgs (depth + 1) fuel [] (by omega) .first
      hmid (by omega)
    exact ⟨rest, hrest, readValue_object hpeek (by omega) hread⟩
termination_by (fuel, 0)
decreasing_by all_goals exact Prod.Lex.left _ _ (by omega)

/-- The elements of an array of the grammar are read, with the bracket after them. -/
theorem readElements_of_glyphs {n gs vs} (h : IsElements n gs vs) (depth fuel : Nat)
    {isFirst front tail text} (hdepth : depth + n ≤ maxDepth) (hfront : IsFront isFirst front)
    (htext : text.glyphs = front ++ gs ++ .char ']' :: tail) (hfuel : 2 * text.length + 2 ≤ fuel) :
    ∃ rest : Bytes, rest.glyphs = tail ∧
      readElements endsOpen fuel depth isFirst text = .ok (vs, rest) := by
  obtain ⟨fuel, rfl⟩ : ∃ k, fuel = k + 1 := ⟨fuel - 1, by omega⟩
  cases h with
  | @one _ ws gs ws' v hws hv hws' =>
    have hlead := delimiter?_element isFirst ▸ hfront.lead hws
    have htail : EndsWord (ws' ++ .char ']' :: tail) :=
      hws'.endsWord (IsClosing.endsWord (by decide) tail)
    replace htext : text.glyphs = front ++ ws ++ gs ++ (ws' ++ .char ']' :: tail) := by
      simpa using htext
    obtain ⟨c, hc, -, t, -, hpeek⟩ := hv.peek hlead htext
    obtain ⟨rest, hrest, hvalue⟩ := readValue_of_glyphs hv depth fuel hdepth hlead htail htext
      (by omega)
    obtain ⟨rest', hrest', hread⟩ := readElements_close depth fuel hws' (by omega) hrest
    exact ⟨rest', hrest', readElements_cons hpeek hc hvalue hread⟩
  | @more _ ws gs ws' v hs vs hws hv hws' hmore =>
    have hlead := delimiter?_element isFirst ▸ hfront.lead hws
    have htail : EndsWord (ws' ++ .char ',' :: (hs ++ .char ']' :: tail)) :=
      hws'.endsWord (IsClosing.endsWord (by decide) _)
    replace htext : text.glyphs =
        front ++ ws ++ gs ++ (ws' ++ .char ',' :: (hs ++ .char ']' :: tail)) := by
      simpa using htext
    obtain ⟨c, hc, -, t, -, hpeek⟩ := hv.peek hlead htext
    obtain ⟨rest, hrest, hvalue⟩ := readValue_of_glyphs hv depth fuel hdepth hlead htail htext
      (by omega)
    have hlen : rest.length < text.length :=
      length_lt_of_glyphs (by rw [htext, hrest]) hv.append_ne_nil
    obtain ⟨rest', hrest', hread⟩ := readElements_of_glyphs hmore depth fuel hdepth
      (.later hws') (by simpa using hrest) (by omega)
    exact ⟨rest', hrest', readElements_cons hpeek hc hvalue hread⟩
termination_by (fuel, 0)
decreasing_by all_goals exact Prod.Lex.left _ _ (by omega)

/-- The members of an object of the grammar are read, with the bracket after them. -/
theorem readMembers_of_glyphs {n gs new} (h : IsMembers n gs new) (depth fuel : Nat)
    (old : List (Bytes × JsonValue)) {isFirst front tail text} (hdepth : depth + n ≤ maxDepth)
    (hfront : IsFront isFirst front) (htext : text.glyphs = front ++ gs ++ .char '\x7d' :: tail)
    (hfuel : 2 * text.length + 2 ≤ fuel) :
    ∃ rest : Bytes, rest.glyphs = tail ∧ readMembers endsOpen fuel depth isFirst old text =
      .ok (new.foldl (fun ms m => setMember m.1 m.2 ms) old, rest) := by
  obtain ⟨fuel, rfl⟩ : ∃ k, fuel = k + 1 := ⟨fuel - 1, by omega⟩
  cases h with
  | @one _ gs m hm =>
    obtain ⟨t, rest, rest', gap, hpeek, hname, hvalue, hgap, hrest, -⟩ :=
      readMember_of_glyphs hm depth fuel hdepth hfront
        (IsClosing.endsWord (by decide) tail) htext (by omega)
    obtain ⟨rest'', hrest', hread⟩ := readMembers_close depth fuel hgap (by omega) hrest
    exact ⟨rest'', hrest', readMembers_cons hpeek hname hvalue hread⟩
  | @more _ gs m hs ms hm hmore =>
    replace htext : text.glyphs = front ++ gs ++ .char ',' :: (hs ++ .char '\x7d' :: tail) := by
      simpa using htext
    obtain ⟨t, rest, rest', gap, hpeek, hname, hvalue, hgap, hrest, hlen⟩ :=
      readMember_of_glyphs hm depth fuel hdepth hfront
        (IsClosing.endsWord (by decide) _) htext (by omega)
    obtain ⟨rest'', hrest', hread⟩ := readMembers_of_glyphs hmore depth fuel (setMember m.1 m.2 old)
      hdepth (.later hgap) (by simpa using hrest) (by omega)
    exact ⟨rest'', hrest', readMembers_cons hpeek hname hvalue hread⟩
termination_by (fuel, 0)
decreasing_by all_goals exact Prod.Lex.left _ _ (by omega)

/-- A member of an object of the grammar is read: its name, and its value after the colon. -/
theorem readMember_of_glyphs {n gs m} (h : IsMember n gs m) (depth fuel : Nat)
    {isFirst front tail text} (hdepth : depth + n ≤ maxDepth) (hfront : IsFront isFirst front)
    (htail : EndsWord tail) (htext : text.glyphs = front ++ gs ++ tail)
    (hfuel : 2 * text.length + 1 ≤ fuel) :
    ∃ t rest rest' : Bytes, ∃ gap, peek (.name isFirst) text = .ok (34, t) ∧
      takeString t = .ok (m.1, rest) ∧
      readValue endsOpen fuel depth .memberValue rest = .ok (m.2, rest') ∧
      IsBlank gap ∧ rest'.glyphs = gap ++ tail ∧ rest'.length < text.length := by
  cases h with
  | @mk _ ws ks ws' gap gs gap' cs v hws hks hws' hgap hv hgap' =>
    have hlead := delimiter?_name isFirst ▸ hfront.lead hws
    replace htext : text.glyphs =
        front ++ ws ++ (ks ++ (ws' ++ .char ':' :: gap ++ gs ++ (gap' ++ tail))) := by
      simpa using htext
    obtain ⟨t, ht, hpeek⟩ : ∃ t : Bytes, t.glyphs =
        ks ++ (ws' ++ .char ':' :: gap ++ gs ++ (gap' ++ tail)) ∧
          peek (.name isFirst) text = .ok (34, t) := by
      cases hks
      obtain ⟨t, ht, hpeek⟩ := peek_of_glyphs (c := '"') hlead (by decide) (by decide) htext
      exact ⟨_, by rw [IsAscii.glyphs_code (by decide), ht]; rfl, hpeek⟩
    obtain ⟨-, rest, hrest, hname⟩ := takeString_of_glyphs hks ht
    have hlen : rest.length ≤ t.length := length_le_of_glyphs (by rw [ht, hrest])
    have hlen' : t.length ≤ text.length := length_le_of_glyphs (by rw [htext, ht])
    obtain ⟨rest', hrest', hvalue⟩ := readValue_of_glyphs hv depth fuel (a := .memberValue) hdepth
      (.mark (.inl rfl) hws' hgap) (hgap'.endsWord htail) hrest (by omega)
    have hlen'' : rest'.length < rest.length :=
      length_lt_of_glyphs (by rw [hrest, hrest']) hv.append_ne_nil
    exact ⟨t, rest, rest', gap', hpeek, hname, hvalue, hgap', hrest', by omega⟩
termination_by (fuel, 1)
decreasing_by exact Prod.Lex.right _ Nat.zero_lt_one

end

/-- What is read of a text is in the grammar, but for the brackets that lack at the end. -/
theorem isText_of_parse (h : parse endsOpen text = .ok v) :
    ∃ cut, IsCut endsOpen cut ∧ IsText maxDepth (text.glyphs ++ cut) v := by
  obtain ⟨⟨v', rest⟩, hread, h⟩ := bind_eq_ok.1 h
  dsimp only at h
  split at h
  · rename_i hrest
    cases h
    obtain ⟨cut, lead, gs, hcut, hlead, htext, hgs⟩ := (sound endsOpen _).value (Nat.zero_le _) hread
    cases hlead with
    | blank hlead => exact ⟨cut, hcut, htext ▸ .mk hlead hgs (skipSpace_isEmpty.1 hrest)⟩
  · cases h

/-- A text of the grammar is read. -/
theorem parse_of_isText (h : IsText maxDepth text.glyphs v) : parse endsOpen text = .ok v := by
  unfold parse
  generalize hgs : text.glyphs = gs at h
  obtain ⟨hws, hv, hws'⟩ := h
  have hends := List.append_nil _ ▸ hws'.endsWord .nil
  obtain ⟨rest, hrest, hread⟩ := readValue_of_glyphs hv 0 (2 * text.length + 2) (a := .value)
    (by omega) (.blank hws) hends hgs (by omega)
  rw [hread, ok_bind]
  exact if_pos (skipSpace_isEmpty.2 (hrest ▸ hws'))

/-- Where the decoder takes the end of a text for an error, a text is read as a value if and only if the
grammar has it as a text of that value. -/
theorem parse_eq_ok : parse false text = .ok v ↔ IsText maxDepth text.glyphs v := by
  refine ⟨fun h => ?_, parse_of_isText⟩
  obtain ⟨cut, hcut, htext⟩ := isText_of_parse h
  rwa [hcut.eq_nil, List.append_nil] at htext

end Stencil.Json
