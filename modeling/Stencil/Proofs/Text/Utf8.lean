import Stencil.Text.Bytes
import Stencil.Source.Position

/-!
# Text in UTF-8, and its lines

The glyphs of the UTF-8 form of some characters are those characters: `glyphs_ofChars`. The form
of a string is that of its characters: `ofString_eq_ofChars`.

A line end is a glyph of its own wherever it stands: no character of more than one byte has it
among its bytes. So a byte string can be cut there before it is read (`glyphs_append_newline`),
and the position at its end is found by counting line ends and the glyphs of its last line
(`add_eq_count`).
-/

namespace Stencil

theorem ofChar_ne_nil (c : Char) : Bytes.ofChar c ≠ [] := by
  unfold Bytes.ofChar String.utf8EncodeChar
  dsimp only
  split
  · exact List.cons_ne_nil _ _
  · split
    · exact List.cons_ne_nil _ _
    · split <;> exact List.cons_ne_nil _ _

theorem shortest?_ofChar (c : Char) (rest : Bytes) {code size : Nat} (hc : code = c.toNat)
    (hs : size = (Bytes.ofChar c).length) :
    shortest? (Bytes.ofChar c ++ rest) code size = some (c, size) := by
  have hpos : 0 < (Bytes.ofChar c).length := List.length_pos_iff.2 (ofChar_ne_nil c)
  subst hc hs
  simp [shortest?, hpos]

theorem toNat_ofNat {n : Nat} (h : n < 256) : (UInt8.ofNat n).toNat = n := by
  rw [UInt8.toNat_ofNat']
  exact Nat.mod_eq_of_lt h

theorem ofNat_lt (m : Nat) {n : Nat} (hn : n < 256) (hm : m < 256) :
    UInt8.ofNat n < UInt8.ofNat m ↔ n < m := by
  rw [UInt8.lt_iff_toNat_lt, toNat_ofNat hn, toNat_ofNat hm]

/-- A byte is compared as the number it is made from. -/
theorem ofNat_spec {n : Nat} (h : n < 256) :
    (∀ m, m < 256 → (UInt8.ofNat n < UInt8.ofNat m ↔ n < m)) ∧ (UInt8.ofNat n).toNat = n :=
  ⟨fun m => ofNat_lt m h, toNat_ofNat h⟩

theorem continuation?_ofNat {n : Nat} (h : n < 64) :
    continuation? (UInt8.ofNat (n + 128)) = some n := by
  have ht := toNat_ofNat (n := n + 128) (by omega)
  have hlo : (0x80 : UInt8) ≤ UInt8.ofNat (n + 128) := by
    rw [UInt8.le_iff_toNat_le, ht]
    exact Nat.le_add_left _ _
  have hhi : UInt8.ofNat (n + 128) < 0xC0 := (ofNat_lt 0xC0 (by omega) (by omega)).2 (by omega)
  rw [continuation?, if_pos ⟨hlo, hhi⟩, ht, Nat.add_sub_cancel]

/-- The first byte of a character tells how many there are. -/
theorem leadingChar?_ofChar (c : Char) (rest : Bytes) :
    leadingChar? (Bytes.ofChar c ++ rest) = some (c, (Bytes.ofChar c).length) := by
  have hv : c.val.toNat < 0x110000 := by
    have := c.valid
    simp only [UInt32.isValidChar, Nat.isValidChar] at this
    omega
  -- whatever the first byte says, the bytes are the shortest encoding of `c`
  have short {code : Nat} (hc : code = c.val.toNat) :
      shortest? (Bytes.ofChar c ++ rest) code (Bytes.ofChar c).length =
        some (c, (Bytes.ofChar c).length) :=
    shortest?_ofChar c rest hc rfl
  generalize hn : (Bytes.ofChar c).length = size at short ⊢
  revert short hn
  rw [Bytes.ofChar, String.utf8EncodeChar]
  split
  · rintro rfl short
    obtain ⟨h, ht⟩ := ofNat_spec (n := c.val.toNat) (by omega)
    have h80 : UInt8.ofNat c.val.toNat < 0x80 := (h 0x80 (by omega)).2 (by omega)
    unfold leadingChar?
    simp only [List.singleton_append, if_pos h80]
    exact short ht
  split
  · rintro rfl short
    obtain ⟨h, ht⟩ := ofNat_spec (n := c.val.toNat / 64 % 32 + 192) (by omega)
    generalize UInt8.ofNat (c.val.toNat / 64 % 32 + 192) = b at h ht short ⊢
    have h80 : ¬ b < 0x80 := fun hb => by have := (h 0x80 (by omega)).1 hb; omega
    have hC0 : ¬ b < 0xC0 := fun hb => by have := (h 0xC0 (by omega)).1 hb; omega
    have hE0 : b < 0xE0 := (h 0xE0 (by omega)).2 (by omega)
    unfold leadingChar?
    simp only [List.cons_append, List.nil_append, if_neg h80, if_neg hC0, if_pos hE0,
      continuation?_ofNat (Nat.mod_lt _ (Nat.succ_pos 63))]
    exact short (by omega)
  split
  · rintro rfl short
    obtain ⟨h, ht⟩ := ofNat_spec (n := c.val.toNat / 4096 % 16 + 224) (by omega)
    generalize UInt8.ofNat (c.val.toNat / 4096 % 16 + 224) = b at h ht short ⊢
    have h80 : ¬ b < 0x80 := fun hb => by have := (h 0x80 (by omega)).1 hb; omega
    have hC0 : ¬ b < 0xC0 := fun hb => by have := (h 0xC0 (by omega)).1 hb; omega
    have hE0 : ¬ b < 0xE0 := fun hb => by have := (h 0xE0 (by omega)).1 hb; omega
    have hF0 : b < 0xF0 := (h 0xF0 (by omega)).2 (by omega)
    unfold leadingChar?
    simp only [List.cons_append, List.nil_append, if_neg h80, if_neg hC0, if_neg hE0, if_pos hF0,
      continuation?_ofNat (Nat.mod_lt _ (Nat.succ_pos 63))]
    exact short (by omega)
  · rintro rfl short
    obtain ⟨h, ht⟩ := ofNat_spec (n := c.val.toNat / 262144 % 8 + 240) (by omega)
    generalize UInt8.ofNat (c.val.toNat / 262144 % 8 + 240) = b at h ht short ⊢
    have h80 : ¬ b < 0x80 := fun hb => by have := (h 0x80 (by omega)).1 hb; omega
    have hC0 : ¬ b < 0xC0 := fun hb => by have := (h 0xC0 (by omega)).1 hb; omega
    have hE0 : ¬ b < 0xE0 := fun hb => by have := (h 0xE0 (by omega)).1 hb; omega
    have hF0 : ¬ b < 0xF0 := fun hb => by have := (h 0xF0 (by omega)).1 hb; omega
    have hF8 : b < 0xF8 := (h 0xF8 (by omega)).2 (by omega)
    unfold leadingChar?
    simp only [List.cons_append, List.nil_append, if_neg h80, if_neg hC0, if_neg hE0, if_neg hF0,
      if_pos hF8, continuation?_ofNat (Nat.mod_lt _ (Nat.succ_pos 63))]
    exact short (by omega)

theorem headGlyph_ofChar {c : Char} {b : UInt8} {more : Bytes} (h : Bytes.ofChar c = b :: more)
    (rest : Bytes) : headGlyph b (more ++ rest) = (.char c, (Bytes.ofChar c).length) := by
  have hl := leadingChar?_ofChar c rest
  rw [h, List.cons_append] at hl
  rw [headGlyph, hl, h]

theorem glyphsAux_ofChars (cs : List Char) (n : Nat) (seen : List Glyph)
    (hn : (Bytes.ofChars cs).length ≤ n) :
    glyphsAux n seen (Bytes.ofChars cs) = seen.reverse ++ cs.map .char := by
  induction cs generalizing n seen with
  | nil => cases n <;> simp [Bytes.ofChars, glyphsAux]
  | cons c cs ih =>
    obtain ⟨b, more, hb⟩ := List.exists_cons_of_ne_nil (ofChar_ne_nil c)
    have hcs : Bytes.ofChars (c :: cs) = b :: (more ++ Bytes.ofChars cs) := by
      simp [Bytes.ofChars, hb]
    rw [hcs] at hn ⊢
    cases n with
    | zero => simp at hn
    | succ n =>
      have hdrop : (b :: (more ++ Bytes.ofChars cs)).drop (Bytes.ofChar c).length =
          Bytes.ofChars cs := by
        rw [hb, ← List.cons_append]
        exact List.drop_left
      rw [glyphsAux, headGlyph_ofChar hb]
      dsimp only
      rw [hdrop, ih]
      · simp
      · simp only [List.length_cons, List.length_append] at hn
        omega

/-- The glyphs of a text written in UTF-8 are its characters. -/
theorem glyphs_ofChars (cs : List Char) : (Bytes.ofChars cs).glyphs = cs.map .char :=
  glyphsAux_ofChars cs _ [] (Nat.le_refl _)

theorem toList_loop_eq (b : ByteArray) (i : Nat) (seen : List UInt8) :
    ByteArray.toList.loop b i seen = seen.reverse ++ b.data.toList.drop i := by
  induction i, seen using ByteArray.toList.loop.induct b with
  | case1 i seen hlt ih =>
    have hi : i < b.data.toList.length := hlt
    have hget : b.get! i = b.data.toList[i] := getElem!_pos b.data i hlt
    rw [ByteArray.toList.loop, if_pos hlt, ih, List.drop_eq_getElem_cons hi, hget,
      List.reverse_cons, List.append_assoc, List.singleton_append]
  | case2 i seen hge =>
    have hi : b.data.toList.length ≤ i := Nat.le_of_not_lt hge
    rw [ByteArray.toList.loop, if_neg hge, List.drop_eq_nil_of_le hi, List.append_nil]

/-- The UTF-8 form of a string is that of its characters. -/
theorem ofString_eq_ofChars (s : String) : Bytes.ofString s = Bytes.ofChars s.toList := by
  have hdata : s.toUTF8.data = (s.toList.flatMap String.utf8EncodeChar).toByteArray.data := by
    rw [String.toUTF8, ← String.utf8Encode_toList, List.utf8Encode]
  rw [Bytes.ofString, ByteArray.toList, toList_loop_eq, List.reverse_nil, List.nil_append,
    List.drop_zero, hdata, List.data_toByteArray]
  rfl

/-! ### Glyph by glyph -/

theorem glyphsAux_eq_append (n : Nat) (seen : List Glyph) (b : Bytes) :
    glyphsAux n seen b = seen.reverse ++ glyphsAux n [] b := by
  induction n generalizing seen b with
  | zero => simp [glyphsAux]
  | succ n ih =>
    cases b with
    | nil => simp [glyphsAux]
    | cons x rest =>
      simp only [glyphsAux]
      rw [ih, ih [_]]
      simp

/-- A bound that is large enough does not matter. -/
theorem glyphsAux_of_le (n : Nat) (b : Bytes) (h : b.length ≤ n) :
    glyphsAux n [] b = b.glyphs := by
  suffices hs : ∀ m, b.length ≤ m → glyphsAux n [] b = glyphsAux m [] b from hs _ (Nat.le_refl _)
  induction n generalizing b with
  | zero =>
    intro m _
    obtain rfl : b = [] := List.length_eq_zero_iff.1 (by omega)
    cases m <;> rfl
  | succ n ih =>
    intro m hm
    cases b with
    | nil => cases m <;> rfl
    | cons x rest =>
      cases m with
      | zero => simp at hm
      | succ m =>
        have hpos := (bytes_headGlyph x rest).2
        have hlen : ((x :: rest).drop (headGlyph x rest).2).length ≤ rest.length := by
          simp only [List.length_drop, List.length_cons]
          omega
        simp only [List.length_cons] at h hm
        simp only [glyphsAux]
        rw [glyphsAux_eq_append n, glyphsAux_eq_append m, ih _ (by omega) m (by omega)]

@[simp] theorem glyphs_nil : Bytes.glyphs [] = [] := rfl

/-- A byte string is read glyph by glyph. -/
theorem glyphs_cons (x : UInt8) (rest : Bytes) :
    Bytes.glyphs (x :: rest) =
      (headGlyph x rest).1 :: Bytes.glyphs ((x :: rest).drop (headGlyph x rest).2) := by
  have hpos := (bytes_headGlyph x rest).2
  have hlen : ((x :: rest).drop (headGlyph x rest).2).length ≤ rest.length := by
    simp only [List.length_drop, List.length_cons]
    omega
  rw [Bytes.glyphs, List.length_cons, glyphsAux]
  dsimp only
  rw [glyphsAux_eq_append, glyphsAux_of_le _ _ hlen]
  rfl

theorem size_of_shortest? {b : Bytes} {code size : Nat} {r : Char × Nat}
    (h : shortest? b code size = some r) : r.2 = size := by
  unfold shortest? at h
  split at h
  · rw [← Option.some.inj h]
  · cases h

theorem size_leadingChar? {b : Bytes} {r : Char × Nat} (h : leadingChar? b = some r) :
    r.2 ≤ b.length := by
  unfold leadingChar? at h
  simp only [Option.bind_eq_bind] at h
  repeat' split at h
  all_goals first
    | (rw [size_of_shortest? h]; simp only [List.length_cons]; omega)
    | simp only [Option.bind_eq_some_iff, reduceCtorEq] at h
  · obtain ⟨_, _, h⟩ := h
    rw [size_of_shortest? h]
    simp
  · obtain ⟨_, _, _, _, h⟩ := h
    rw [size_of_shortest? h]
    simp
  · obtain ⟨_, _, _, _, _, _, h⟩ := h
    rw [size_of_shortest? h]
    simp

/-- A glyph takes no more bytes than there are. -/
theorem size_headGlyph (x : UInt8) (b : Bytes) : (headGlyph x b).2 ≤ (x :: b).length := by
  unfold headGlyph
  split
  · exact size_leadingChar? ‹_›
  · simp

/-! ### Line ends -/

theorem shortest?_append {b rest : Bytes} (code : Nat) {size : Nat} (h : size ≤ b.length) :
    shortest? (b ++ rest) code size = shortest? b code size := by
  rw [shortest?, shortest?, List.take_append_of_le_length h]

/-- What stands after a line end is of no account for the character before it. -/
theorem leadingChar?_append_newline (x : UInt8) (b rest : Bytes) :
    leadingChar? (x :: (b ++ 10 :: rest)) = leadingChar? (x :: b) := by
  have short (code : Nat) {size : Nat} (h : size ≤ (x :: b).length) :
      shortest? (x :: (b ++ 10 :: rest)) code size = shortest? (x :: b) code size :=
    shortest?_append code h
  have congr {α : Type} (o : Option α) {f g : α → Option (Char × Nat)} (h : ∀ a, f a = g a) :
      o.bind f = o.bind g := congrArg o.bind (funext h)
  have cut {α : Type} (o : Option α) : (o.bind fun _ => none) = (none : Option (Char × Nat)) := by
    cases o <;> rfl
  unfold leadingChar?
  -- a line end is in no character, and no character has more than four bytes
  refine ite_congr rfl (fun _ => short _ (Nat.succ_pos _)) fun _ => ite_congr rfl (fun _ => rfl)
    fun _ => ite_congr rfl (fun _ => ?two) fun _ => ite_congr rfl (fun _ => ?three)
    fun _ => ite_congr rfl (fun _ => ?four) fun _ => rfl
  case two =>
    rcases b with _ | ⟨y, b⟩
    · rfl
    · exact congr _ fun _ => short _ (Nat.le_add_left 2 b.length)
  case three =>
    rcases b with _ | ⟨y, _ | ⟨z, b⟩⟩
    · cases rest <;> rfl
    · exact cut _
    · exact congr _ fun _ => congr _ fun _ => short _ (Nat.le_add_left 3 b.length)
  case four =>
    rcases b with _ | ⟨y, _ | ⟨z, _ | ⟨w, b⟩⟩⟩
    · rcases rest with _ | ⟨u, _ | ⟨v, rest⟩⟩ <;> rfl
    · cases rest with
      | nil => rfl
      | cons u rest => exact cut _
    · exact (congr _ fun _ => cut _).trans (cut _)
    · exact congr _ fun _ => congr _ fun _ => congr _ fun _ => short _ (Nat.le_add_left 4 b.length)

theorem headGlyph_append_newline (x : UInt8) (b rest : Bytes) :
    headGlyph x (b ++ 10 :: rest) = headGlyph x b := by
  rw [headGlyph, headGlyph, leadingChar?_append_newline]

theorem glyphs_newline_cons (b : Bytes) : Bytes.glyphs (10 :: b) = .char '\n' :: b.glyphs := by
  have hhead : headGlyph 10 b = (.char '\n', 1) := rfl
  rw [glyphs_cons, hhead]
  rfl

/-- A byte string is read line by line. -/
theorem glyphs_append_newline (a b : Bytes) :
    Bytes.glyphs (a ++ 10 :: b) = a.glyphs ++ .char '\n' :: b.glyphs := by
  induction hn : a.length using Nat.strongRecOn generalizing a with
  | ind n ih =>
    cases a with
    | nil => exact glyphs_newline_cons b
    | cons x a =>
      obtain ⟨htake, hpos⟩ := bytes_headGlyph x a
      have hle : (headGlyph x a).2 ≤ (x :: a).length := size_headGlyph x a
      rw [List.cons_append, glyphs_cons, headGlyph_append_newline, glyphs_cons x a,
        ← List.cons_append, List.drop_append_of_le_length hle, ih _ ?_ _ rfl, List.cons_append]
      simp only [List.length_drop, ← hn]
      simp only [List.length_cons] at hle ⊢
      omega

/-! ### Counting lines -/

/-- What follows the last line end. -/
def Bytes.lastLine (b : Bytes) : Bytes := (b.reverse.takeWhile (· ≠ 10)).reverse

theorem lastLine_of_not_mem {b : Bytes} (h : 10 ∉ b) : b.lastLine = b := by
  have hall : ∀ x ∈ b.reverse, decide (x ≠ 10) = true := fun x hx =>
    decide_eq_true fun h10 => h (h10 ▸ List.mem_reverse.1 hx)
  have htake : (b.reverse ++ []).takeWhile (· ≠ 10) = b.reverse ++ [].takeWhile (· ≠ 10) :=
    List.takeWhile_append_of_pos hall
  rw [List.append_nil, List.takeWhile_nil, List.append_nil] at htake
  rw [Bytes.lastLine, htake, List.reverse_reverse]

theorem lastLine_append_newline (a b : Bytes) : Bytes.lastLine (a ++ 10 :: b) = b.lastLine := by
  rw [Bytes.lastLine, Bytes.lastLine, List.reverse_append, List.reverse_cons, List.append_assoc,
    List.takeWhile_append]
  split
  · rename_i h
    rw [(List.takeWhile_prefix _).eq_of_length h]
    simp
  · rfl

namespace Position

theorem advanceAll_append (p : Position) (gs hs : List Glyph) :
    p.advanceAll (gs ++ hs) = (p.advanceAll gs).advanceAll hs :=
  List.foldl_append

theorem advanceAll_cons (p : Position) (g : Glyph) (gs : List Glyph) :
    p.advanceAll (g :: gs) = (p.advance g).advanceAll gs := rfl

theorem advanceAll_of_not_mem {gs : List Glyph} (h : Glyph.char '\n' ∉ gs) (p : Position) :
    p.advanceAll gs = p.right gs.length := by
  induction gs generalizing p with
  | nil => rfl
  | cons g gs ih =>
    have hg : g ≠ .char '\n' := fun hg => h (hg ▸ List.mem_cons_self)
    rw [advanceAll_cons, ih fun hgs => h (List.mem_cons_of_mem _ hgs), advance, if_neg hg]
    simp only [right, List.length_cons]
    rw [Nat.add_assoc, Nat.add_comm 1]

end Position

/-- Without a line end among the bytes there is none among the glyphs. -/
theorem newline_not_mem_glyphs {b : Bytes} (h : 10 ∉ b) : Glyph.char '\n' ∉ b.glyphs := by
  intro hg
  refine h ?_
  rw [← flatMap_bytes_glyphs b]
  exact List.mem_flatMap.2 ⟨_, hg, List.mem_cons_self⟩

/-- The line at the end of a text is that of its start and as many more as there are line ends;
the column is counted from the start of the last line. -/
theorem add_eq_count (p : Position) (b : Bytes) :
    p.add b = ⟨p.file, p.line + b.count 10,
      (if 10 ∈ b then 1 else p.col) + b.lastLine.glyphs.length⟩ := by
  induction hn : b.length using Nat.strongRecOn generalizing p b with
  | ind n ih =>
    by_cases h : 10 ∈ b
    · obtain ⟨a, l, rfl, ha⟩ := List.eq_append_cons_of_mem h
      have hlen : l.length < n := by
        simp only [List.length_append, List.length_cons] at hn
        omega
      have hstep : p.add (a ++ 10 :: l) = Position.add ⟨p.file, p.line + 1, 1⟩ l := by
        rw [Position.add, glyphs_append_newline, Position.advanceAll_append,
          Position.advanceAll_of_not_mem (newline_not_mem_glyphs ha), Position.advanceAll_cons]
        rfl
      rw [hstep, ih _ hlen _ l rfl, lastLine_append_newline, if_pos h]
      simp only [ite_self, List.count_append, List.count_cons_self, List.count_eq_zero_of_not_mem ha]
      congr 1
      omega
    · rw [Position.add, Position.advanceAll_of_not_mem (newline_not_mem_glyphs h), if_neg h,
        lastLine_of_not_mem h, List.count_eq_zero_of_not_mem h]
      rfl

end Stencil
