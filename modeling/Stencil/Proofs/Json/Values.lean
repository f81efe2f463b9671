import Mathlib
import Stencil.Library.Module
import Stencil.Host.Basic
import Stencil.Proofs.Json.Reading
import Stencil.Proofs.Literal.Evaluation
import Stencil.Proofs.Machine.Exits
import Stencil.Proofs.Machine.Twin
import Stencil.Proofs.Text.Pieces

/-!
# Values and JSON text

`decode_accepts`: a text is decoded if the grammar has it as JSON text, and the result of decoding
shows the tree that the text stands for, whose closing brackets may lack at the end where the decoder
lets them. `decode_encode`: values are encoded if they nest at most 100 deep, and the text of a value
is decoded to one that shows the same tree.

`JsonValue.Shows` tells which value of the heap shows which tree; `Part` tells what a value consists
of, which need not be a tree: lists and objects may be shared or contain themselves.
-/

namespace Stencil

open Json

/-! ### The tree of a value -/

mutual

/-- The value is the tree, its lists and objects those of the heap. -/
inductive JsonValue.Shows (s : Heap) : JsonValue → Value → Prop where
  | null : Shows s .null .null
  | bool (b) : Shows s (.bool b) (.bool b)
  | int (n) : Shows s (.int n) (.int n)
  | float (x) : Shows s (.float x) (.float x)
  | string (b) : Shows s (.string b) (.string b)
  | array {js id} : id < s.lists.size → JsonValue.ShowItems s js (s.list id).toList →
      Shows s (.array js) (.list id)
  | object {ms id} : id < s.objects.size → JsonValue.ShowFields s ms (s.object id) →
      Shows s (.object ms) (.object id)

/-- The values are the trees, one by one. -/
inductive JsonValue.ShowItems (s : Heap) : List JsonValue → List Value → Prop where
  | nil : ShowItems s [] []
  | cons {j v js vs} : JsonValue.Shows s j v → ShowItems s js vs → ShowItems s (j :: js) (v :: vs)

/-- The fields are the members, one by one. -/
inductive JsonValue.ShowFields (s : Heap) :
    List (Bytes × JsonValue) → List (Bytes × Value) → Prop where
  | nil : ShowFields s [] []
  | cons {name j v ms fs} : JsonValue.Shows s j v → ShowFields s ms fs →
      ShowFields s ((name, j) :: ms) ((name, v) :: fs)

end

/-- The lists and objects of a heap are those of another, which may have more. -/
structure Heap.Grows (s t : Heap) : Prop extends s.Extends t where
  objects : s.objects.size ≤ t.objects.size
  object : ∀ id < s.objects.size, t.object id = s.object id

namespace Heap.Grows

variable {s t u : Heap}

theorem refl (s : Heap) : s.Grows s := ⟨.refl s, le_rfl, fun _ _ => rfl⟩

theorem trans (h : s.Grows t) (h' : t.Grows u) : s.Grows u :=
  ⟨h.toExtends.trans h'.toExtends, h.objects.trans h'.objects, fun id hid =>
    (h'.object id (hid.trans_le h.objects)).trans (h.object id hid)⟩

theorem push_list (s : Heap) (items : Array Value) :
    s.Grows { s with lists := s.lists.push items } :=
  ⟨.push s items, le_rfl, fun _ _ => rfl⟩

theorem push_object (s : Heap) (fields : List (Bytes × Value)) :
    s.Grows { s with objects := s.objects.push fields } := by
  refine ⟨⟨le_rfl, fun _ _ => rfl⟩, by simp, fun id hid => ?_⟩
  simp [Heap.object, Array.getD_eq_getD_getElem?, Array.getElem?_push, Nat.ne_of_lt hid]

end Heap.Grows

namespace JsonValue

mutual

theorem Shows.mono {s t : Heap} {j : JsonValue} {v : Value} (h : j.Shows s v) (ht : s.Grows t) :
    j.Shows t v := by
  cases h with
  | null => exact .null
  | bool b => exact .bool b
  | int n => exact .int n
  | float x => exact .float x
  | string b => exact .string b
  | @array js id hid h => exact .array (hid.trans_le ht.size) (ht.list id hid ▸ h.mono ht)
  | @object ms id hid h => exact .object (hid.trans_le ht.objects) (ht.object id hid ▸ h.mono ht)

theorem ShowItems.mono {s t : Heap} {js : List JsonValue} {vs : List Value}
    (h : ShowItems s js vs) (ht : s.Grows t) : ShowItems t js vs := by
  cases h with
  | nil => exact .nil
  | cons hj hjs => exact .cons (hj.mono ht) (hjs.mono ht)

theorem ShowFields.mono {s t : Heap} {ms : List (Bytes × JsonValue)} {fs : List (Bytes × Value)}
    (h : ShowFields s ms fs) (ht : s.Grows t) : ShowFields t ms fs := by
  cases h with
  | nil => exact .nil
  | cons hm hms => exact .cons (hm.mono ht) (hms.mono ht)

end

theorem ShowFields.map_fst {s : Heap} {ks : List (Bytes × JsonValue)} {fs : List (Bytes × Value)}
    (h : ShowFields s ks fs) : ks.map Prod.fst = fs.map Prod.fst := by
  induction fs generalizing ks with
  | nil =>
    cases h
    rfl
  | cons f fs ih =>
    cases h with
    | cons _ hrest => rw [List.map_cons, List.map_cons, ih hrest]

/-! ### From trees to values -/

mutual

/-- A tree is always made a value, of new lists and objects. -/
theorem toValue_run (call : Callback) (j : JsonValue) (t : Store) :
    ∃ v u, j.toValue.run call t = .ok v u ∧ j.Shows u.toHeap v ∧ t.toHeap.Grows u.toHeap := by
  cases j with
  | null => exact ⟨.null, t, rfl, .null, .refl _⟩
  | bool b => exact ⟨.bool b, t, rfl, .bool b, .refl _⟩
  | int n => exact ⟨.int n, t, rfl, .int n, .refl _⟩
  | float x => exact ⟨.float x, t, rfl, .float x, .refl _⟩
  | string b => exact ⟨.string b, t, rfl, .string b, .refl _⟩
  | array js =>
    obtain ⟨vs, u, hrun, hshow, hgrows⟩ := valuesOf_run call js t
    have hpush := Heap.Grows.push_list u.toHeap vs.toArray
    refine ⟨.list u.lists.size, { u with lists := u.lists.push vs.toArray }, ?_, ?_,
      hgrows.trans hpush⟩
    · rw [toValue, run_bind_ok hrun]
      rfl
    · refine .array (by simp) ?_
      rw [show Heap.list _ u.lists.size = vs.toArray by simp [Heap.list]]
      exact hshow.mono hpush
  | object ms =>
    obtain ⟨fs, u, hrun, hshow, hgrows⟩ := fieldsOf_run call ms t
    have hpush := Heap.Grows.push_object u.toHeap fs
    refine ⟨.object u.objects.size, { u with objects := u.objects.push fs }, ?_, ?_,
      hgrows.trans hpush⟩
    · rw [toValue, run_bind_ok hrun]
      rfl
    · refine .object (by simp) ?_
      rw [show Heap.object _ u.objects.size = fs by simp [Heap.object]]
      exact hshow.mono hpush

theorem valuesOf_run (call : Callback) (js : List JsonValue) (t : Store) :
    ∃ vs u, (valuesOf js).run call t = .ok vs u ∧ ShowItems u.toHeap js vs ∧
      t.toHeap.Grows u.toHeap := by
  cases js with
  | nil => exact ⟨[], t, rfl, .nil, .refl _⟩
  | cons j js =>
    obtain ⟨v, u, hrun, hshow, hgrows⟩ := toValue_run call j t
    obtain ⟨vs, u', hrun', hshow', hgrows'⟩ := valuesOf_run call js u
    refine ⟨v :: vs, u', ?_, .cons (hshow.mono hgrows') hshow', hgrows.trans hgrows'⟩
    rw [valuesOf, run_bind_ok hrun, run_bind_ok hrun']
    rfl

theorem fieldsOf_run (call : Callback) (ms : List (Bytes × JsonValue)) (t : Store) :
    ∃ fs u, (fieldsOf ms).run call t = .ok fs u ∧ ShowFields u.toHeap ms fs ∧
      t.toHeap.Grows u.toHeap := by
  cases ms with
  | nil => exact ⟨[], t, rfl, .nil, .refl _⟩
  | cons m ms =>
    obtain ⟨name, j⟩ := m
    obtain ⟨v, u, hrun, hshow, hgrows⟩ := toValue_run call j t
    obtain ⟨fs, u', hrun', hshow', hgrows'⟩ := fieldsOf_run call ms u
    refine ⟨(name, v) :: fs, u', ?_, .cons (hshow.mono hgrows') hshow', hgrows.trans hgrows'⟩
    rw [fieldsOf, run_bind_ok hrun, run_bind_ok hrun']
    rfl

end

end JsonValue

/-! ### Decoding -/

/-- Decoding a text takes the text alone, and reads it. -/
theorem decode_run [Application] (fuel ctx : Nat) (recv : Value) (b : Bytes) (call : Callback)
    (t : Store) : (Native.run fuel ctx (.json .decode) recv [.string b]).run call t =
      (match parse Host.endsOpen b with
        | .ok j => j.toValue
        | .error e => Job.error ((Native.json .decode).name ++ ": " ++ e.message) :
          Job Value).run call t := rfl

/-- A byte string that is UTF-8. -/
def Bytes.IsUtf8 (b : Bytes) : Prop := ∃ cs, b = Bytes.ofChars cs

-- An open bracket, and a bracket that is closed by one of the other kind.
example : parse false [code '['] = .error .unfinished := rfl

example : parse true [code '[', code '\x7d'] = .error .trailing := rfl

/-! ### Words that are written -/

theorem takeDigits?_succ {k acc n : Nat} {ds rest : List Char}
    (h : takeDigits? 16 (k + 1) acc ds = some (n, rest)) :
    ∃ c cs d, ds = c :: cs ∧ hexValue? c = some d ∧
      takeDigits? 16 k (16 * acc + d) cs = some (n, rest) := by
  cases ds with
  | nil => cases h
  | cons c cs =>
    rw [takeDigits?] at h
    split at h
    · rename_i d hd
      split at h
      · exact ⟨c, cs, d, rfl, hd, h⟩
      · cases h
    · cases h

/-- Four digits are written for a code. -/
theorem isCode_hexChars {n : Nat} (h : n < 0x10000) : IsCode (hexChars 4 n) n := by
  have hread := takeDigits?_hexChars (by decide : 0 < 4) h []
  rw [List.append_nil] at hread
  obtain ⟨a, cs, w, hds, hw, hread⟩ := takeDigits?_succ hread
  obtain ⟨b, cs, x, rfl, hx, hread⟩ := takeDigits?_succ hread
  obtain ⟨c, cs, y, rfl, hy, hread⟩ := takeDigits?_succ hread
  obtain ⟨d, cs, z, rfl, hz, hread⟩ := takeDigits?_succ hread
  obtain ⟨rfl, rfl⟩ := Prod.mk.inj (Option.some.inj hread)
  rw [hds]
  simpa using IsCode.mk hw hx hy hz

/-- A character is written as a piece of a string that stands for it. -/
theorem quoteGlyph_piece (c : Char) (hs : List Glyph) :
    ∃ ds, Json.quoteGlyph isPageSpecial (.char c) = Bytes.ofChars ds ∧
      IsPiece (ds.map .char) c hs := by
  have hback {n : Nat} (h : c.toNat = n) : c = Char.ofNat n := by rw [← h, Char.ofNat_toNat]
  have letter {l : Char} {n : Nat} (h : c.toNat = n) (hl : (l, Char.ofNat n) ∈ escapes) :
      ∃ ds, ([92, code l] : Bytes) = Bytes.ofChars ds ∧ IsPiece (ds.map .char) c hs := by
    refine ⟨['\\', l], ?_, hback h ▸ .letter hl⟩
    simp [Bytes.ofChars, (isAscii_of_escapes _ hl).1.ofChar]
    rfl
  unfold Json.quoteGlyph
  dsimp only [Glyph.toChar]
  split
  · rename_i l hl
    split at hl
    all_goals cases hl
    all_goals exact letter ‹_› (by decide)
  · rename_i hl
    split
    · rename_i hspecial
      have hlow : c.toNat < 0xD800 := by
        simp only [isPageSpecial, Bool.or_eq_true, decide_eq_true_eq] at hspecial
        obtain h | (((rfl | rfl) | rfl) | h) | h := hspecial
        · omega
        · decide
        · decide
        · decide
        · omega
        · omega
      refine ⟨'\\' :: 'u' :: hexChars 4 c.toNat, ?_, ?_⟩
      · rw [hexNat_eq_ofChars, ofString_eq_ofChars, ← ofChars_append]
        rfl
      · have hpiece : IsPiece (escape (hexChars 4 c.toNat)) (Char.ofNat c.toNat) hs :=
          .code (isCode_hexChars (by omega)) (by rw [IsHigh]; omega) (by rw [IsLow]; omega)
        rwa [Char.ofNat_toNat] at hpiece
    · rename_i hplain
      refine ⟨[c], by simp [Bytes.ofChars], .plain ?_ ?_ ?_⟩
      · simp only [Bool.or_eq_true, decide_eq_true_eq, not_or] at hplain
        omega
      · rintro rfl
        cases hl
      · rintro rfl
        cases hl

theorem quoteString_isString (cs : List Char) :
    ∃ ds, Interchange.string (Bytes.ofChars cs) = Bytes.ofChars ds ∧
      IsString (ds.map .char) cs := by
  have inside : ∃ ds, (cs.map Glyph.char).flatMap (Json.quoteGlyph isPageSpecial) =
      Bytes.ofChars ds ∧ IsInside (ds.map .char) cs := by
    induction cs with
    | nil => exact ⟨[], rfl, .nil⟩
    | cons c cs ih =>
      obtain ⟨ds, hds, hinside⟩ := ih
      obtain ⟨es, hes, hpiece⟩ := quoteGlyph_piece c (ds.map .char)
      refine ⟨es ++ ds, ?_, ?_⟩
      · rw [List.map_cons, List.flatMap_cons, hes, hds, ofChars_append]
      · rw [List.map_append]
        exact .cons hpiece hinside
  obtain ⟨ds, hds, hinside⟩ := inside
  refine ⟨'"' :: ds ++ ['"'], ?_, ?_⟩
  · rw [Interchange.string, quoteString, glyphs_ofChars, hds, ofChars_append]
    rfl
  · rw [List.map_append]
    exact .mk hinside

theorem head?_toDigits {n : Nat} (h : 0 < n) : (Nat.toDigits 10 n).head? ≠ some '0' := by
  induction n using Nat.strong_induction_on with
  | _ n ih =>
    by_cases hn : n < 10
    · rw [Nat.toDigits_of_lt_base hn]
      interval_cases n <;> decide
    · have hfirst := ih (n / 10) (by omega) (by omega)
      rw [Nat.toDigits_of_base_le (by decide) (by omega)]
      rwa [List.head?_append_of_ne_nil _ Nat.toDigits_ne_nil]

/-- An int is written as a number that denotes it. -/
theorem ofInt_number (n : Int64) : ∃ m : Numeral, Bytes.ofInt n.toInt = Bytes.ofChars m.chars ∧
    m.IsProper ∧ m.Denotes (.int n) := by
  refine ⟨⟨decide (n.toInt < 0), Nat.toDigits 10 n.toInt.natAbs, [], []⟩, ?_,
    ⟨?_, .none, .none⟩, ?_⟩
  · unfold Bytes.ofInt Numeral.chars Numeral.sign
    by_cases h : n.toInt < 0
    · simp only [h, decide_true, if_true, ofChars_append, ofString_eq_ofChars, ofNat_eq_ofChars]
      simp [Bytes.ofChars]
    · simp only [h, decide_false, if_false, ofNat_eq_ofChars]
      simp
  · by_cases h : n.toInt.natAbs = 0
    · rw [h]
      exact .zero
    · exact .digits (isDigits_toDigits _) (head?_toDigits (Nat.pos_of_ne_zero h))
  · have hint : Numeral.integer ⟨decide (n.toInt < 0), Nat.toDigits 10 n.toInt.natAbs, [], []⟩ =
        n.toInt := by
      unfold Numeral.integer
      rw [digitsValue_toDigits]
      by_cases h : n.toInt < 0
      · simp only [h, decide_true, if_true]
        omega
      · simp only [h, decide_false, Bool.false_eq_true, if_false]
        omega
    have hfits : Decimal.fitsInt64 n.toInt = true := by
      have hle := n.toInt_lt
      have hge := n.le_toInt
      have hpow : Nat.pow 2 63 = 2 ^ 63 := rfl
      simp only [Decimal.fitsInt64, Decimal.minInt64, Decimal.maxInt64, hpow, Bool.and_eq_true,
        decide_eq_true_iff]
      constructor <;> omega
    have hdenotes := Numeral.Denotes.int ⟨rfl, rfl, hint.symm ▸ hfits⟩
    rwa [hint, Int64.ofInt_toInt] at hdenotes

/-! ### Values that are written -/

/-- The text is written for the tree, with at most `n` arrays and objects around each other. -/
def Written (n : Nat) (b : Bytes) (j : JsonValue) : Prop :=
  ∃ cs, b = Bytes.ofChars cs ∧ IsValue n (cs.map .char) j

theorem ofString_enclose (l r : String) (cs : List Char) :
    Bytes.ofString l ++ Bytes.ofChars cs ++ Bytes.ofString r =
      Bytes.ofChars (l.toList ++ cs ++ r.toList) := by
  rw [ofString_eq_ofChars l, ofString_eq_ofChars r, ofChars_append, ofChars_append]

theorem join_elements {n : Nat} {bs : List Bytes} {js : List JsonValue}
    (h : List.Forall₂ (Written n) bs js) (hne : bs ≠ []) :
    ∃ cs, Bytes.join "," bs = Bytes.ofChars cs ∧ IsElements n (cs.map .char) js := by
  induction h with
  | nil => exact absurd rfl hne
  | @cons b j bs js hb hbs ih =>
    obtain ⟨cs, rfl, hcs⟩ := hb
    cases hbs with
    | nil =>
      refine ⟨cs, by simp [Bytes.join], ?_⟩
      simpa using IsElements.one .nil hcs .nil
    | @cons b' j' bs js hb' hbs' =>
      obtain ⟨ds, hds, hmore⟩ := ih (List.cons_ne_nil _ _)
      refine ⟨cs ++ ',' :: ds, ?_, ?_⟩
      · rw [join_cons_cons, hds, ofString_eq_ofChars, ← ofChars_append, ← ofChars_append,
          List.append_assoc]
        rfl
      · simpa using IsElements.more .nil hcs .nil hmore

/-- Elements are written as an array. -/
theorem array_written {n : Nat} {bs : List Bytes} {js : List JsonValue}
    (h : List.Forall₂ (Written n) bs js) : Written (n + 1) (Interchange.array bs) (.array js) := by
  cases h with
  | nil => exact ⟨['[', ']'], ofString_enclose "[" "]" [], .emptyArray .nil⟩
  | cons hb hbs =>
    obtain ⟨cs, hcs, helements⟩ := join_elements (.cons hb hbs) (List.cons_ne_nil _ _)
    refine ⟨'[' :: cs ++ [']'], ?_, ?_⟩
    · rw [Interchange.array, hcs]
      exact ofString_enclose "[" "]" cs
    · rw [List.map_append]
      exact .array helements

/-- The text of a member is written for it. -/
def WrittenMember (n : Nat) (m : Bytes × Bytes) (k : Bytes × JsonValue) : Prop :=
  m.1 = k.1 ∧ k.1.IsUtf8 ∧ Written n m.2 k.2

/-- How a member is written. -/
def memberText (m : Bytes × Bytes) : Bytes :=
  Interchange.string m.1 ++ Bytes.ofString ":" ++ m.2

theorem member_written {n : Nat} {m : Bytes × Bytes} {k : Bytes × JsonValue}
    (h : WrittenMember n m k) :
    ∃ cs, memberText m = Bytes.ofChars cs ∧ IsMember n (cs.map .char) k := by
  obtain ⟨name, b⟩ := m
  obtain ⟨name', j⟩ := k
  obtain ⟨rfl, ⟨cs, rfl⟩, ds, rfl, hds⟩ := h
  obtain ⟨es, hes, hstring⟩ := quoteString_isString cs
  refine ⟨es ++ ':' :: ds, ?_, ?_⟩
  · rw [memberText, hes, ofString_eq_ofChars, ← ofChars_append, ← ofChars_append,
      List.append_assoc]
    rfl
  · simpa using IsMember.mk .nil hstring .nil .nil hds .nil

theorem join_members {n : Nat} {ms : List (Bytes × Bytes)} {ks : List (Bytes × JsonValue)}
    (h : List.Forall₂ (WrittenMember n) ms ks) (hne : ms ≠ []) :
    ∃ cs, Bytes.join "," (ms.map memberText) = Bytes.ofChars cs ∧
      IsMembers n (cs.map .char) ks := by
  induction h with
  | nil => exact absurd rfl hne
  | @cons m k ms ks hm hms ih =>
    obtain ⟨cs, hcs, hmember⟩ := member_written hm
    cases hms with
    | nil => exact ⟨cs, by simp [Bytes.join, hcs], .one hmember⟩
    | @cons m' k' ms ks hm' hms' =>
      obtain ⟨ds, hds, hmore⟩ := ih (List.cons_ne_nil _ _)
      refine ⟨cs ++ ',' :: ds, ?_, ?_⟩
      · rw [List.map_cons, List.map_cons, join_cons_cons, hcs, ← List.map_cons, hds,
          ofString_eq_ofChars, ← ofChars_append, ← ofChars_append, List.append_assoc]
        rfl
      · rw [List.map_append]
        exact .more hmember hmore

theorem setMember_append {name : Bytes} {ms : List (Bytes × JsonValue)}
    (h : name ∉ ms.map Prod.fst) (v : JsonValue) :
    Json.setMember name v ms = ms ++ [(name, v)] := by
  induction ms with
  | nil => rfl
  | cons m ms ih =>
    obtain ⟨hne, hmem⟩ : name ≠ m.1 ∧ name ∉ ms.map Prod.fst := by simpa using h
    rw [Json.setMember, if_neg (Ne.symm hne), ih hmem]
    rfl

/-- Members with different names all count. -/
theorem effective_of_nodup {ms : List (Bytes × JsonValue)} (h : (ms.map Prod.fst).Nodup) :
    effective ms = ms := by
  have fold (old : List (Bytes × JsonValue)) (hall : ((old ++ ms).map Prod.fst).Nodup) :
      ms.foldl (fun ms m => Json.setMember m.1 m.2 ms) old = old ++ ms := by
    clear h
    induction ms generalizing old with
    | nil => exact (List.append_nil old).symm
    | cons m ms ih =>
      have hnot : m.1 ∉ old.map Prod.fst := by
        rw [List.map_append, List.map_cons] at hall
        exact fun hmem => (List.nodup_append.1 hall).2.2 _ hmem _ List.mem_cons_self rfl
      rw [List.foldl_cons, setMember_append hnot, ih _ (by simpa using hall)]
      simp
  exact fold [] h

/-- Members with different names are written as an object. -/
theorem object_written {n : Nat} {ms : List (Bytes × Bytes)} {ks : List (Bytes × JsonValue)}
    (h : List.Forall₂ (WrittenMember n) ms ks) (hnodup : (ks.map Prod.fst).Nodup) :
    Written (n + 1) (Interchange.object ms) (.object ks) := by
  have htext : Interchange.object ms =
      Bytes.ofString "\x7b" ++ Bytes.join "," (ms.map memberText) ++ "\x7d" := rfl
  rw [← effective_of_nodup hnodup, htext]
  cases h with
  | nil => exact ⟨['\x7b', '\x7d'], ofString_enclose "\x7b" "\x7d" [], .emptyObject .nil⟩
  | cons hm hms =>
    obtain ⟨cs, hcs, hmembers⟩ := join_members (.cons hm hms) (List.cons_ne_nil _ _)
    refine ⟨'\x7b' :: cs ++ ['\x7d'], ?_, ?_⟩
    · rw [hcs]
      exact ofString_enclose "\x7b" "\x7d" cs
    · rw [List.map_append]
      exact .object hmembers

/-! ### Encoding -/

/-- `Part s n v w`: the value `w` is in `v`, with `n` lists and objects around it. -/
inductive Part (s : Heap) : Nat → Value → Value → Prop where
  | self {v} : Part s 0 v v
  | item {n id v w} : v ∈ (s.list id).toList → Part s n v w → Part s (n + 1) (.list id) w
  | field {n id name v w} : (name, v) ∈ s.object id → Part s n v w → Part s (n + 1) (.object id) w

/-- A value that JSON text has a form for and gives back: null, a truth value, an int, a string that
is UTF-8, a list, or an object whose fields have different names that are UTF-8. -/
inductive Value.IsJson (s : Heap) : Value → Prop where
  | null : IsJson s .null
  | bool (b) : IsJson s (.bool b)
  | int (n) : IsJson s (.int n)
  | string {b} : b.IsUtf8 → IsJson s (.string b)
  | list {id} : id < s.lists.size → IsJson s (.list id)
  | object {id} : id < s.objects.size → ((s.object id).map Prod.fst).Nodup →
      (∀ f ∈ s.object id, f.1.IsUtf8) → IsJson s (.object id)

theorem exists_of_mapM {ε α β : Type} {f : α → Except ε β} {l : List α} {bs : List β}
    (h : l.mapM f = .ok bs) {a : α} (ha : a ∈ l) : ∃ b, f a = .ok b := by
  induction l generalizing bs with
  | nil => cases ha
  | cons x l ih =>
    rw [List.mapM_cons] at h
    obtain ⟨b, hb, h⟩ := bind_eq_ok.1 h
    obtain ⟨bs', hbs', -⟩ := bind_eq_ok.1 h
    obtain rfl | ha := List.mem_cons.1 ha
    · exact ⟨b, hb⟩
    · exact ih hbs' ha

theorem exists_of_map {ε α β : Type} {f : α → β} {e : Except ε α} {b : β}
    (h : e.map f = .ok b) : ∃ a, e = .ok a := by
  cases e with
  | error x => cases h
  | ok a => exact ⟨a, rfl⟩

section encoding

variable [Host] {s : Heap} {fuel room n : Nat}

theorem encodeJson_list (id : Nat) : encodeJson s fuel (room + 1) (.list id) =
    ((s.list id).toList.mapM (encodeJson s fuel room)).map Interchange.array := by
  have hitems : (List.range (s.list id).size).map (fun i => (Value.list id).item s i) =
      (s.list id).toList := by
    apply List.ext_getElem
    · simp
    · intro i hi hi'
      have hlt : i < (s.list id).size := by simpa using hi'
      simp [Value.item, hlt]
  rw [← hitems, List.mapM_map, encodeJson.eq_def]
  rfl

theorem encodeJson_object (id : Nat) : encodeJson s fuel (room + 1) (.object id) =
    ((s.object id).mapM fun f => (encodeJson s fuel room f.2).map (f.1, ·)).map
      Interchange.object := by
  rw [encodeJson.eq_def]
  rfl

/-- The value is encoded in the room for `room` lists and objects, as text for its tree. The text
may stand in an array that has room for `k` more. -/
def Encoded (s : Heap) (fuel k room : Nat) (v : Value) : Prop :=
  ∃ b j, encodeJson s fuel room v = .ok b ∧ j.Shows s v ∧ Written (room + k) b j

variable {k : Nat}

theorem items_encoded {vs : List Value} (h : ∀ v ∈ vs, Encoded s fuel k room v) :
    ∃ bs js, vs.mapM (encodeJson s fuel room) = .ok bs ∧ JsonValue.ShowItems s js vs ∧
      List.Forall₂ (Written (room + k)) bs js := by
  induction vs with
  | nil => exact ⟨[], [], rfl, .nil, .nil⟩
  | cons v vs ih =>
    obtain ⟨b, j, hrun, hshow, hb⟩ := h v List.mem_cons_self
    obtain ⟨bs, js, hruns, hshows, hbs⟩ := ih fun w hw => h w (List.mem_cons_of_mem v hw)
    refine ⟨b :: bs, j :: js, ?_, .cons hshow hshows, .cons hb hbs⟩
    rw [List.mapM_cons, hrun, ok_bind, hruns]
    rfl

theorem fields_encoded {fs : List (Bytes × Value)} (hname : ∀ f ∈ fs, f.1.IsUtf8)
    (h : ∀ f ∈ fs, Encoded s fuel k room f.2) :
    ∃ ms ks, fs.mapM (fun f => (encodeJson s fuel room f.2).map (f.1, ·)) = .ok ms ∧
      JsonValue.ShowFields s ks fs ∧ List.Forall₂ (WrittenMember (room + k)) ms ks := by
  induction fs with
  | nil => exact ⟨[], [], rfl, .nil, .nil⟩
  | cons f fs ih =>
    obtain ⟨name, v⟩ := f
    obtain ⟨b, j, hrun, hshow, hb⟩ := h _ List.mem_cons_self
    obtain ⟨ms, ks, hruns, hshows, hms⟩ := ih (fun g hg => hname g (List.mem_cons_of_mem _ hg))
      fun g hg => h g (List.mem_cons_of_mem _ hg)
    refine ⟨(name, b) :: ms, (name, j) :: ks, ?_, .cons hshow hshows,
      .cons ⟨rfl, hname _ List.mem_cons_self, hb⟩ hms⟩
    rw [List.mapM_cons, hruns, show encodeJson s fuel room v = .ok b from hrun]
    rfl

/-- What nests no deeper than there is room is encoded. -/
theorem encoded_of_parts {v : Value} (h : ∀ n w, Part s n v w → w.IsJson s)
    (hroom : ∀ n w, Part s n v w → n < room) : Encoded s fuel k room v := by
  induction room generalizing v with
  | zero => exact absurd (hroom 0 v .self) (Nat.lt_irrefl 0)
  | succ room ih =>
    have parts {x : Value} (hx : ∀ n w, Part s n x w → Part s (n + 1) v w) :
        Encoded s fuel k room x :=
      ih (fun n w hw => h _ w (hx n w hw)) fun n w hw =>
        Nat.lt_of_succ_lt_succ (hroom _ w (hx n w hw))
    cases h 0 v .self with
    | null => exact ⟨_, .null, rfl, .null, _, ofString_eq_ofChars _, .null⟩
    | bool b =>
      refine ⟨_, .bool b, rfl, .bool b, (toString b).toList, ?_, .bool b⟩
      cases b <;> exact ofString_eq_ofChars _
    | int n =>
      obtain ⟨m, htext, hproper, hdenotes⟩ := ofInt_number n
      exact ⟨_, .int n, rfl, .int n, _, htext, .number hproper hdenotes⟩
    | string hb =>
      obtain ⟨cs, rfl⟩ := hb
      obtain ⟨ds, htext, hstring⟩ := quoteString_isString cs
      exact ⟨_, .string _, rfl, .string _, _, htext, .string hstring⟩
    | @list id hid =>
      have hitems : ∀ x ∈ (s.list id).toList, Encoded s fuel k room x := fun x hx =>
        parts fun n w hw => .item hx hw
      obtain ⟨bs, js, hruns, hshows, hbs⟩ := items_encoded hitems
      refine ⟨Interchange.array bs, .array js, ?_, .array hid hshows, ?_⟩
      · rw [encodeJson_list, hruns]
        rfl
      · rw [Nat.add_right_comm]
        exact array_written hbs
    | @object id hid hnodup hnames =>
      have hfields : ∀ f ∈ s.object id, Encoded s fuel k room f.2 := fun f hf =>
        parts fun n w hw => .field hf hw
      obtain ⟨ms, ks, hruns, hshows, hms⟩ := fields_encoded hnames hfields
      refine ⟨Interchange.object ms, .object ks, ?_, .object hid hshows, ?_⟩
      · rw [encodeJson_object, hruns]
        rfl
      · rw [Nat.add_right_comm]
        exact object_written hms (hshows.map_fst ▸ hnodup)

/-- What is encoded nests no deeper than there is room. -/
theorem lt_of_encodeJson {v w : Value} {b : Bytes} (h : encodeJson s fuel room v = .ok b)
    (hw : Part s n v w) : n < room := by
  induction room generalizing v b n with
  | zero => cases h
  | succ room ih =>
    cases hw with
    | self => exact Nat.succ_pos room
    | item hmem hw =>
      rw [encodeJson_list] at h
      obtain ⟨bs, hbs⟩ := exists_of_map h
      obtain ⟨b', hb'⟩ := exists_of_mapM hbs hmem
      exact Nat.succ_lt_succ (ih hb' hw)
    | field hmem hw =>
      rw [encodeJson_object] at h
      obtain ⟨ms, hms⟩ := exists_of_map h
      obtain ⟨m, hm⟩ := exists_of_mapM hms hmem
      obtain ⟨b', hb'⟩ := exists_of_map hm
      exact Nat.succ_lt_succ (ih hb' hw)

end encoding

/-- Encoding takes one value and leaves the store as it is. -/
theorem encode_run [Application] (fuel ctx : Nat) (recv v : Value) (call : Callback) (t : Store) :
    (Native.run fuel ctx (.json .encode) recv [v]).run call t =
      match encodeJson t fuel (maxJsonDepth + 1) v with
      | .ok b => .ok (.string b) t
      | .error e => .error (.plain ((Native.json .encode).name ++ ": " ++ e) false) t := by
  show (match encodeJson t fuel (maxJsonDepth + 1) v with
    | .ok b => (return .string b : Job Value)
    | .error e => Job.error ((Native.json .encode).name ++ ": " ++ e)).run call t = _
  split <;> rfl

/-- JSON text of a value gives the value back. -/
theorem decode_encode [Application] {t : Store} {v : Value}
    (h : ∀ n w, Part t n v w → w.IsJson t) (fuel ctx : Nat) (recv : Value) (call : Callback) :
    let encode := (Native.run fuel ctx (.json .encode) recv [v]).run call t
    ((∃ x u, encode = .ok x u) ↔ ∀ n w, Part t n v w → n ≤ 100) ∧
      ∀ x u, encode = .ok x u → u = t ∧
        ∃ w u' j, (Native.run fuel ctx (.json .decode) recv [x]).run call u = .ok w u' ∧
          t.toHeap.Grows u'.toHeap ∧ JsonValue.Shows u'.toHeap j v ∧ j.Shows u'.toHeap w := by
  intro encode
  have hencode : encode = _ := encode_run fuel ctx recv v call t
  have hdeep (hroom : ∀ n w, Part t n v w → n ≤ 100) :
      Encoded t fuel (maxDepth - 101) (maxJsonDepth + 1) v :=
    encoded_of_parts h fun n w hw => Nat.lt_succ_of_le (hroom n w hw)
  have hroom {b : Bytes} (hb : encodeJson t fuel (maxJsonDepth + 1) v = .ok b) :
      ∀ n w, Part t n v w → n ≤ 100 := fun n w hw => Nat.le_of_lt_succ (lt_of_encodeJson hb hw)
  refine ⟨⟨?_, fun hall => ?_⟩, ?_⟩
  · rintro ⟨x, u, hx⟩
    cases hb : encodeJson t fuel (maxJsonDepth + 1) v with
    | ok b => exact hroom hb
    | error e =>
      rw [hencode, hb] at hx
      cases hx
  · obtain ⟨b, j, hb, -⟩ := hdeep hall
    exact ⟨.string b, t, by rw [hencode, hb]⟩
  · intro x u hx
    cases hb : encodeJson t fuel (maxJsonDepth + 1) v with
    | error e =>
      rw [hencode, hb] at hx
      cases hx
    | ok b =>
      rw [hencode, hb] at hx
      cases hx
      obtain ⟨b', j, hb', hshow, cs, hcs, hvalue⟩ := hdeep (hroom hb)
      rw [hb] at hb'
      cases hb'
      have hparse : parse Host.endsOpen b = .ok j :=
        parse_of_isText (by
          rw [hcs, glyphs_ofChars]
          exact .of_value hvalue)
      obtain ⟨w, u', hrun, hshow', hgrows⟩ := j.toValue_run call t
      refine ⟨rfl, w, u', j, ?_, hgrows, hshow.mono hgrows, hshow'⟩
      rw [decode_run, hparse]
      exact hrun

/-- A list with an object in it: an empty list, a character that is escaped for pages and one of two
bytes come back as they were, the fields in their order. And a list that contains itself. -/
theorem decode_encode_nested :
    let t : Store :=
      { lists := #[#[.object 0, .int (-5)], #[], #[.list 2]],
        objects := #[[("b", .string "é<"), ("a", .list 1)]] }
    let call : Callback := fun _ _ _ => throw default
    let run := fun f v => (@Native.run standalone 0 0 (.json f) .null [v]).run call t
    let text : Bytes := "[\x7b\"b\":\"é\\u003c\",\"a\":[]\x7d,-5]"
    run .encode (.list 0) = .ok (.string text) t ∧
      (∃ w u j, run .decode (.string text) = .ok w u ∧
        JsonValue.Shows u.toHeap j (.list 0) ∧ j.Shows u.toHeap w) ∧
      ¬ ∃ x u, run .encode (.list 2) = .ok x u := by
  intro t call run text
  have htext : run .encode (.list 0) = .ok (.string text) t := by
    have hjson : @encodeJson standalone.toHost t 0 (maxJsonDepth + 1) (.list 0) = .ok text := by
      decide +kernel
    exact (@encode_run standalone 0 0 .null (.list 0) call t).trans (by rw [hjson])
  have hlist {id : Nat} (hid : id < 3) : (Value.list id).IsJson t := .list hid
  have hempty : ∀ n w, Part t n (.list 1) w → w.IsJson t := by
    intro n w hw
    cases hw with
    | self => exact hlist (by decide)
    | item hmem _ => cases hmem
  have hobject : ∀ n w, Part t n (.object 0) w → w.IsJson t := by
    intro n w hw
    cases hw with
    | self =>
      refine .object (by decide) (by decide +kernel) (List.forall_mem_cons.2 ⟨?_, ?_⟩)
      · exact ⟨_, ofString_eq_ofChars "b"⟩
      · exact List.forall_mem_singleton.2 ⟨_, ofString_eq_ofChars "a"⟩
    | field hmem hw =>
      obtain hf | hf := List.mem_cons.1 hmem
      · cases hf
        cases hw
        exact .string ⟨_, ofString_eq_ofChars "é<"⟩
      · cases List.mem_singleton.1 hf
        exact hempty _ _ hw
  have hnested : ∀ n w, Part t n (.list 0) w → w.IsJson t := by
    intro n w hw
    cases hw with
    | self => exact hlist (by decide)
    | item hmem hw =>
      obtain rfl | hmem := List.mem_cons.1 hmem
      · exact hobject _ _ hw
      · obtain rfl := List.mem_singleton.1 hmem
        cases hw
        exact .int _
  have hself : ∀ n w, Part t n (.list 2) w → w.IsJson t := by
    intro n
    induction n with
    | zero =>
      rintro w ⟨⟩
      exact hlist (by decide)
    | succ n ih =>
      intro w hw
      cases hw with
      | item hmem hw =>
        obtain rfl := List.mem_singleton.1 hmem
        exact ih w hw
  have hdeep (n : Nat) : Part t n (.list 2) (.list 2) := by
    induction n with
    | zero => exact .self
    | succ n ih => exact .item (List.mem_singleton_self _) ih
  obtain ⟨-, hback⟩ := @decode_encode standalone t (.list 0) hnested 0 0 .null call
  obtain ⟨-, w, u, j, hrun, -, hv, hw⟩ := hback _ _ htext
  obtain ⟨hiff, -⟩ := @decode_encode standalone t (.list 2) hself 0 0 .null call
  refine ⟨htext, ⟨w, u, j, hrun, hv, hw⟩, fun hok => ?_⟩
  exact absurd (hiff.1 hok 101 _ (hdeep 101)) (by decide)

end Stencil
