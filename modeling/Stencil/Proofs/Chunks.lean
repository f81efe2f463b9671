import Mathlib
import Stencil.Expect.Chunk
import Stencil.Proofs.Association
import Stencil.Proofs.Text.Pieces

/-!
# Chunks of a file

`readChunks_exact`: the chunks of a file are the file but for the separators, each line of a chunk
has the number that it has in the file, and a chunk is satisfied with the errors that occur if and
only if there is one for each of its lines that expects one, and this is the expected one.
-/

namespace Stencil

/-! ### Lines -/

/-- The line of a text with the given number; the first line has the number 1. -/
def lineAt (text : Bytes) : Nat → Option Bytes
  | 0 => none
  | k + 1 => (linesOf text)[k]?

theorem linesOf_eq (text : Bytes) : linesOf text = List.splitOn 10 text := by
  have newline : Bytes.ofString "\n" = [10] := by decide_cbv
  rw [linesOf, newline, splitOn_singleton]

theorem linesOf_append (x y : Bytes) : linesOf (x ++ 10 :: y) = linesOf x ++ linesOf y := by
  simp only [linesOf_eq, List.splitOn_append_cons_self]

/-- Newlines in front of a text are as many empty lines. -/
theorem linesOf_replicate (n : Nat) (text : Bytes) :
    linesOf (List.replicate n 10 ++ text) = List.replicate n [] ++ linesOf text := by
  induction n with
  | zero => rfl
  | succ n ih =>
    have h := linesOf_append [] (List.replicate n 10 ++ text)
    rw [List.nil_append] at h
    rw [List.replicate_succ, List.cons_append, h, ih, List.replicate_succ]
    simp [linesOf_eq]

theorem lineAt_of_linesOf {text : Bytes} {before ls after : List Bytes} {i : Nat}
    (h : linesOf text = before ++ ls ++ after) (hi : i < ls.length) :
    lineAt text (before.length + 1 + i) = some ls[i] := by
  rw [Nat.add_right_comm, lineAt, h, List.append_assoc,
    List.getElem?_append_right (Nat.le_add_right ..), Nat.add_sub_cancel_left,
    List.getElem?_append_left hi, List.getElem?_eq_getElem hi]

/-- The mark between two chunks. -/
theorem separator_eq : Bytes.ofString "\n" ++ "---" ++ "\n" = Bytes.ofString "\n---\n" :=
  by decide_cbv

theorem linesOf_join_cons (t t' : Bytes) (ts : List Bytes) :
    linesOf (Bytes.join "\n---\n" (t :: t' :: ts)) =
      linesOf t ++ Bytes.ofString "---" :: linesOf (Bytes.join "\n---\n" (t' :: ts)) := by
  have bytes : Bytes.ofString "\n---\n" = 10 :: (Bytes.ofString "---" ++ [10]) := by decide_cbv
  have hyphens : linesOf "---" = [Bytes.ofString "---"] := by decide_cbv
  rw [join_cons_cons]
  generalize Bytes.join "\n---\n" (t' :: ts) = rest
  rw [bytes, List.append_assoc, List.cons_append, List.append_assoc, linesOf_append,
    List.singleton_append, linesOf_append, hyphens, List.singleton_append]

theorem map_snd_numberChunks (n : Nat) (ts : List Bytes) :
    (numberChunks n ts).map (·.2) = ts := by
  induction ts generalizing n with
  | nil => rfl
  | cons t ts ih => rw [numberChunks, List.map_cons, ih]

/-- Chunks are numbered by the lines before them. -/
theorem place_of_mem_numberChunks {n first : Nat} {text : Bytes} {ts : List Bytes}
    (h : (first, text) ∈ numberChunks n ts) : ∃ before after,
      linesOf (Bytes.join "\n---\n" ts) = before ++ linesOf text ++ after ∧
        first = before.length + n := by
  induction ts generalizing n with
  | nil => cases h
  | cons t ts ih =>
    rcases List.mem_cons.1 h with h | h
    · cases h
      cases ts with
      | nil => exact ⟨[], [], by simp [Bytes.join], by simp⟩
      | cons t' ts => exact ⟨[], _, linesOf_join_cons text t' ts, by simp⟩
    · cases ts with
      | nil => cases h
      | cons t' ts =>
        obtain ⟨before, after, hlines, rfl⟩ := ih h
        refine ⟨linesOf t ++ Bytes.ofString "---" :: before, after, ?_, ?_⟩
        · rw [linesOf_join_cons, hlines]
          simp only [List.append_assoc, List.cons_append]
        · simp only [List.length_append, List.length_cons]
          omega

/-! ### Expected errors -/

theorem mem_expectationsFrom {n k : Nat} {ls : List Bytes} {x : Except ChunkProblem ExpectedError} :
    (k, x) ∈ expectationsFrom n ls ↔
      ∃ i l, k = n + i ∧ ls[i]? = some l ∧ expectationIn? l = some x := by
  induction ls generalizing n with
  | nil => simp [expectationsFrom]
  | cons l ls ih =>
    have split : (∃ i l', k = n + i ∧ (l :: ls)[i]? = some l' ∧ expectationIn? l' = some x) ↔
        (k = n ∧ expectationIn? l = some x) ∨ (k, x) ∈ expectationsFrom (n + 1) ls := by
      rw [ih]
      constructor
      · rintro ⟨i, l', hk, hl, hx⟩
        cases i with
        | zero =>
          cases hl
          exact .inl ⟨hk, hx⟩
        | succ i => exact .inr ⟨i, l', by omega, hl, hx⟩
      · rintro (⟨hk, hx⟩ | ⟨i, l', hk, hl, hx⟩)
        · exact ⟨0, l, hk, rfl, hx⟩
        · exact ⟨i + 1, l', by omega, hl, hx⟩
    rw [split, expectationsFrom]
    cases hl : expectationIn? l with
    | none => simp
    | some e => simp [eq_comm]

/-- Each line expects at most one error. -/
theorem nodup_expectationsFrom {n : Nat} {ls : List Bytes} :
    ((expectationsFrom n ls).map (·.1)).Nodup := by
  induction ls generalizing n with
  | nil => exact List.nodup_nil
  | cons l ls ih =>
    rw [expectationsFrom]
    cases expectationIn? l with
    | none => exact ih
    | some e =>
      rw [List.map_cons, List.nodup_cons]
      refine ⟨fun hmem => ?_, ih⟩
      obtain ⟨⟨k, x⟩, hx, rfl⟩ := List.mem_map.1 hmem
      obtain ⟨i, -, hk, -⟩ := mem_expectationsFrom.1 hx
      simp only at hk
      omega

theorem Chunk.mem_expected_ofText {first : Nat} {text : Bytes} {line : Int} {e : ExpectedError} :
    (line, e) ∈ (ofText first text).expected ↔
      ∃ i l, line = Int.ofNat (first + i) ∧ (linesOf text)[i]? = some l ∧
        expectationIn? l = some (.ok e) := by
  rw [ofText, List.mem_filterMap]
  constructor
  · rintro ⟨⟨k, x⟩, hmem, hx⟩
    obtain ⟨i, l, rfl, hl, he⟩ := mem_expectationsFrom.1 hmem
    cases x with
    | error p => cases hx
    | ok e' =>
      cases hx
      exact ⟨i, l, rfl, hl, he⟩
  · rintro ⟨i, l, rfl, hl, he⟩
    exact ⟨(first + i, .ok e), mem_expectationsFrom.2 ⟨i, l, rfl, hl, he⟩, rfl⟩

theorem Chunk.nodup_expected_ofText {first : Nat} {text : Bytes} :
    ((ofText first text).expected.map (·.1)).Nodup := by
  have h : ((ofText first text).expected.map (·.1)).Sublist
      (((expectationsFrom first (linesOf text)).map (·.1)).map Int.ofNat) := by
    rw [ofText]
    generalize expectationsFrom first (linesOf text) = l
    induction l with
    | nil => exact .slnil
    | cons x l ih =>
      obtain ⟨k, x⟩ := x
      cases x with
      | error p => exact ih.cons _
      | ok e => exact ih.cons_cons _
  exact h.nodup (nodup_expectationsFrom.map fun _ _ => Int.ofNat.inj)

/-! ### Errors that occur -/

/-- The errors that occurred are those that are expected. -/
structure Settles (expects : Int → ExpectedError → Prop) (errors : List (Int × Bytes)) : Prop where
  once : (errors.map (·.1)).Nodup
  lines : ∀ line, line ∈ errors.map (·.1) ↔ ∃ e, expects line e
  accepted : ∀ line msg e, (line, msg) ∈ errors → expects line e → e.accepts msg

theorem settles_cons {expects : Int → ExpectedError → Prop} {errors : List (Int × Bytes)}
    {line : Int} {msg : Bytes} {e : ExpectedError} (he : expects line e)
    (hone : ∀ e', expects line e' → e' = e) :
    Settles expects ((line, msg) :: errors) ↔
      e.accepts msg ∧ Settles (fun l x => expects l x ∧ l ≠ line) errors := by
  constructor
  · rintro ⟨honce, hlines, haccepted⟩
    obtain ⟨hnew, honce⟩ := List.nodup_cons.1 honce
    refine ⟨haccepted line msg e List.mem_cons_self he, honce, fun l => ?_, ?_⟩
    · constructor
      · intro hl
        obtain ⟨x, hx⟩ := (hlines l).1 (List.mem_cons_of_mem _ hl)
        exact ⟨x, hx, fun heq => hnew (heq ▸ hl)⟩
      · rintro ⟨x, hx, hne⟩
        exact (List.mem_cons.1 ((hlines l).2 ⟨x, hx⟩)).resolve_left hne
    · intro l m x hl hx
      exact haccepted l m x (List.mem_cons_of_mem _ hl) hx.1
  · rintro ⟨hmsg, honce, hlines, haccepted⟩
    have hnew : line ∉ errors.map (·.1) := fun hmem => by
      obtain ⟨x, -, hne⟩ := (hlines line).1 hmem
      exact hne rfl
    refine ⟨List.nodup_cons.2 ⟨hnew, honce⟩, fun l => ?_, ?_⟩
    · rw [List.map_cons, List.mem_cons, hlines]
      constructor
      · rintro (rfl | ⟨x, hx, -⟩)
        · exact ⟨e, he⟩
        · exact ⟨x, hx⟩
      · rintro ⟨x, hx⟩
        by_cases hl : l = line
        · exact .inl hl
        · exact .inr ⟨x, hx, hl⟩
    · intro l m x hl hx
      rcases List.mem_cons.1 hl with hl | hl
      · cases hl
        rw [hone x hx]
        exact hmsg
      · exact haccepted l m x hl ⟨hx, fun heq => hnew (heq ▸ List.mem_map.2 ⟨_, hl, rfl⟩)⟩

namespace Chunk

theorem gotErrors_cons (c : Chunk) (line : Int) (msg : Bytes) (errors : List (Int × Bytes)) :
    (c.gotErrors ((line, msg) :: errors)).2 ++ (c.gotErrors ((line, msg) :: errors)).1.done =
      (c.gotError line msg).2 ++ (((c.gotError line msg).1.gotErrors errors).2 ++
        ((c.gotError line msg).1.gotErrors errors).1.done) := List.append_assoc ..

theorem gotErrors_settles (errors : List (Int × Bytes)) (c : Chunk)
    (hc : (c.expected.map (·.1)).Nodup) :
    (c.gotErrors errors).2 ++ (c.gotErrors errors).1.done = [] ↔
      Settles (fun line e => (line, e) ∈ c.expected) errors := by
  induction errors generalizing c with
  | nil =>
    rw [gotErrors, List.nil_append, done, List.map_eq_nil_iff]
    constructor
    · intro h
      rw [h]
      exact ⟨List.nodup_nil, by simp, nofun⟩
    · rintro ⟨-, hlines, -⟩
      refine List.eq_nil_iff_forall_not_mem.2 fun ⟨line, e⟩ hmem => ?_
      exact List.not_mem_nil ((hlines line).2 ⟨e, hmem⟩)
  | cons error errors ih =>
    obtain ⟨line, msg⟩ := error
    rw [gotErrors_cons, gotError]
    cases hl : c.expected.lookup line with
    | none =>
      refine iff_of_false (List.cons_ne_nil _ _) fun h => ?_
      obtain ⟨e, he⟩ := (h.lines line).1 List.mem_cons_self
      cases hl.symm.trans ((lookup_eq_some_iff_mem hc).2 he)
    | some e =>
      have he := (lookup_eq_some_iff_mem hc).1 hl
      have hone (e' : ExpectedError) (he' : (line, e') ∈ c.expected) : e' = e :=
        Option.some.inj (((lookup_eq_some_iff_mem hc).2 he').symm.trans hl)
      have hrest : ((c.expected.filter fun x => x.1 ≠ line).map (·.1)).Nodup :=
        hc.sublist (List.filter_sublist.map _)
      rw [settles_cons he hone, List.append_eq_nil_iff, ih _ hrest]
      simp only [List.mem_filter, decide_eq_true_eq]
      refine and_congr_left fun _ => ?_
      split <;> simp_all

end Chunk

/-! ### Reading -/

/-- The error expected by a line of a file, one of `count` lines from the line `first` on. -/
def Expects (data : Bytes) (first count : Nat) (line : Int) (e : ExpectedError) : Prop :=
  ∃ k l, line = Int.ofNat k ∧ first ≤ k ∧ k < first + count ∧ lineAt data k = some l ∧
    expectationIn? l = some (.ok e)

/-- The chunk is made of the text that starts with the line `first` of the file. -/
structure Chunk.Exact (data : Bytes) (first : Nat) (text : Bytes) (c : Chunk) : Prop where
  /-- The lines of the text are lines of the file. -/
  place : ∃ before after, linesOf data = before ++ linesOf text ++ after ∧
    first = before.length + 1
  /-- There is an empty line in front of the text for each line of the file before it. -/
  padded : c.source = List.replicate (first - 1) 10 ++ text
  /-- A line has the same number in the chunk and in the file. -/
  lines : ∀ k, first ≤ k → k < first + (linesOf text).length →
    ∃ l, lineAt c.source k = some l ∧ lineAt data k = some l
  /-- Nothing is reported if and only if the errors that occur are expected by its lines. -/
  settled : ∀ errors, (c.gotErrors errors).2 ++ (c.gotErrors errors).1.done = [] ↔
    Settles (Expects data first (linesOf text).length) errors

theorem Chunk.exact_ofText {data text : Bytes} {first : Nat} {before after : List Bytes}
    (hlines : linesOf data = before ++ linesOf text ++ after) (hfirst : first = before.length + 1) :
    (ofText first text).Exact data first text := by
  have hsource : (ofText first text).source = List.replicate before.length 10 ++ text := by
    rw [ofText, hfirst, Nat.add_sub_cancel]
  have hdata (i : Nat) (hi : i < (linesOf text).length) :
      lineAt data (first + i) = some (linesOf text)[i] := by
    rw [hfirst]
    exact lineAt_of_linesOf hlines hi
  have hpadded (i : Nat) (hi : i < (linesOf text).length) :
      lineAt (ofText first text).source (first + i) = some (linesOf text)[i] := by
    have h : linesOf (List.replicate before.length 10 ++ text) =
        List.replicate before.length [] ++ linesOf text ++ [] := by
      rw [linesOf_replicate, List.append_nil]
    rw [hsource, hfirst]
    simpa using lineAt_of_linesOf h hi
  constructor
  case place => exact ⟨before, after, hlines, hfirst⟩
  case padded => rfl
  case lines =>
    intro k hk hk'
    obtain ⟨i, rfl⟩ := Nat.exists_eq_add_of_le hk
    have hi : i < (linesOf text).length := Nat.lt_of_add_lt_add_left hk'
    exact ⟨_, hpadded i hi, hdata i hi⟩
  case settled =>
    intro errors
    have hexpects : (fun line e => (line, e) ∈ (ofText first text).expected) =
        Expects data first (linesOf text).length := by
      funext line e
      rw [eq_iff_iff, mem_expected_ofText]
      constructor
      · rintro ⟨i, l, rfl, hl, he⟩
        obtain ⟨hi, rfl⟩ := List.getElem?_eq_some_iff.1 hl
        exact ⟨first + i, _, rfl, Nat.le_add_right .., Nat.add_lt_add_left hi first,
          hdata i hi, he⟩
      · rintro ⟨k, l, rfl, hk, hk', hl, he⟩
        obtain ⟨i, rfl⟩ := Nat.exists_eq_add_of_le hk
        have hi : i < (linesOf text).length := Nat.lt_of_add_lt_add_left hk'
        refine ⟨i, l, rfl, ?_, he⟩
        rw [List.getElem?_eq_getElem hi, ← hdata i hi, hl]
    rw [gotErrors_settles errors _ nodup_expected_ofText, hexpects]

theorem readChunks_exact (data : Bytes) :
    Bytes.join "\n---\n" ((chunkTexts "\n" data).map (·.2)) = data ∧
    (∀ part ∈ chunkTexts "\n" data, ¬ Bytes.ofString "\n---\n" <:+: part.2) ∧
    List.Forall₂ (fun part c => c.Exact data part.1 part.2) (chunkTexts "\n" data)
      (readChunks "\n" data) := by
  have hmark : Bytes.ofString "\n---\n" ≠ [] := by decide_cbv
  have hjoin : Bytes.join "\n---\n" (data.splitOn "\n---\n") = data := join_splitOn hmark
  have htexts : (chunkTexts "\n" data).map (·.2) = data.splitOn "\n---\n" := by
    rw [chunkTexts, separator_eq, map_snd_numberChunks]
  refine ⟨by rw [htexts, hjoin], fun part hpart => ?_, ?_⟩
  · have hpiece : part.2 ∈ data.splitOn "\n---\n" := htexts ▸ List.mem_map_of_mem hpart
    exact not_infix_of_mem_splitOn hmark hpiece
  · rw [readChunks, List.forall₂_map_right_iff, List.forall₂_same]
    rintro ⟨first, text⟩ hpart
    rw [chunkTexts, separator_eq] at hpart
    obtain ⟨before, after, hlines, hfirst⟩ := place_of_mem_numberChunks hpart
    rw [hjoin] at hlines
    exact Chunk.exact_ofText hlines hfirst

example : (readChunks "\n" "a;\n---\nb;\nc;").map (·.source) = ["a;", "\n\nb;\nc;"] :=
  by decide_cbv

end Stencil
