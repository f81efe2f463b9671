import Stencil.Program.Session
import Stencil.Proofs.Syntax.Cut.Readers

/-!
# Entering a module line by line

The lines of a module that have been entered are refused only because they end too soon, so a
session reads on until they are complete, or until the last line. They may be complete before
that: what was entered so far can be a module of its own, all the more as its last semicolon may
be left out. The lines after it then make up the next entry, which need not be one.
-/

namespace Stencil

/-- Lines as they are entered. -/
def Bytes.ofLines (lines : List Bytes) : Bytes := lines.flatMap (· ++ [10])

theorem ofLines_cons (line : Bytes) (lines : List Bytes) :
    Bytes.ofLines (line :: lines) = line ++ 10 :: Bytes.ofLines lines := by
  simp [Bytes.ofLines]

theorem ofLines_append (ls ms : List Bytes) :
    Bytes.ofLines (ls ++ ms) = Bytes.ofLines ls ++ Bytes.ofLines ms :=
  List.flatMap_append

/-- Entered lines end with a line end. -/
theorem ofLines_take {lines : List Bytes} {k : Nat} (hk : k < lines.length) :
    ∃ pre, Bytes.ofLines (lines.take (k + 1)) = pre ++ [10] := by
  refine ⟨Bytes.ofLines (lines.take k) ++ lines[k], ?_⟩
  rw [List.take_succ_eq_append_getElem hk, ofLines_append]
  simp [Bytes.ofLines]

/-- An entry that ends too soon is complete with a semicolon, or goes on. -/
theorem parseEntry_cases {src : Bytes} (h : (∃ m, parseModule inputName src = .ok m) ∨
    ∃ e, parseModule inputName src = .error e ∧ e.atEnd = true) :
    (∃ m, parseEntry src = .ok m) ∨ ∃ e, parseEntry src = .error e ∧ e.atEnd = true := by
  unfold parseEntry
  obtain ⟨m, hm⟩ | ⟨e, he, hend⟩ := h
  · rw [hm]
    exact .inl ⟨m, rfl⟩
  · rw [he]
    dsimp only
    rw [if_pos hend]
    split
    · exact .inl ⟨_, rfl⟩
    · exact .inr ⟨e, rfl, hend⟩

section

variable {src line : Bytes} {rest : List Bytes} {continued : Nat}

theorem readEntry_complete {m : Module} (hline : line.trim.isEmpty = false)
    (h : parseEntry (src ++ line ++ [10]) = .ok m) :
    readEntry src continued (line :: rest) = ⟨.complete m, continued, rest⟩ := by
  rw [readEntry]
  dsimp only
  rw [hline, Bool.and_false, if_neg Bool.false_ne_true, h]

theorem readEntry_next {e : SyntaxError} (hline : line.trim.isEmpty = false)
    (h : parseEntry (src ++ line ++ [10]) = .error e) (he : e.atEnd = true) :
    readEntry src continued (line :: rest) =
      readEntry (src ++ line ++ [10]) (continued + 1) rest := by
  rw [readEntry]
  dsimp only
  rw [hline, Bool.and_false, if_neg Bool.false_ne_true, h]
  dsimp only
  rw [he, Bool.not_true, Bool.or_false, if_neg Bool.false_ne_true]

theorem readEntry_malformed {e : SyntaxError} (hline : line.trim.isEmpty = false)
    (h : parseEntry (src ++ line ++ [10]) = .error e) (he : e.atEnd = false) :
    readEntry src continued (line :: rest) = ⟨.malformed e, continued, rest⟩ := by
  rw [readEntry]
  dsimp only
  rw [hline, Bool.and_false, if_neg Bool.false_ne_true, h]
  dsimp only
  rw [he, Bool.not_false, Bool.true_or, if_pos rfl]

end

/-- How reading an entry comes out if it is not refused after any of the next lines: it is
complete after one of them, or goes on after them all. -/
theorem readEntry_lines (lines more : List Bytes) (src : Bytes) (continued : Nat)
    (hblank : ∀ line ∈ lines, line.trim.isEmpty = false)
    (hread : ∀ k < lines.length, (∃ m, parseEntry (src ++ .ofLines (lines.take (k + 1))) = .ok m) ∨
      ∃ e, parseEntry (src ++ .ofLines (lines.take (k + 1))) = .error e ∧ e.atEnd = true) :
    (∃ k m, k < lines.length ∧ parseEntry (src ++ .ofLines (lines.take (k + 1))) = .ok m ∧
      readEntry src continued (lines ++ more) =
        ⟨.complete m, continued + k, lines.drop (k + 1) ++ more⟩) ∨
      readEntry src continued (lines ++ more) =
        readEntry (src ++ .ofLines lines) (continued + lines.length) more := by
  induction lines generalizing src continued with
  | nil => exact .inr (by simp [Bytes.ofLines])
  | cons line lines ih =>
    have hline := hblank line List.mem_cons_self
    have htext (ls : List Bytes) : src ++ Bytes.ofLines (line :: ls) =
        src ++ line ++ [10] ++ Bytes.ofLines ls := by
      simp [ofLines_cons]
    have hfirst := hread 0 (Nat.succ_pos _)
    rw [List.take_succ_cons, List.take_zero, htext, Bytes.ofLines, List.flatMap_nil,
      List.append_nil] at hfirst
    obtain ⟨m, hm⟩ | ⟨e, he, hend⟩ := hfirst
    · refine .inl ⟨0, m, Nat.succ_pos _, ?_, readEntry_complete hline hm⟩
      rw [List.take_succ_cons, List.take_zero, htext, Bytes.ofLines, List.flatMap_nil,
        List.append_nil, hm]
    · rw [List.cons_append, readEntry_next hline he hend, htext]
      obtain ⟨k, m, hk, hm, hrun⟩ | hrun := ih (src ++ line ++ [10]) (continued + 1)
        (fun l hl => hblank l (List.mem_cons_of_mem _ hl)) fun k hk => by
          rw [← htext, ← List.take_succ_cons]
          exact hread (k + 1) (Nat.succ_lt_succ hk)
      · refine .inl ⟨k + 1, m, Nat.succ_lt_succ hk, ?_, ?_⟩
        · rw [List.take_succ_cons, htext, hm]
        · rw [hrun, List.drop_succ_cons]
          simp only [Nat.add_assoc, Nat.add_comm 1]
      · refine .inr ?_
        rw [hrun, List.length_cons]
        simp only [Nat.add_assoc, Nat.add_comm 1]

/-- **A module that is entered line by line** is not refused before its last line: of a text that
is read, every part up to a line end is read or ends too soon. So, unless a line is blank, what
has been entered is complete after some line, or the entry goes on with the last one. -/
theorem entered_lines {file src : Bytes} {m : Module} (h : parseModule file src = .ok m) :
    (∀ pre post, src = pre ++ 10 :: post →
      (∃ m', parseModule file (pre ++ [10]) = .ok m') ∨
        ∃ e, parseModule file (pre ++ [10]) = .error e ∧ e.atEnd = true) ∧
    (file = inputName → ∀ lines last more, src = .ofLines lines ++ last →
      (∀ line ∈ lines, line.trim.isEmpty = false) →
        (∃ k m', k < lines.length ∧ parseEntry (.ofLines (lines.take (k + 1))) = .ok m' ∧
          readEntry [] 0 (lines ++ more) = ⟨.complete m', k, lines.drop (k + 1) ++ more⟩) ∨
        readEntry [] 0 (lines ++ more) = readEntry (.ofLines lines) lines.length more) := by
  have hcut (pre post : Bytes) (hsrc : src = pre ++ 10 :: post) :
      (∃ m', parseModule file (pre ++ [10]) = .ok m') ∨
        ∃ e, parseModule file (pre ++ [10]) = .error e ∧ e.atEnd = true :=
    parseModule_line (hsrc ▸ h)
  refine ⟨hcut, ?_⟩
  rintro rfl lines last more rfl hblank
  have hlines := readEntry_lines lines more [] 0 hblank fun k hk => ?_
  · simpa only [List.nil_append, Nat.zero_add] using hlines
  · obtain ⟨pre, hpre⟩ := ofLines_take hk
    have hsplit : Bytes.ofLines lines =
        Bytes.ofLines (lines.take (k + 1)) ++ Bytes.ofLines (lines.drop (k + 1)) := by
      rw [← ofLines_append, List.take_append_drop]
    rw [List.nil_append, hpre]
    refine parseEntry_cases (hcut pre (Bytes.ofLines (lines.drop (k + 1)) ++ last) ?_)
    rw [hsplit, hpre]
    simp

section

variable {α : Type} {r : Except SyntaxError α}

theorem exists_ok (h : (r.map fun _ => ()).mapError (·.atEnd) = .ok ()) : ∃ a, r = .ok a := by
  cases r with
  | ok a => exact ⟨a, rfl⟩
  | error e => cases h

theorem exists_error {b : Bool} (h : (r.map fun _ => ()).mapError (·.atEnd) = .error b) :
    ∃ e, r = .error e ∧ e.atEnd = b := by
  cases r with
  | ok a => cases h
  | error e => exact ⟨e, rfl, Except.error.inj h⟩

end

/-- The word that starts an output statement is not an entry of its own. -/
example : (parseEntry (.ofLines ["out"])).toOption.isNone = true := by decide +kernel

/-- The two lines of an output statement: the first ends too soon, and the entry goes on. -/
theorem entered_lines_output :
    ∃ m, parseModule inputName (("out" : Bytes) ++ 10 :: "1;") = .ok m ∧
      (∃ e, parseModule inputName (("out" : Bytes) ++ [10]) = .error e ∧ e.atEnd = true) ∧
      readEntry [] 0 ["out", "1;"] = readEntry (.ofLines ["out"]) 1 ["1;"] := by
  obtain ⟨m, hm⟩ := exists_ok (r := parseModule inputName (("out" : Bytes) ++ 10 :: "1;"))
    (by decide +kernel)
  have hrefused : (parseModule inputName (("out" : Bytes) ++ [10])).toOption.isNone = true := by
    decide +kernel
  have hentry : (parseEntry (.ofLines ["out"])).toOption.isNone = true := by decide +kernel
  refine ⟨m, hm, ?_, ?_⟩
  · obtain ⟨m', hm'⟩ | he := (entered_lines hm).1 "out" "1;" rfl
    · rw [hm'] at hrefused
      cases hrefused
    · exact he
  · obtain ⟨k, m', hk, hm', -⟩ | hrun := (entered_lines hm).2 rfl ["out"] "1;" ["1;"]
      (by simp [Bytes.ofLines]) (by decide +kernel)
    · obtain rfl : k = 0 := Nat.lt_one_iff.1 hk
      rw [show parseEntry (.ofLines ["out"]) = .ok m' from hm'] at hentry
      cases hentry
    · exact hrun

/-- A session does not wait for an operator on the next line: `def x = 1` is complete with a
semicolon, so that the next line starts an entry of its own and is refused. -/
theorem entered_lines_early :
    (∃ m, parseModule inputName "def x = 1\n+ 2;\nout x;" = .ok m) ∧
      (∀ line ∈ (["def x = 1", "+ 2;", "out x;"] : List Bytes), line.trim.isEmpty = false) ∧
      (∃ m, readEntry [] 0 ["def x = 1", "+ 2;", "out x;"] = ⟨.complete m, 0, ["+ 2;", "out x;"]⟩) ∧
      ∃ e, readEntry [] 0 ["+ 2;", "out x;"] = ⟨.malformed e, 0, ["out x;"]⟩ := by
  obtain ⟨first, hfirst⟩ := exists_ok (r := parseEntry (("def x = 1" : Bytes) ++ [10]))
    (by decide +kernel)
  obtain ⟨e, he, hend⟩ := exists_error (r := parseEntry (("+ 2;" : Bytes) ++ [10])) (b := false)
    (by decide +kernel)
  exact ⟨exists_ok (by decide +kernel), by decide +kernel, ⟨first, readEntry_complete (by decide +kernel) hfirst⟩,
    e, readEntry_malformed (by decide +kernel) he hend⟩

end Stencil
