import Mathlib.Data.List.Infix
import Stencil.Text.Bytes

/-!
# Cutting and joining texts

A text is cut at the first occurrence of a mark, and split at one occurrence after the other.
Joined with the mark, the pieces give the text back (`join_splitOn`), and no piece holds the mark
(`not_infix_of_mem_splitOn`). Where the mark is a single byte, every occurrence of it counts
(`splitOn_singleton`).
-/

namespace Stencil

variable {b p rest : Bytes}

theorem dropLeading?_eq_some_iff : Bytes.dropLeading? p b = some rest ↔ b = p ++ rest := by
  induction p generalizing b with
  | nil => simp [Bytes.dropLeading?]
  | cons x p ih =>
    cases b with
    | nil => simp [Bytes.dropLeading?]
    | cons y b =>
      by_cases h : x = y
      · simp [Bytes.dropLeading?, h, ih]
      · simp [Bytes.dropLeading?, h, Ne.symm h]

theorem dropLeading?_eq_none_iff : Bytes.dropLeading? p b = none ↔ ¬ p <+: b := by
  rw [Option.eq_none_iff_forall_ne_some]
  constructor
  · rintro h ⟨rest, rfl⟩
    exact h rest (dropLeading?_eq_some_iff.2 rfl)
  · rintro h rest hr
    exact h ⟨rest, (dropLeading?_eq_some_iff.1 hr).symm⟩

/-! ### Cutting -/

/-- A text is cut before and after an occurrence of the mark, and there is none further ahead. -/
theorem cutAux_eq_some {seen x : Bytes} (h : Bytes.cutAux p seen b = some (x, rest)) :
    ∃ a, x = seen.reverse ++ a ∧ b = a ++ (p ++ rest) ∧
      ∀ a' c, b = a' ++ (p ++ c) → a.length ≤ a'.length := by
  induction b generalizing seen with
  | nil =>
    rw [Bytes.cutAux] at h
    split at h
    · rename_i hp
      obtain ⟨rfl, rfl⟩ := Prod.mk.inj (Option.some.inj h)
      exact ⟨[], by simp, by simp [List.isEmpty_iff.1 hp], fun _ _ _ => Nat.zero_le _⟩
    · cases h
  | cons c b ih =>
    rw [Bytes.cutAux] at h
    cases hd : Bytes.dropLeading? p (c :: b) with
    | some tail =>
      rw [hd] at h
      obtain ⟨hx, htail⟩ := Prod.mk.inj (Option.some.inj h)
      refine ⟨[], by rw [← hx, List.append_nil], ?_, fun _ _ _ => Nat.zero_le _⟩
      rw [List.nil_append, ← htail]
      exact dropLeading?_eq_some_iff.1 hd
    | none =>
      rw [hd] at h
      obtain ⟨a, hx, rfl, hfirst⟩ := ih h
      refine ⟨c :: a, by simpa using hx, rfl, fun a' c' heq => ?_⟩
      cases a' with
      | nil => exact absurd ⟨c', heq.symm⟩ (dropLeading?_eq_none_iff.1 hd)
      | cons y a' => exact Nat.succ_le_succ (hfirst a' c' (List.cons.inj heq).2)

theorem cutAux_eq_none {seen : Bytes} (h : Bytes.cutAux p seen b = none) : ¬ p <:+: b := by
  induction b generalizing seen with
  | nil =>
    rw [Bytes.cutAux] at h
    split at h
    · cases h
    · rename_i hp
      rw [List.infix_nil]
      exact fun hnil => hp (List.isEmpty_iff.2 hnil)
  | cons c b ih =>
    rw [Bytes.cutAux] at h
    cases hd : Bytes.dropLeading? p (c :: b) with
    | some tail =>
      rw [hd] at h
      cases h
    | none =>
      rw [hd] at h
      rw [List.infix_cons_iff, not_or]
      exact ⟨dropLeading?_eq_none_iff.1 hd, ih h⟩

/-- What is cut off ahead of the first occurrence of a mark does not hold the mark. -/
theorem cut?_eq_some {x : Bytes} (hp : p ≠ []) (h : b.cut? p = some (x, rest)) :
    b = x ++ (p ++ rest) ∧ ¬ p <:+: x := by
  obtain ⟨a, rfl, hb, hfirst⟩ := cutAux_eq_some h
  refine ⟨hb, ?_⟩
  rintro ⟨a', c, hx⟩
  have hlen := hfirst a' (c ++ (p ++ rest)) (by simpa [← hx] using hb)
  have hpos := List.length_pos_iff.2 hp
  have := congrArg List.length hx
  simp only [List.length_append] at this
  omega

theorem cut?_eq_none (h : b.cut? p = none) : ¬ p <:+: b := cutAux_eq_none h

/-! ### Splitting -/

theorem splitAux_ne_nil (n : Nat) : Bytes.splitAux p n b ≠ [] := by
  cases n with
  | zero => exact List.cons_ne_nil _ _
  | succ n =>
    rw [Bytes.splitAux]
    split <;> exact List.cons_ne_nil _ _

theorem join_cons (sep x : Bytes) (xs : List Bytes) :
    Bytes.join sep (x :: xs) = x ++ xs.flatMap (sep ++ ·) := by
  induction xs generalizing x with
  | nil => simp [Bytes.join]
  | cons y ys ih =>
    have h := ih y
    simp only [Bytes.join] at h ⊢
    rw [List.flatMap_cons, List.append_assoc sep y, ← h]
    simp [List.intersperse]

theorem join_cons_cons (sep x y : Bytes) (xs : List Bytes) :
    Bytes.join sep (x :: y :: xs) = x ++ sep ++ Bytes.join sep (y :: xs) := by
  simp only [join_cons, List.flatMap_cons, List.append_assoc]

/-- Two pieces may be joined first. -/
theorem join_append_cons (sep x y : Bytes) (xs : List Bytes) :
    Bytes.join sep ((x ++ sep ++ y) :: xs) = Bytes.join sep (x :: y :: xs) := by
  simp only [join_cons, List.flatMap_cons, List.append_assoc]

/-- The pieces of a text, joined with the mark between them, are the text. -/
theorem join_splitOn (hp : p ≠ []) : Bytes.join p (b.splitOn p) = b := by
  suffices h : ∀ n b, Bytes.join p (Bytes.splitAux p n b) = b from h _ b
  intro n
  induction n with
  | zero => simp [Bytes.splitAux, Bytes.join]
  | succ n ih =>
    intro b
    rw [Bytes.splitAux]
    split
    · rename_i x rest hc
      obtain ⟨y, ys, hy⟩ := List.exists_cons_of_ne_nil (splitAux_ne_nil (p := p) (b := rest) n)
      rw [hy, join_cons_cons, ← hy, ih, List.append_assoc, ← (cut?_eq_some hp hc).1]
    · simp [Bytes.join]

/-- No piece of a text holds the mark at which it was split. -/
theorem not_infix_of_mem_splitOn {x : Bytes} (hp : p ≠ []) (hx : x ∈ b.splitOn p) :
    ¬ p <:+: x := by
  suffices h : ∀ n b, b.length ≤ n → x ∈ Bytes.splitAux p n b → ¬ p <:+: x from
    h _ b (Nat.le_refl _) hx
  intro n
  induction n with
  | zero =>
    intro b hb hx
    obtain rfl := List.length_eq_zero_iff.1 (Nat.le_zero.1 hb)
    rw [List.mem_singleton.1 hx, List.infix_nil]
    exact hp
  | succ n ih =>
    intro b hb hx
    rw [Bytes.splitAux] at hx
    split at hx
    · rename_i y rest hc
      obtain ⟨hy, hfree⟩ := cut?_eq_some hp hc
      have hlen : rest.length ≤ n := by
        have := List.length_pos_iff.2 hp
        have := congrArg List.length hy
        simp only [List.length_append] at this
        omega
      rcases List.mem_cons.1 hx with rfl | hx
      · exact hfree
      · exact ih rest hlen hx
    · rename_i hc
      rw [List.mem_singleton.1 hx]
      exact cut?_eq_none hc

/-- A mark of one byte splits a text wherever the byte stands. -/
theorem splitOn_singleton (c : UInt8) (b : Bytes) : Bytes.splitOn b [c] = List.splitOn c b := by
  have free {x : Bytes} (h : ¬ [c] <:+: x) : c ∉ x := fun hc => by
    obtain ⟨s, t, rfl⟩ := List.append_of_mem hc
    exact h ⟨s, t, by simp⟩
  suffices h : ∀ n (b : Bytes), b.length ≤ n → Bytes.splitAux [c] n b = List.splitOn c b from
    h _ b (Nat.le_refl _)
  intro n
  induction n with
  | zero =>
    intro b hb
    obtain rfl := List.length_eq_zero_iff.1 (Nat.le_zero.1 hb)
    rfl
  | succ n ih =>
    intro b hb
    rw [Bytes.splitAux]
    split
    · rename_i x rest hc
      obtain ⟨rfl, hx⟩ := cut?_eq_some (List.cons_ne_nil c []) hc
      have hlen : rest.length ≤ n := by
        simp only [List.length_append, List.length_cons] at hb
        omega
      rw [ih rest hlen]
      exact (List.splitOn_append_cons_self_of_not_mem (free hx) rest).symm
    · rename_i hc
      exact (List.splitOn_eq_singleton (free (cut?_eq_none hc))).symm

end Stencil
