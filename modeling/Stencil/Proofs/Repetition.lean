import Mathlib
import Stencil.Host.Basic
import Stencil.Machine.Operation
import Stencil.Proofs.Machine.Twin

/-!
# Repeated strings and lists

`repetition_exact_iff` tells what a string or list times an int comes to. It is so many copies, or
the error for what is too large, unless the size of the copies wraps around in 64 bits to what is
within the limit; then the machine panics.
-/

namespace Stencil

/-! ### Sizes -/

/-- The size of so many copies exceeds the limit, but computed in 64 bits it does not. -/
def WrapsBelow (size : Nat) (n : Int64) : Prop :=
  maxRepeat < size * n.toNatClampNeg ∧ repeatedSize size n ≤ Int64.ofNat maxRepeat

instance (size : Nat) (n : Int64) : Decidable (WrapsBelow size n) :=
  inferInstanceAs (Decidable (_ ∧ _))

theorem toInt_ofNat_maxRepeat : (Int64.ofNat maxRepeat).toInt = maxRepeat :=
  Int64.toInt_ofNat_of_lt (by decide)

variable {size : Nat} {n : Int64}

theorem toInt_eq_toNatClampNeg (hn : 0 < n) : n.toInt = n.toNatClampNeg :=
  (Int64.cast_toNatClampNeg n (Int64.le_of_lt hn)).symm

/-- A size of 64 bits is computed exactly. -/
theorem toInt_repeatedSize (hn : 0 < n) (h : size * n.toNatClampNeg < 2 ^ 63) :
    (repeatedSize size n).toInt = size * n.toNatClampNeg := by
  have hwrap : (repeatedSize size n).toInt = (size * n.toInt : Int).bmod (2 ^ 64) := by
    rw [repeatedSize, Int64.toInt_mul, Int64.toInt_ofNat']
    exact Int.bmod_mul_bmod
  have hcast : ((size * n.toNatClampNeg : Nat) : Int) = size * n.toNatClampNeg := Nat.cast_mul _ _
  rw [hwrap, toInt_eq_toNatClampNeg hn, ← hcast]
  exact Int.bmod_eq_of_le (by omega) (by omega)

/-- The test for the limit is right for sizes of 64 bits. -/
theorem exceeds_iff (hn : 0 < n) (h : size * n.toNatClampNeg < 2 ^ 63) :
    Int64.ofNat maxRepeat < repeatedSize size n ↔ maxRepeat < size * n.toNatClampNeg := by
  rw [Int64.lt_iff_toInt_lt, toInt_ofNat_maxRepeat, toInt_repeatedSize hn h, ← Nat.cast_mul,
    Int.ofNat_lt]

theorem not_wrapsBelow_of_nonpos (hn : n ≤ 0) : ¬ WrapsBelow size n := by
  rintro ⟨h, -⟩
  rw [Int64.toNatClampNeg_eq_zero_iff.2 hn] at h
  exact absurd h (Nat.not_lt_zero _)

/-- No size of 64 bits wraps around. -/
theorem not_wrapsBelow_of_lt (h : size * n.toNatClampNeg < 2 ^ 63) : ¬ WrapsBelow size n := by
  by_cases hn : n ≤ 0
  · exact not_wrapsBelow_of_nonpos hn
  · rintro ⟨hlarge, hwrap⟩
    exact Int64.not_lt.2 hwrap ((exceeds_iff (Int64.not_le.1 hn) h).2 hlarge)

/-- How the test for the limit may come out for a positive number of copies. -/
theorem size_cases (size : Nat) (hn : 0 < n) :
    (Int64.ofNat maxRepeat < repeatedSize size n ∧ maxRepeat < size * n.toNatClampNeg ∧
      ¬ WrapsBelow size n) ∨
    (repeatedSize size n ≤ Int64.ofNat maxRepeat ∧ size * n.toNatClampNeg ≤ maxRepeat ∧
      ¬ WrapsBelow size n) ∨
    (repeatedSize size n ≤ Int64.ofNat maxRepeat ∧ 2 ^ 63 ≤ size * n.toNatClampNeg ∧
      WrapsBelow size n) := by
  have hlimit : maxRepeat < 2 ^ 63 := by decide
  by_cases hlt : size * n.toNatClampNeg < 2 ^ 63
  · have hwrap : ¬ WrapsBelow size n := not_wrapsBelow_of_lt hlt
    rw [← Int64.not_lt, exceeds_iff hn hlt]
    by_cases hlarge : maxRepeat < size * n.toNatClampNeg
    · exact .inl ⟨hlarge, hlarge, hwrap⟩
    · exact .inr (.inl ⟨hlarge, Nat.not_lt.1 hlarge, hwrap⟩)
  · have hlarge : maxRepeat < size * n.toNatClampNeg := by omega
    by_cases hexceeds : Int64.ofNat maxRepeat < repeatedSize size n
    · exact .inl ⟨hexceeds, hlarge, fun h => Int64.not_lt.2 h.2 hexceeds⟩
    · have hle := Int64.not_lt.1 hexceeds
      exact .inr (.inr ⟨hle, Nat.not_lt.1 hlt, hlarge, hle⟩)

/-! ### Copies -/

/-- What repetition is to come to: copies as long as their size, computed without bounds, is within
the limit, and otherwise an error. -/
def repetition (msg : Bytes) (size : Nat) (n : Int64) (copies : Nat → Job Value) : Job Value :=
  if n ≤ 0 then copies 0
  else if size * n.toNatClampNeg ≤ maxRepeat then copies n.toNatClampNeg
  else Job.error msg

/-- Copies of a string. -/
def stringCopies (b : Bytes) (k : Nat) : Job Value := return .string (List.replicate k b).flatten

/-- A new list of copies of some elements. -/
def listCopies (items : Array Value) (k : Nat) : Job Value :=
  Job.newList (List.replicate k items.toList).flatten.toArray

theorem repeatString_eq (b : Bytes) (n : Int64) :
    repeatString b n =
      if WrapsBelow b.length n then Job.panic "strings: Repeat output length overflow"
      else repetition "string repetition too large" b.length n (stringCopies b) := by
  unfold repeatString repetition
  by_cases hn : n ≤ 0
  · rw [if_pos hn, if_neg (not_wrapsBelow_of_nonpos hn), if_pos hn]
    rfl
  rw [if_neg hn, if_neg hn]
  obtain ⟨hexceeds, hlarge, hwrap⟩ | ⟨hle, hsmall, hwrap⟩ | ⟨hle, hlarge, hwrap⟩ :=
    size_cases b.length (Int64.not_le.1 hn)
  · simp only [if_pos hexceeds, if_neg hwrap, if_neg (Nat.not_le.2 hlarge)]
    rfl
  · have hfits : ¬ b.length * n.toNatClampNeg ≥ Nat.pow 2 63 :=
      Nat.not_le.2 (hsmall.trans_lt (by decide))
    simp only [if_neg (Int64.not_lt.2 hle), if_neg hwrap, if_pos hsmall, if_neg hfits]
    cases b with
    | nil => simp [stringCopies]
    | cons c b => rfl
  · have hne : ¬ List.isEmpty b = true := by
      intro h
      rw [List.isEmpty_iff.1 h] at hlarge
      simp at hlarge
    have hpanics : b.length * n.toNatClampNeg ≥ Nat.pow 2 63 := hlarge
    simp only [if_neg (Int64.not_lt.2 hle), if_pos hwrap, if_neg hne, if_pos hpanics]
    rfl

theorem foldl_append_replicate (items done : Array Value) (k : Nat) :
    (List.replicate k items).foldl (· ++ ·) done =
      done ++ (List.replicate k items.toList).flatten.toArray := by
  induction k generalizing done with
  | zero => simp
  | succ k ih =>
    rw [List.replicate_succ, List.foldl_cons, ih, List.replicate_succ, List.flatten_cons,
      Array.append_assoc, ← List.append_toArray, Array.toArray_toList]

theorem listCopies_eq (items : Array Value) (k : Nat) :
    listCopies items k = Job.newList ((List.replicate k items).foldl (· ++ ·) #[]) := by
  rw [listCopies, foldl_append_replicate, Array.empty_append]

theorem repeatList_eq (id : Nat) (n : Int64) :
    repeatList id n = Job.listItems id >>= fun items =>
      if WrapsBelow items.size n then Job.panic "runtime error: makeslice: cap out of range"
      else repetition "list repetition too large" items.size n (listCopies items) := by
  unfold repeatList repetition
  congr 1
  funext items
  by_cases hn : n ≤ 0
  · rw [if_pos (by simp [hn]), if_neg (not_wrapsBelow_of_nonpos hn), if_pos hn]
    rfl
  by_cases hempty : items = #[]
  · subst hempty
    rw [if_pos (by simp), if_neg (not_wrapsBelow_of_lt (by simp)), if_neg hn, if_pos (by simp)]
    simp [listCopies]
  rw [if_neg (by simp [hn, hempty]), if_neg hn, listCopies_eq]
  obtain ⟨hexceeds, hlarge, hwrap⟩ | ⟨hle, hsmall, hwrap⟩ | ⟨hle, hlarge, hwrap⟩ :=
    size_cases items.size (Int64.not_le.1 hn)
  · simp only [if_pos hexceeds, if_neg hwrap, if_neg (Nat.not_le.2 hlarge)]
    rfl
  · have hsize := toInt_repeatedSize (Int64.not_le.1 hn) (hsmall.trans_lt (by decide))
    have hnonneg : ¬ repeatedSize items.size n < 0 := by
      rw [Int64.lt_iff_toInt_lt, hsize, Int64.toInt_zero]
      exact Int.not_lt.2 (by positivity)
    simp only [if_neg (Int64.not_lt.2 hle), if_neg hwrap, if_pos hsmall, hnonneg, decide_false,
      Bool.false_or, decide_eq_true_eq, if_neg (Nat.not_lt.2 hsmall)]
  · have hpanics : maxRepeat < items.size * n.toNatClampNeg := hwrap.1
    simp only [if_neg (Int64.not_lt.2 hle), if_pos hwrap, hpanics, decide_true, Bool.or_true,
      if_true]
    rfl

/-! ### The operator -/

section

variable (n : Int64) (call : Callback) (s : Store)

/-- A panic takes the place of the outcome only if the size wraps around. -/
theorem run_panic_iff (text msg : Bytes) (size : Nat) (copies : Nat → Job Value) :
    (if WrapsBelow size n then Job.panic text else repetition msg size n copies).run call s =
      (repetition msg size n copies).run call s ↔ ¬ WrapsBelow size n := by
  by_cases h : WrapsBelow size n
  · have hpos : ¬ n ≤ 0 := fun hn => not_wrapsBelow_of_nonpos hn h
    have herror : repetition msg size n copies = Job.error msg := by
      rw [repetition, if_neg hpos, if_neg (Nat.not_le.2 h.1)]
    rw [if_pos h, herror]
    exact iff_of_false nofun (not_not_intro h)
  · rw [if_neg h]
    exact iff_of_true rfl h

/-- A string or a list times an int. The copies are made, or refused for their size, as this is
computed without bounds, exactly if the size computed in 64 bits does not wrap around to what is
within the limit. Sizes of 64 bits do not wrap around. -/
theorem repetition_exact_iff [Host] :
    (∀ b : Bytes,
      (applyBinary (.binary .multiply) (.string b) (.int n)).run call s =
        (repetition "string repetition too large" b.length n (stringCopies b)).run call s ↔
      ¬ WrapsBelow b.length n) ∧
    (∀ id : Nat,
      (applyBinary (.binary .multiply) (.list id) (.int n)).run call s =
        (repetition "list repetition too large" (s.list id).size n
          (listCopies (s.list id))).run call s ↔
      ¬ WrapsBelow (s.list id).size n) ∧
    ∀ size : Nat, size * n.toNatClampNeg < 2 ^ 63 → ¬ WrapsBelow size n := by
  refine ⟨fun b => ?_, fun id => ?_, fun size => not_wrapsBelow_of_lt⟩
  · have hrun : applyBinary (.binary .multiply) (.string b) (.int n) = repeatString b n := rfl
    rw [hrun, repeatString_eq]
    exact run_panic_iff ..
  · have hrun : applyBinary (.binary .multiply) (.list id) (.int n) = repeatList id n := rfl
    rw [hrun, repeatList_eq]
    exact run_panic_iff ..

end

/-- The greatest int of copies of a string of two bytes. In 64 bits their size is negative. -/
theorem repetition_wraps_around :
    maxRepeat < 2 * (2 ^ 63 - 1) ∧ ∀ (call : Callback) (s : Store),
      (@applyBinary standalone.toHost (.binary .multiply) (.string [97, 98])
        (.int 9223372036854775807)).run call s =
      .error (.panic "strings: Repeat output length overflow" false) s := by
  refine ⟨by decide, fun call s => ?_⟩
  show (repeatString [97, 98] 9223372036854775807).run call s = _
  rw [repeatString_eq, if_pos (by decide)]
  rfl

end Stencil
