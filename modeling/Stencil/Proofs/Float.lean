import Mathlib
import Stencil.Decimal.Binary

/-!
# Floating-point numbers: their order, and the floats nearest to ints

`floatOrdering` tells how two floats compare. Exactly one of less, equal and greater is true of two
floats that are numbers or infinities (`float_lt_iff`, `float_beq_iff`), and none of them is if one
of the floats is undefined (`floatOrdering_eq_none_iff`). The float nearest to an int is never
undefined: `isNaN_floatOfInt`.
-/

namespace Stencil

open Float.Model (UnpackedFloat)

/-! ### Order -/

/-- How two floats compare, if neither of them is undefined. -/
def floatOrdering (x y : Float) : Option Ordering := x.toModel.compare y.toModel

section

variable {x y : Float}

theorem float_lt_iff : x < y ↔ floatOrdering x y = some .lt := by
  show decide (x.toModel < y.toModel) = true ↔ _
  rw [decide_eq_true_iff]
  exact beq_iff_eq

theorem float_beq_iff : (x == y) = true ↔ floatOrdering x y = some .eq := by
  show (UnpackedFloat.compare x.toModel.unpack y.toModel.unpack == some .eq) = true ↔ _
  exact beq_iff_eq

/-- Numbers and infinities are compared by sign first, then by exponent, then by mantissa. -/
theorem unpacked_compare_swap (a b : UnpackedFloat) :
    b.compare a = (a.compare b).map Ordering.swap := by
  cases a with
  | notANumber => cases b <;> rfl
  | zero => rcases b with ⟨⟨⟩⟩ | _ | _ | ⟨⟨⟩, _, _, _⟩ <;> rfl
  | infinity sign => cases sign <;> rcases b with ⟨⟨⟩⟩ | _ | _ | _ <;> rfl
  | finite sign m e =>
    cases sign <;> rcases b with ⟨⟨⟩⟩ | _ | _ | ⟨⟨⟩, _, _, _⟩ <;>
      simp [UnpackedFloat.compare, Ordering.swap_then, ← Int.compare_swap e, ← Nat.compare_swap m]

/-- The order the other way round. -/
theorem floatOrdering_swap : floatOrdering y x = (floatOrdering x y).map Ordering.swap :=
  unpacked_compare_swap x.toModel.unpack y.toModel.unpack

theorem floatOrdering_eq_none_iff :
    floatOrdering x y = none ↔ x.isNaN = true ∨ y.isNaN = true := by
  show UnpackedFloat.compare x.toModel.unpack y.toModel.unpack = none ↔
    x.toModel.unpack.isNaN = true ∨ y.toModel.unpack.isNaN = true
  fun_cases UnpackedFloat.compare x.toModel.unpack y.toModel.unpack <;> simp_all

end

/-! ### Bits that are those of a number -/

/-- Only bits with a full field for the exponent are those of no number. -/
theorem isNaN_ofBits {b : UInt64} (h : b.toNat / 2 ^ 52 % 2 ^ 11 ≠ 2047) :
    (Float.ofBits b).isNaN = false := by
  have hexp : @UnpackedFloat.unpackExponent .binary64 b.toBitVec ≠ -1#11 := by
    intro heq
    refine h ?_
    rw [UnpackedFloat.unpackExponent_def] at heq
    simpa [BitVec.extractLsb', Nat.shiftRight_eq_div_pow] using congrArg BitVec.toNat heq
  have hbits : @UnpackedFloat.isNaNBits .binary64 b.toBitVec = false :=
    decide_eq_false fun hb => hexp hb.1
  have hkept : (Float.ofBits b).toModel.toBits.toBitVec = b.toBitVec := by
    have hpack : UnpackedFloat.pack .binary64 (UnpackedFloat.unpack .binary64 b.toBitVec) =
        b.toBitVec := by
      rw [UnpackedFloat.pack_unpack, hbits]
      rfl
    exact hpack
  show (UnpackedFloat.unpack .binary64 (Float.ofBits b).toModel.toBits.toBitVec).isNaN = false
  rw [hkept, UnpackedFloat.unpack]
  dsimp only
  rw [if_neg hexp]
  split
  · split <;> rfl
  · rfl

namespace Decimal

/-! ### Rounding -/

theorem roundHalfEven_le (num den : Nat) : roundHalfEven num den ≤ num / den + 1 := by
  unfold roundHalfEven
  dsimp only
  split_ifs <;> omega

/-- The whole part of `n / 2 ^ e`. -/
def wholePart (n : Nat) (e : Int) : Nat :=
  if 0 ≤ e then n / 2 ^ e.toNat else n * 2 ^ (-e).toNat

theorem wholePart_lt {n j k : Nat} {e : Int} (hn : n < 2 ^ k) (hk : (k : Int) ≤ j + e) :
    wholePart n e < 2 ^ j := by
  unfold wholePart
  split
  case isTrue he =>
    have hle : 2 ^ k ≤ 2 ^ j * 2 ^ e.toNat := by
      rw [← Nat.pow_add]
      exact Nat.pow_le_pow_right Nat.two_pos (by omega)
    exact Nat.div_lt_of_lt_mul (by rw [Nat.mul_comm]; omega)
  case isFalse he =>
    have hle : 2 ^ k * 2 ^ (-e).toNat ≤ 2 ^ j := by
      rw [← Nat.pow_add]
      exact Nat.pow_le_pow_right Nat.two_pos (by omega)
    exact (Nat.mul_lt_mul_of_pos_right hn (Nat.two_pow_pos _)).trans_le hle

/-- A natural number is rounded to a mantissa of 53 bits and an exponent that is not too large. -/
theorem roundQuotient_double_lt {n m : Nat} {e : Int}
    (h : roundQuotient double n 1 = some (m, e)) : m < 2 ^ 53 ∧ e ≤ 971 := by
  unfold roundQuotient at h
  split at h
  · cases h
    decide
  extract_lets guess e₀ scaled full at h
  split at h
  rename_i m₁ e₁ hfirst
  split at h
  rename_i m₂ e₂ hsecond
  have hscaled (e : Int) : scaled e ≤ wholePart n e + 1 := by
    unfold scaled wholePart
    split
    · simpa using roundHalfEven_le n (1 * Nat.pow 2 e.toNat)
    · simpa using roundHalfEven_le (n * Nat.pow 2 (-e).toNat) 1
  have hlog : n < 2 ^ (n.log2 + 1) := Nat.lt_log2_self
  have hguess : (n.log2 : Int) - 53 ≤ e₀ := le_max_left guess double.minExp
  have hwhole : (if 0 ≤ e₀ then n / (1 * Nat.pow 2 e₀.toNat)
      else n * Nat.pow 2 (-e₀).toNat / 1) = wholePart n e₀ := by simp [wholePart]
  rw [hwhole] at hfirst
  -- one of two exponents is chosen; with either one the whole part has 53 bits
  have hfirst_le : m₁ ≤ 2 ^ 53 := by
    split at hfirst
    · obtain ⟨rfl, rfl⟩ := Prod.mk.inj hfirst
      have hlt : wholePart n (e₀ + 1) < 2 ^ 53 := wholePart_lt hlog (by push_cast; omega)
      exact (hscaled _).trans hlt
    · rename_i hfull
      obtain ⟨rfl, rfl⟩ := Prod.mk.inj hfirst
      exact (hscaled _).trans (Nat.not_le.1 hfull)
  split at h
  · cases h
  · rename_i he
    obtain ⟨rfl, rfl⟩ := Prod.mk.inj (Option.some.inj h)
    refine ⟨?_, Int.not_lt.1 he⟩
    have hfull : full = 2 ^ 53 := rfl
    split at hsecond <;> obtain ⟨rfl, rfl⟩ := Prod.mk.inj hsecond <;> omega

/-- The bits of such a mantissa and exponent are those of a number. -/
theorem isNaN_floatOf {neg : Bool} {m : Nat} {e : Int} (hm : m < 2 ^ 53) (he : e ≤ 971) :
    (floatOf neg m e).isNaN = false := by
  refine isNaN_ofBits ?_
  have hsign : ∃ k, (if neg then Nat.pow 2 (52 + 11) else 0) = 2 ^ 63 * k ∧ k ≤ 1 := by
    cases neg
    · exact ⟨0, rfl, Nat.zero_le 1⟩
    · exact ⟨1, rfl, le_rfl⟩
  obtain ⟨k, hk, hle⟩ := hsign
  have hbits : packBits double 11 neg m e =
      if m < 2 ^ 52 then 2 ^ 63 * k + m
      else 2 ^ 63 * k + ((e + 1074).toNat + 1) * 2 ^ 52 + (m - 2 ^ 52) := by
    rw [← hk]
    rfl
  rw [hbits, Nat.toUInt64_eq, UInt64.toNat_ofNat']
  split <;> omega

/-- The float nearest to an int is a number or an infinity. -/
theorem isNaN_floatOfInt (n : Int) : (floatOfInt n).isNaN = false := by
  unfold floatOfInt
  split
  · rename_i h
    obtain ⟨hm, he⟩ := roundQuotient_double_lt h
    exact isNaN_floatOf hm he
  · cases decide (n < 0) <;> decide

end Decimal

end Stencil
