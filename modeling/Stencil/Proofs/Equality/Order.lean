import Mathlib
import Stencil.Host.Basic
import Stencil.Machine.Operation
import Stencil.Machine.Store
import Stencil.Proofs.Float

/-!
# The operators that compare

The operators for order are defined for two numbers and for two strings. They agree with each other
and with equality, `comparison_coherent_iff`, unless one of the values is the undefined float: that
is neither less than, equal to nor greater than any number, but the operators "less or equal" and
"greater or equal" hold for it and every number (`comparison_undefined`).
-/

namespace Stencil

/-! ### Bytes -/

theorem Bytes.lt_asymm {a b : Bytes} (h : Bytes.lt a b = true) : Bytes.lt b a = false := by
  induction a generalizing b with
  | nil => cases b <;> rfl
  | cons x a ih =>
    cases b with
    | nil => cases h
    | cons y b =>
      simp only [Bytes.lt, Bool.or_eq_true, Bool.and_eq_true, beq_iff_eq, decide_eq_true_eq] at h
      simp only [Bytes.lt, Bool.or_eq_false_iff, Bool.and_eq_false_iff, beq_eq_false_iff_ne,
        decide_eq_false_iff_not]
      obtain hxy | ⟨rfl, hab⟩ := h
      · exact ⟨UInt8.lt_asymm hxy, .inl (UInt8.ne_of_lt hxy).symm⟩
      · exact ⟨UInt8.lt_irrefl x, .inr (ih hab)⟩

theorem Bytes.eq_of_not_lt {a b : Bytes} (h : Bytes.lt a b = false) (h' : Bytes.lt b a = false) :
    a = b := by
  induction a generalizing b with
  | nil =>
    cases b with
    | nil => rfl
    | cons => cases h
  | cons x a ih =>
    cases b with
    | nil => cases h'
    | cons y b =>
      simp only [Bytes.lt, Bool.or_eq_false_iff, Bool.and_eq_false_iff, beq_eq_false_iff_ne,
        decide_eq_false_iff_not] at h h'
      obtain rfl : x = y := UInt8.le_antisymm (UInt8.not_lt.1 h'.1) (UInt8.not_lt.1 h.1)
      rw [ih (h.2.resolve_left (absurd rfl)) (h'.2.resolve_left (absurd rfl))]

theorem Bytes.lt_irrefl (a : Bytes) : Bytes.lt a a = false := by
  cases h : Bytes.lt a a with
  | false => rfl
  | true => exact absurd (lt_asymm h) (by rw [h]; decide)

theorem Bytes.lt_trans {a b c : Bytes} (hab : Bytes.lt a b = true) (hbc : Bytes.lt b c = true) :
    Bytes.lt a c = true := by
  induction a generalizing b c with
  | nil =>
    cases c with
    | nil => cases b <;> cases hbc
    | cons => rfl
  | cons x a ih =>
    cases b with
    | nil => cases hab
    | cons y b =>
      cases c with
      | nil => cases hbc
      | cons z c =>
        simp only [Bytes.lt, Bool.or_eq_true, Bool.and_eq_true, beq_iff_eq, decide_eq_true_eq]
          at hab hbc ⊢
        obtain hxy | ⟨rfl, hab⟩ := hab
        · obtain hyz | ⟨rfl, -⟩ := hbc
          · exact .inl (UInt8.lt_trans hxy hyz)
          · exact .inl hxy
        · obtain hyz | ⟨rfl, hbc⟩ := hbc
          · exact .inl hyz
          · exact .inr ⟨rfl, ih hab hbc⟩

theorem Bytes.le_total (a b : Bytes) : (Bytes.le a b || Bytes.le b a) = true := by
  cases h : Bytes.lt b a with
  | false => simp [Bytes.le, h]
  | true => simp [Bytes.le, Bytes.lt_asymm h]

theorem Bytes.le_refl (a : Bytes) : Bytes.le a a = true := by
  rw [Bytes.le, lt_irrefl]
  rfl

theorem Bytes.le_antisymm {a b : Bytes} (hab : Bytes.le a b = true) (hba : Bytes.le b a = true) :
    a = b :=
  Bytes.eq_of_not_lt (by simpa [Bytes.le] using hba) (by simpa [Bytes.le] using hab)

theorem Bytes.le_trans {a b c : Bytes} (hab : Bytes.le a b = true) (hbc : Bytes.le b c = true) :
    Bytes.le a c = true := by
  cases hca : Bytes.lt c a with
  | false => simp [Bytes.le, hca]
  | true =>
    have hba : Bytes.lt b a = false := by simpa [Bytes.le] using hab
    cases hcases : Bytes.lt a b with
    | true =>
      have hcb := Bytes.lt_trans hca hcases
      simp [Bytes.le, hcb] at hbc
    | false =>
      obtain rfl := Bytes.eq_of_not_lt hcases hba
      simp [Bytes.le, hca] at hbc

/-! ### The values that are compared -/

/-- An int or a float. -/
inductive Value.IsNumber : Value → Prop where
  | int (n) : IsNumber (.int n)
  | float (x) : IsNumber (.float x)

/-- The operators for order are defined for the values. -/
inductive Value.Comparable : Value → Value → Prop where
  | numbers {x y} : x.IsNumber → y.IsNumber → Comparable x y
  | strings (a b) : Comparable (.string a) (.string b)

/-- The float that is undefined. -/
def Value.IsNaN : Value → Prop
  | .float x => x.isNaN = true
  | _ => False

/-- What the values have to do with each other: `o` is their order, if they have one. -/
structure Value.Ordered [Host] (x y : Value) (o : Option Ordering) : Prop where
  forward : x.compare? y = some (o.getD .eq)
  backward : y.compare? x = some ((o.map Ordering.swap).getD .eq)
  equal (s : Heap) : x.equal s y = (o == some .eq)
  undefined : o = none ↔ x.IsNaN ∨ y.IsNaN

namespace Value

variable [Host]

omit [Host] in
/-- Floats that have no order are ordered as if they were equal. -/
theorem order_eq (x y : Float) : compare?.order x y = (floatOrdering x y).getD .eq := by
  have hxy : x < y ↔ floatOrdering x y = some .lt := float_lt_iff
  have hyx : y < x ↔ (floatOrdering x y).map Ordering.swap = some .lt := by
    rw [float_lt_iff, floatOrdering_swap]
  unfold compare?.order
  cases h : floatOrdering x y with
  | none => rw [if_neg (by simp [hxy, h]), if_neg (by simp [hyx, h])]; rfl
  | some o => cases o <;> simp [hxy, hyx, h]

/-- Two values that have an order, which the two tests tell. -/
theorem ordered_total {x y : Value} {less greater : Bool}
    (hxy : x.compare? y = some (if less then .lt else if greater then .gt else .eq))
    (hyx : y.compare? x = some (if greater then .lt else if less then .gt else .eq))
    (heq : ∀ s : Heap, x.equal s y = (!less && !greater)) (hasymm : less = true → greater = false)
    (hdefined : ¬ (x.IsNaN ∨ y.IsNaN)) :
    x.Ordered y (some (if less then .lt else if greater then .gt else .eq)) := by
  cases less with
  | false =>
    cases greater with
    | false => exact ⟨hxy, hyx, heq, iff_of_false nofun hdefined⟩
    | true => exact ⟨hxy, hyx, heq, iff_of_false nofun hdefined⟩
  | true =>
    obtain rfl := hasymm rfl
    exact ⟨hxy, hyx, heq, iff_of_false nofun hdefined⟩

theorem exists_ordered_ints (m n : Int64) : ∃ o, (Value.int m).Ordered (.int n) o := by
  refine ⟨_, @ordered_total _ _ _ (decide (m < n)) (decide (n < m)) ?_ ?_ ?_ ?_ ?_⟩
  · simp [compare?]
  · simp [compare?]
  · intro s
    have hsame : (Value.int m).equal s (.int n) = (m == n) := rfl
    rw [hsame, Bool.eq_iff_iff, beq_iff_eq]
    simp only [Bool.and_eq_true, Bool.not_eq_true', decide_eq_false_iff_not, Int64.not_lt]
    exact ⟨fun h => h ▸ ⟨Int64.le_refl m, Int64.le_refl m⟩, fun h => Int64.le_antisymm h.2 h.1⟩
  · simpa using fun h => Int64.le_of_lt h
  · exact not_or_intro id id

theorem exists_ordered_strings (a b : Bytes) :
    ∃ o, (Value.string a).Ordered (.string b) o := by
  refine ⟨_, @ordered_total _ _ _ (Bytes.lt a b) (Bytes.lt b a) rfl rfl ?_ Bytes.lt_asymm
    (not_or_intro id id)⟩
  intro s
  have hsame : (Value.string a).equal s (.string b) = decide (a = b) := rfl
  rw [hsame, Bool.eq_iff_iff, decide_eq_true_iff]
  simp only [Bool.and_eq_true, Bool.not_eq_true']
  exact ⟨fun h => h ▸ ⟨Bytes.lt_irrefl a, Bytes.lt_irrefl a⟩, fun h => Bytes.eq_of_not_lt h.1 h.2⟩

/-- Two numbers that are compared as floats. -/
theorem ordered_floats {x y : Value} {a b : Float} (hxy : x.compare? y = some (compare?.order a b))
    (hyx : y.compare? x = some (compare?.order b a)) (heq : ∀ s : Heap, x.equal s y = (a == b))
    (hx : a.isNaN = true ↔ x.IsNaN) (hy : b.isNaN = true ↔ y.IsNaN) :
    x.Ordered y (floatOrdering a b) where
  forward := by rw [hxy, order_eq]
  backward := by rw [hyx, order_eq, floatOrdering_swap]
  equal s := by
    rw [heq, Bool.eq_iff_iff, float_beq_iff, beq_iff_eq]
  undefined := by rw [floatOrdering_eq_none_iff, hx, hy]

theorem exists_ordered {x y : Value} (h : x.Comparable y) : ∃ o, x.Ordered y o := by
  have hint (n : Int64) : (intToFloat n).isNaN = true ↔ (Value.int n).IsNaN := by
    rw [intToFloat, Decimal.isNaN_floatOfInt]
    exact iff_of_false (by decide) id
  cases h with
  | strings a b => exact exists_ordered_strings a b
  | numbers hx hy =>
    cases hx with
    | int m =>
      cases hy with
      | int n => exact exists_ordered_ints m n
      | float y => exact ⟨_, ordered_floats rfl rfl (fun _ => rfl) (hint m) .rfl⟩
    | float x =>
      cases hy with
      | int n => exact ⟨_, ordered_floats rfl rfl (fun _ => rfl) .rfl (hint n)⟩
      | float y => exact ⟨_, ordered_floats rfl rfl (fun _ => rfl) .rfl .rfl⟩

end Value

/-! ### The operators -/

/-- The operator, applied to the values, comes to a truth value. -/
def Evaluates [Host] (op : BinaryOp) (x y : Value) (b : Bool) : Prop :=
  ∀ (call : Callback) (s : Store), (applyBinary (.binary op) x y).run call s = .ok (.bool b) s

/-- The operators that ask for the order of two values. -/
def BinaryOp.IsOrder (op : BinaryOp) : Prop :=
  op = .less ∨ op = .greater ∨ op = .lessEq ∨ op = .greaterEq

section

variable [Host] {x y : Value}

theorem evaluates_order {op : BinaryOp} {o : Ordering} (hop : op.IsOrder)
    (h : x.compare? y = some o) : Evaluates op x y (op.holdsFor o) := by
  intro call s
  obtain rfl | rfl | rfl | rfl := hop <;>
  · unfold applyBinary
    simp only [h]
    rfl

theorem evaluates_equal {b : Bool} (h : ∀ s : Heap, x.equal s y = b) : Evaluates .equal x y b := by
  intro call s
  show EStateM.Result.ok (Value.bool (x.equal s.toHeap y)) s = _
  rw [h]

theorem evaluates_notEqual {b : Bool} (h : ∀ s : Heap, x.equal s y = b) :
    Evaluates .notEqual x y (!b) := by
  intro call s
  rw [← h s]
  rfl

/-- The operators that compare, applied to two numbers or two strings. "Less" is "greater" the other
way round, and of "less", "equal" and "greater" at most one holds. The operators "less or equal" and
"greater or equal" hold if one of the two that they are named for does, exactly if none of the
values is the undefined float. -/
theorem comparison_coherent_iff (h : x.Comparable y) :
    ∃ less equal greater lessEq greaterEq : Bool,
      Evaluates .less x y less ∧ Evaluates .equal x y equal ∧ Evaluates .greater x y greater ∧
      Evaluates .lessEq x y lessEq ∧ Evaluates .greaterEq x y greaterEq ∧
      Evaluates .notEqual x y (!equal) ∧ Evaluates .greater y x less ∧
      [less, equal, greater].count true ≤ 1 ∧
      ((lessEq = (less || equal) ∧ greaterEq = (greater || equal)) ↔ ¬ (x.IsNaN ∨ y.IsNaN)) := by
  obtain ⟨o, ho⟩ := Value.exists_ordered h
  have hless := evaluates_order (.inl rfl) ho.forward
  have hgreater := evaluates_order (.inr (.inl rfl)) ho.forward
  have hlessEq := evaluates_order (.inr (.inr (.inl rfl))) ho.forward
  have hgreaterEq := evaluates_order (.inr (.inr (.inr rfl))) ho.forward
  have hturned := evaluates_order (.inr (.inl rfl)) ho.backward
  refine ⟨_, _, _, _, _, hless, evaluates_equal ho.equal, hgreater, hlessEq, hgreaterEq,
    evaluates_notEqual ho.equal, ?_, ?_, ?_⟩
  · convert hturned using 1
    cases o with
    | none => rfl
    | some o => cases o <;> rfl
  · cases o with
    | none => decide
    | some o => cases o <;> decide
  · rw [← ho.undefined]
    cases o with
    | none => decide
    | some o => cases o <;> decide

end

/-- The least positive int that is no float, and the float nearest to it. -/
theorem comparison_coherent_rounded :
    (Value.int 9007199254740993).Comparable (.float (Float.ofBits 0x4340000000000000)) ∧
      ∃ less equal greater lessEq greaterEq : Bool,
        let x := Value.int 9007199254740993
        let y := Value.float (Float.ofBits 0x4340000000000000)
        @Evaluates standalone.toHost .less x y less ∧
        @Evaluates standalone.toHost .equal x y equal ∧
        @Evaluates standalone.toHost .greater x y greater ∧
        @Evaluates standalone.toHost .lessEq x y lessEq ∧
        @Evaluates standalone.toHost .greaterEq x y greaterEq ∧
        [less, equal, greater].count true ≤ 1 ∧
        lessEq = (less || equal) ∧ greaterEq = (greater || equal) := by
  have hnumbers : (Value.int 9007199254740993).Comparable
      (.float (Float.ofBits 0x4340000000000000)) := .numbers (.int _) (.float _)
  obtain ⟨less, equal, greater, lessEq, greaterEq, hless, hequal, hgreater, hlessEq, hgreaterEq,
    -, -, hcount, hiff⟩ := @comparison_coherent_iff standalone.toHost _ _ hnumbers
  have hdefined : ¬ ((Value.int 9007199254740993).IsNaN ∨
      (Value.float (Float.ofBits 0x4340000000000000)).IsNaN) := by
    have hfloat : ¬ (Float.ofBits 0x4340000000000000).isNaN = true := by decide
    exact not_or_intro id hfloat
  exact ⟨hnumbers, less, equal, greater, lessEq, greaterEq, hless, hequal, hgreater, hlessEq,
    hgreaterEq, hcount, hiff.2 hdefined⟩

/-- The undefined float is neither less than nor equal to one, but "less or equal" holds. -/
theorem comparison_undefined :
    let x := Value.float Decimal.notANumber
    let y := Value.float (Float.ofBits 0x3FF0000000000000)
    @Evaluates standalone.toHost .lessEq x y true ∧
      @Evaluates standalone.toHost .less x y false ∧
      @Evaluates standalone.toHost .equal x y false := by
  have horder : (Value.float Decimal.notANumber).compare?
      (.float (Float.ofBits 0x3FF0000000000000)) = some .eq := by decide
  have hequal : (Decimal.notANumber == Float.ofBits 0x3FF0000000000000) = false := by
    decide
  exact ⟨@evaluates_order standalone.toHost _ _ _ _ (.inr (.inr (.inl rfl))) horder,
    @evaluates_order standalone.toHost _ _ _ _ (.inl rfl) horder,
    @evaluates_equal standalone.toHost _ _ _ fun _ => hequal⟩

end Stencil
