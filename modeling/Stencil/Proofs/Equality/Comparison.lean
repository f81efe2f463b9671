import Mathlib
import Stencil.Host.Basic
import Stencil.Machine.Equality

/-!
# How values are compared

Equality on heaps of lists and objects over null, truth values, ints and strings. Lists may be
shared, and may contain themselves.

`Compared` tells by rules how two values are compared: lists are looked into as deep as the bound
on the depth allows, element by element, up to the first that differ. A derivation is a comparison
that comes to an end. The main statement, `equal_total_comm`: each two values have exactly one
answer, which does not depend on their order, and each value is equal to itself.
-/

namespace Stencil

/-! ### The values -/

/-- A value of these kinds. -/
inductive Value.IsOrdinary : Value → Prop where
  | null : IsOrdinary .null
  | bool (b) : IsOrdinary (.bool b)
  | int (n) : IsOrdinary (.int n)
  | string (b) : IsOrdinary (.string b)
  | list (id) : IsOrdinary (.list id)
  | object (id) : IsOrdinary (.object id)

/-- The lists of the heap hold such values only. What the fields of its objects hold does not
matter, since objects are not looked into. -/
def Heap.IsOrdinary (s : Heap) : Prop := ∀ id, ∀ v ∈ (s.list id).toList, v.IsOrdinary

/-- Two lists. -/
def Value.AreLists (x y : Value) : Prop := ∃ i j, x = .list i ∧ y = .list j

namespace Value

variable [Host] {s : Heap} {x y : Value} {fuel : Nat}

/-- Values are the same if they are one value. -/
theorem same_iff (hx : x.IsOrdinary) : x.same y = true ↔ x = y := by
  unfold same
  cases hx <;> cases y <;> simp

section

attribute [local simp] equalWithin

/-- Values that are not both lists are equal if they are the same. -/
theorem equalWithin_of_not_lists (hx : x.IsOrdinary) (hy : y.IsOrdinary) (h : ¬ x.AreLists y) :
    x.equalWithin s fuel y = true ↔ x = y := by
  rw [← same_iff hx, equalWithin.eq_6 s fuel x y]
  · rintro m z rfl rfl
    cases hy
  · rintro z n rfl rfl
    cases hx
  · exact fun i j hi hj => h ⟨i, j, hi, hj⟩
  · rintro i j rfl rfl
    cases hx

theorem equalWithin_self (hx : x.IsOrdinary) : x.equalWithin s fuel x = true := by
  by_cases h : x.AreLists x
  · obtain ⟨i, -, rfl, -⟩ := h
    unfold equalWithin
    exact if_pos rfl
  · exact (equalWithin_of_not_lists hx hx h).2 rfl

/-- With no depth left, lists are only equal to themselves. -/
theorem equalWithin_zero {i j : Nat} (h : i ≠ j) :
    (Value.list i).equalWithin s 0 (.list j) = false := by
  simp [h]

/-- Different lists are equal if their elements are, one by one. -/
theorem equalWithin_succ {i j : Nat} (h : i ≠ j) :
    (Value.list i).equalWithin s (fuel + 1) (.list j) =
      (decide ((s.list i).size = (s.list j).size) &&
        ((s.list i).toList.zip (s.list j).toList).all fun p => p.1.equalWithin s fuel p.2) := by
  rw [equalWithin, if_neg h]
  rfl

end

/-- Values are equal if they are one value, or if there is depth left and they are lists whose
elements are equal, one by one. -/
theorem equalWithin_iff (hx : x.IsOrdinary) (hy : y.IsOrdinary) :
    x.equalWithin s fuel y = true ↔ x = y ∨ ∃ i j n, x = .list i ∧ y = .list j ∧ fuel = n + 1 ∧
      List.Forall₂ (fun a b => a.equalWithin s n b = true) (s.list i).toList (s.list j).toList := by
  by_cases hxy : x = y
  · exact iff_of_true (hxy ▸ equalWithin_self hx) (.inl hxy)
  by_cases hlists : x.AreLists y
  · obtain ⟨i, j, rfl, rfl⟩ := hlists
    have hij : i ≠ j := fun h => hxy (h ▸ rfl)
    cases fuel with
    | zero => simp [equalWithin_zero hij, hij]
    | succ n => simp [equalWithin_succ hij, hij, List.forall₂_iff_zip]
  · rw [equalWithin_of_not_lists hx hy hlists]
    refine (or_iff_left ?_).symm
    rintro ⟨i, j, -, hi, hj, -⟩
    exact hlists ⟨i, j, hi, hj⟩

omit [Host] in
/-- What relates the elements of two lists, turned round. -/
theorem forall₂_turned {R S : Value → Value → Prop} {xs ys : List Value}
    (h : List.Forall₂ R xs ys) (hturn : ∀ a ∈ xs, ∀ b ∈ ys, R a b → S b a) :
    List.Forall₂ S ys xs := by
  induction h with
  | nil => exact .nil
  | cons hab _ ih =>
    refine .cons (hturn _ List.mem_cons_self _ List.mem_cons_self hab) (ih fun a ha b hb => ?_)
    exact hturn a (List.mem_cons_of_mem _ ha) b (List.mem_cons_of_mem _ hb)

theorem equalWithin_turned (hs : s.IsOrdinary) (hx : x.IsOrdinary) (hy : y.IsOrdinary)
    (h : x.equalWithin s fuel y = true) : y.equalWithin s fuel x = true := by
  induction fuel generalizing x y with
  | zero =>
    rw [equalWithin_iff hx hy] at h
    obtain rfl | ⟨i, j, n, -, -, hn, -⟩ := h
    · exact equalWithin_self hx
    · cases hn
  | succ n ih =>
    rw [equalWithin_iff hx hy] at h
    obtain rfl | ⟨i, j, n, rfl, rfl, hn, hitems⟩ := h
    · exact equalWithin_self hx
    · cases hn
      refine (equalWithin_iff hy hx).2 (.inr ⟨j, i, n, rfl, rfl, rfl, ?_⟩)
      exact forall₂_turned hitems fun a ha b hb => ih (hs i a ha) (hs j b hb)

/-- The order of the values does not matter. -/
theorem equalWithin_comm (hs : s.IsOrdinary) (hx : x.IsOrdinary) (hy : y.IsOrdinary) :
    x.equalWithin s fuel y = y.equalWithin s fuel x :=
  Bool.eq_iff_iff.2 ⟨equalWithin_turned hs hx hy, equalWithin_turned hs hy hx⟩

end Value

/-! ### Comparison by rules -/

mutual

/-- `Compared s depth x y b`: the comparison of `x` and `y`, with so many lists around them, ends
with the answer `b`. -/
inductive Compared (s : Heap) : Nat → Value → Value → Bool → Prop where
  /-- A value is equal to itself, whatever it contains. -/
  | same (depth x) : Compared s depth x x true
  | other {depth x y} : x ≠ y → ¬ x.AreLists y → Compared s depth x y false
  /-- Lists of different sizes. -/
  | sizes {depth i j} : i ≠ j → (s.list i).size ≠ (s.list j).size →
    Compared s depth (.list i) (.list j) false
  /-- Below the bound on the depth, lists are not looked into. -/
  | deep {depth i j} : i ≠ j → equalityDepth ≤ depth → Compared s depth (.list i) (.list j) false
  | items {depth i j b} : i ≠ j → (s.list i).size = (s.list j).size → depth < equalityDepth →
    ComparedAll s (depth + 1) (s.list i).toList (s.list j).toList b →
    Compared s depth (.list i) (.list j) b

/-- The same for the elements of two lists, from the first to the first that differ. -/
inductive ComparedAll (s : Heap) : Nat → List Value → List Value → Bool → Prop where
  | nil (depth) : ComparedAll s depth [] [] true
  | differ {depth x y xs ys} : Compared s depth x y false →
    ComparedAll s depth (x :: xs) (y :: ys) false
  | agree {depth x y xs ys b} : Compared s depth x y true → ComparedAll s depth xs ys b →
    ComparedAll s depth (x :: xs) (y :: ys) b

end

section

variable [Host] {s : Heap} {depth fuel : Nat}

/-- Where the elements are compared, so are lists of them. -/
theorem comparedAll_iff {xs ys : List Value} {b : Bool}
    (h : ∀ x ∈ xs, ∀ y ∈ ys, ∀ b, Compared s depth x y b ↔ x.equalWithin s fuel y = b)
    (hlength : xs.length = ys.length) :
    ComparedAll s depth xs ys b ↔ ((xs.zip ys).all fun p => p.1.equalWithin s fuel p.2) = b := by
  induction xs generalizing ys with
  | nil =>
    obtain rfl := List.length_eq_zero_iff.1 hlength.symm
    refine ⟨fun hb => ?_, fun hb => ?_⟩
    · cases hb
      rfl
    · cases hb
      exact .nil depth
  | cons x xs ih =>
    obtain ⟨y, ys, rfl⟩ := List.exists_cons_of_length_eq_add_one hlength.symm
    have hfirst := h x List.mem_cons_self y List.mem_cons_self
    have hothers : ∀ x ∈ xs, ∀ y ∈ ys, ∀ b, Compared s depth x y b ↔ x.equalWithin s fuel y = b :=
      fun x hx y hy => h x (List.mem_cons_of_mem _ hx) y (List.mem_cons_of_mem _ hy)
    have hrest := ih hothers (Nat.succ.inj hlength)
    rw [List.zip_cons_cons, List.all_cons]
    refine ⟨fun hb => ?_, fun hb => ?_⟩
    · cases hb with
      | differ hx => rw [(hfirst false).1 hx, Bool.false_and]
      | agree hx hxs => rw [(hfirst true).1 hx, hrest.1 hxs, Bool.true_and]
    · cases hx : x.equalWithin s fuel y with
      | false =>
        rw [hx, Bool.false_and] at hb
        exact hb ▸ .differ ((hfirst false).2 hx)
      | true =>
        rw [hx, Bool.true_and] at hb
        exact .agree ((hfirst true).2 hx) (hrest.2 hb)

omit [Host] in
theorem compared_self_iff {x : Value} {b : Bool} : Compared s depth x x b ↔ true = b := by
  refine ⟨fun h => ?_, fun h => h ▸ .same depth x⟩
  cases h with
  | same => rfl
  | other h | sizes h | deep h | items h => exact absurd rfl h

omit [Host] in
theorem compared_other_iff {x y : Value} {b : Bool} (hxy : x ≠ y) (hlists : ¬ x.AreLists y) :
    Compared s depth x y b ↔ false = b := by
  refine ⟨fun h => ?_, fun h => h ▸ .other hxy hlists⟩
  cases h with
  | same => exact absurd rfl hxy
  | other => rfl
  | sizes | deep | items => exact absurd ⟨_, _, rfl, rfl⟩ hlists

omit [Host] in
theorem compared_lists_iff {i j : Nat} {b : Bool} (hij : i ≠ j) :
    Compared s depth (.list i) (.list j) b ↔
      if depth < equalityDepth ∧ (s.list i).size = (s.list j).size then
        ComparedAll s (depth + 1) (s.list i).toList (s.list j).toList b
      else false = b := by
  have hlists : (Value.list i).AreLists (.list j) := ⟨i, j, rfl, rfl⟩
  split
  case isTrue hdeep =>
    refine ⟨fun h => ?_, fun h => .items hij hdeep.2 hdeep.1 h⟩
    cases h with
    | same => exact absurd rfl hij
    | other _ h => exact absurd hlists h
    | sizes _ h => exact absurd hdeep.2 h
    | deep _ h => exact absurd hdeep.1 (Nat.not_lt.2 h)
    | items _ _ _ h => exact h
  case isFalse hdeep =>
    refine ⟨fun h => ?_, fun h => ?_⟩
    · cases h with
      | same => exact absurd rfl hij
      | other | sizes | deep => rfl
      | items _ hsize hdepth => exact absurd ⟨hdepth, hsize⟩ hdeep
    · by_cases hsize : (s.list i).size = (s.list j).size
      · exact h ▸ .deep hij (Nat.not_lt.1 fun hdepth => hdeep ⟨hdepth, hsize⟩)
      · exact h ▸ .sizes hij hsize

/-- Where no list is looked into, the rules give the answer of the function. -/
theorem compared_iff_of_leaf {x y : Value} (hx : x.IsOrdinary) (hy : y.IsOrdinary)
    (h : x = y ∨ ¬ x.AreLists y) (b : Bool) :
    Compared s depth x y b ↔ x.equalWithin s fuel y = b := by
  by_cases hxy : x = y
  · rw [← hxy, compared_self_iff, Value.equalWithin_self hx]
  · have hlists := h.resolve_left hxy
    have hfalse : x.equalWithin s fuel y = false :=
      Bool.eq_false_iff.2 fun heq => hxy ((Value.equalWithin_of_not_lists hx hy hlists).1 heq)
    rw [compared_other_iff hxy hlists, hfalse]

/-- The rules give the answers of the function, from any depth on. -/
theorem compared_iff (hs : s.IsOrdinary) {x y : Value} (hx : x.IsOrdinary) (hy : y.IsOrdinary)
    (hdepth : depth + fuel = equalityDepth) (b : Bool) :
    Compared s depth x y b ↔ x.equalWithin s fuel y = b := by
  induction fuel generalizing depth x y b with
  | zero =>
    by_cases hleaf : x = y ∨ ¬ x.AreLists y
    · exact compared_iff_of_leaf hx hy hleaf b
    · obtain ⟨hxy, i, j, rfl, rfl⟩ := by simpa using hleaf
      have hij : i ≠ j := fun h => hxy (h ▸ rfl)
      rw [compared_lists_iff hij, Value.equalWithin_zero hij, if_neg fun h => absurd h.1 (by omega)]
  | succ n ih =>
    by_cases hleaf : x = y ∨ ¬ x.AreLists y
    · exact compared_iff_of_leaf hx hy hleaf b
    · obtain ⟨hxy, i, j, rfl, rfl⟩ := by simpa using hleaf
      have hij : i ≠ j := fun h => hxy (h ▸ rfl)
      rw [compared_lists_iff hij, Value.equalWithin_succ hij]
      by_cases hsize : (s.list i).size = (s.list j).size
      · rw [if_pos ⟨by omega, hsize⟩, decide_eq_true hsize, Bool.true_and]
        exact comparedAll_iff (fun a ha c hc => ih (hs i a ha) (hs j c hc) (by omega))
          (by simpa using hsize)
      · rw [if_neg fun h => hsize h.2, decide_eq_false hsize, Bool.false_and]

/-- Whatever the lists of a heap contain, themselves not excluded, the comparison of two values
ends, and with one answer only; it is that of the other order; and a value is equal to itself. -/
theorem equal_total_comm (hs : s.IsOrdinary) {x y : Value} (hx : x.IsOrdinary)
    (hy : y.IsOrdinary) :
    (∀ b, Compared s 0 x y b ↔ x.equal s y = b) ∧ x.equal s y = y.equal s x ∧
      x.equal s x = true :=
  ⟨compared_iff hs hx hy (Nat.zero_add _), Value.equalWithin_comm hs hx hy,
    Value.equalWithin_self hx⟩

end

/-- Lists that contain themselves, directly or through each other: where one is compared with
another, it is the bound on the depth that ends the comparison. -/
theorem equal_total_comm_cyclic :
    let s : Heap := {
      lists := #[#[.list 0, .int 1], #[.list 1, .int 1], #[.list 3], #[.null, .object 0, .list 2]]
      objects := #[[([102], .list 2)]] }
    s.IsOrdinary ∧ Compared s 0 (.list 0) (.list 1) false ∧
      @Value.equal standalone.toHost s (.list 2) (.list 3) =
        @Value.equal standalone.toHost s (.list 3) (.list 2) ∧
      @Value.equal standalone.toHost s (.list 0) (.list 0) = true := by
  intro s
  have hs : s.IsOrdinary := by
    rintro (_ | _ | _ | _ | id) v hv
    · obtain rfl | rfl : v = .list 0 ∨ v = .int 1 := by simpa [s, Heap.list] using hv
      · exact .list 0
      · exact .int 1
    · obtain rfl | rfl : v = .list 1 ∨ v = .int 1 := by simpa [s, Heap.list] using hv
      · exact .list 1
      · exact .int 1
    · obtain rfl : v = .list 3 := by simpa [s, Heap.list] using hv
      exact .list 3
    · obtain rfl | rfl | rfl : v = .null ∨ v = .object 0 ∨ v = .list 2 := by
        simpa [s, Heap.list] using hv
      · exact .null
      · exact .object 0
      · exact .list 2
    · simp [s, Heap.list] at hv
  obtain ⟨hcompared, -, hself⟩ :=
    @equal_total_comm standalone.toHost s hs _ _ (.list 0) (.list 1)
  obtain ⟨-, hcomm, -⟩ := @equal_total_comm standalone.toHost s hs _ _ (.list 2) (.list 3)
  exact ⟨hs, (hcompared false).2 (by decide), hcomm, hself⟩

end Stencil
