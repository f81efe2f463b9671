import Stencil.Machine.Iteration
import Stencil.Proofs.Equality.Order
import Stencil.Proofs.Machine.Exits

/-!
# The order of the keys of a map

The keys of a host map are met in an order that may differ each time, and are sorted before a
program sees them. Sorting makes up for the order in which they are met exactly if all keys are told
apart (`iteration_order_exact_iff`). Ints, strings and bools are; an undefined float is not told
apart from any float, nor are keys of other types that have the same printed form.

The same is so of what a program sees of the keys, if keys count as the same that it sees as the same
value (`map_sortKeys_eq_iff`), and that is what an iteration over the map goes through
(`iterate_map_sorted`).
-/

namespace Stencil

/-! ### Sorting by a relation with strays -/

section Sorting

variable {α β : Type} {le low : α → α → Bool} {stray : α → Bool} {keys : List α} {f : α → β}

/-- The elements are ordered by `low`, but for the strays, which pass for less than or equal to
everything and for greater than or equal to it as well. -/
structure SortsBut (stray : α → Bool) (low le : α → α → Bool) (keys : List α) : Prop where
  trans : ∀ a b c, low a b = true → low b c = true → low a c = true
  total : ∀ a b, (low a b || low b a) = true
  le_iff : ∀ a ∈ keys, ∀ b ∈ keys, le a b = true ↔ stray a = true ∨ stray b = true ∨ low a b = true

/-- Strays first, and the others in their order. -/
def straysFirst (stray : α → Bool) (low : α → α → Bool) (a b : α) : Bool :=
  stray a || (!stray b && low a b)

theorem pairwise_straysFirst (stray : α → Bool)
    (htrans : ∀ a b c, low a b = true → low b c = true → low a c = true)
    (htotal : ∀ a b, (low a b || low b a) = true) (keys : List α) :
    (keys.mergeSort (straysFirst stray low)).Pairwise
      fun a b => straysFirst stray low a b = true := by
  refine List.pairwise_mergeSort (fun a b c hab hbc => ?_) (fun a b => ?_) keys
  · simp only [straysFirst, Bool.or_eq_true, Bool.and_eq_true, Bool.not_eq_true'] at hab hbc ⊢
    obtain ha | ⟨hb, hab⟩ := hab
    · exact .inl ha
    · obtain hb' | ⟨hc, hbc⟩ := hbc
      · rw [hb] at hb'
        cases hb'
      · exact .inr ⟨hc, htrans a b c hab hbc⟩
  · have := htotal a b
    unfold straysFirst
    cases stray a <;> cases stray b <;> simp_all

theorem SortsBut.exists_pairwise (h : SortsBut stray low le keys) :
    ∃ r : List α, r.Perm keys ∧ r.Pairwise fun a b => le a b = true := by
  have hsorted := pairwise_straysFirst stray h.trans h.total keys
  refine ⟨_, List.mergeSort_perm .., hsorted.imp_of_mem fun {a b} ha hb hab => ?_⟩
  refine (h.le_iff a (List.mem_mergeSort.1 ha) b (List.mem_mergeSort.1 hb)).2 ?_
  simp only [straysFirst, Bool.or_eq_true, Bool.and_eq_true] at hab
  exact hab.imp id fun h => .inr h.2

theorem eq_of_cons_eq_concat {a : α} {l : List α} (h : a :: l = l ++ [a]) : ∀ b ∈ l, b = a := by
  induction l with
  | nil => exact fun b hb => absurd hb List.not_mem_nil
  | cons c l ih =>
    obtain ⟨rfl, h⟩ := List.cons.inj h
    exact List.forall_mem_cons.2 ⟨rfl, ih h⟩

/-- Two elements that pass for equal are exchanged in a sorted list. -/
theorem SortsBut.exchange (h : SortsBut stray low le keys) {a b : α} {s t u : List α}
    (hmem : ∀ c ∈ s ++ a :: (t ++ b :: u), c ∈ keys) (ha : stray a = false) (hb : stray b = false)
    (hab : le a b = true) (hba : le b a = true)
    (hsorted : (s ++ a :: (t ++ b :: u)).Pairwise fun a b => le a b = true) :
    (s ++ b :: (t ++ a :: u)).Pairwise fun a b => le a b = true := by
  have hamem : a ∈ keys := hmem a (by simp)
  have hbmem : b ∈ keys := hmem b (by simp)
  have hlow : low a b = true ∧ low b a = true := by
    have h₁ := (h.le_iff a hamem b hbmem).1 hab
    have h₂ := (h.le_iff b hbmem a hamem).1 hba
    simpa [ha, hb] using And.intro h₁ h₂
  -- Whatever is below or above the one is below or above the other.
  have hright {c : α} (hc : c ∈ keys) : le a c = true ↔ le b c = true := by
    rw [h.le_iff a hamem c hc, h.le_iff b hbmem c hc, ha, hb]
    exact or_congr .rfl (or_congr .rfl ⟨h.trans b a c hlow.2, h.trans a b c hlow.1⟩)
  have hleft {c : α} (hc : c ∈ keys) : le c a = true ↔ le c b = true := by
    rw [h.le_iff c hc a hamem, h.le_iff c hc b hbmem, ha, hb]
    exact or_congr .rfl (or_congr .rfl ⟨fun hca => h.trans c a b hca hlow.1,
      fun hcb => h.trans c b a hcb hlow.2⟩)
  simp only [List.pairwise_append, List.pairwise_cons, List.mem_append, List.mem_cons]
    at hsorted hmem ⊢
  obtain ⟨hs, ⟨haright, ht, ⟨hu, hupw⟩, htu⟩, hleft'⟩ := hsorted
  have inT {c : α} (hc : c ∈ t) : c ∈ keys := hmem c (.inr (.inr (.inl hc)))
  have inU {c : α} (hc : c ∈ u) : c ∈ keys := hmem c (.inr (.inr (.inr (.inr hc))))
  refine ⟨hs, ⟨?_, ht, ⟨fun c hc => (hright (inU hc)).2 (hu c hc), hupw⟩, ?_⟩, ?_⟩
  · rintro c (hc | rfl | hc)
    · exact (hright (inT hc)).1 (haright c (.inl hc))
    · exact hba
    · exact hu c hc
  · rintro c hc d (rfl | hd)
    · exact (hleft (inT hc)).2 (htu c hc _ (.inl rfl))
    · exact htu c hc d (.inr hd)
  · rintro c hc d (rfl | hd | rfl | hd)
    · exact hleft' c hc _ (.inr (.inr (.inl rfl)))
    · exact hleft' c hc d (.inr (.inl hd))
    · exact hleft' c hc _ (.inl rfl)
    · exact hleft' c hc d (.inr (.inr (.inr hd)))

/-- Lists of the same elements, both sorted and without strays, are the same seen through a function
that does not tell elements apart that pass for equal. -/
theorem SortsBut.map_eq_of_pairwise (h : SortsBut stray low le keys)
    (hplain : ∀ a ∈ keys, stray a = false)
    (hties : ∀ a ∈ keys, ∀ b ∈ keys, le a b = true → le b a = true → f a = f b) {l l' : List α}
    (hmem : ∀ a ∈ l, a ∈ keys) (hperm : l.Perm l') (hl : l.Pairwise fun a b => le a b = true)
    (hl' : l'.Pairwise fun a b => le a b = true) : l.map f = l'.map f := by
  induction l generalizing l' with
  | nil => rw [hperm.nil_eq]
  | cons a l ih =>
    have hl₁ := (List.pairwise_cons.1 hl).2
    have hmem₁ : ∀ c ∈ l, c ∈ keys := fun c hc => hmem c (.tail a hc)
    obtain ⟨s, u, rfl⟩ := List.append_of_mem (hperm.mem_iff.1 (List.mem_cons_self ..))
    cases s with
    | nil => rw [List.nil_append, List.map_cons, List.map_cons,
        ih hmem₁ (List.perm_cons a |>.1 hperm) hl₁ (List.pairwise_cons.1 hl').2]
    | cons b s =>
      -- the first elements pass for equal, so that the one may stand where the other does
      have hb : b ∈ l ∨ b = a := (List.mem_cons.1 (hperm.mem_iff.2 (.head _))).symm
      have hbkeys : b ∈ keys := hmem b (hperm.mem_iff.2 (.head _))
      have hba : le b a = true := (List.pairwise_cons.1 hl').1 a (by simp)
      have hab : le a b = true := by
        obtain hb | rfl := hb
        · exact (List.pairwise_cons.1 hl).1 b hb
        · exact hba
      have hf : f a = f b := hties a (hmem a (.head _)) b hbkeys hab hba
      have hswap : (a :: (s ++ b :: u)).Pairwise fun a b => le a b = true :=
        h.exchange (s := []) (fun c hc => hmem c (hperm.mem_iff.2 hc)) (hplain b hbkeys)
          (hplain a (hmem a (.head _))) hba hab hl'
      have hrest : l.Perm (s ++ b :: u) := by
        refine List.perm_cons a |>.1 (hperm.trans ?_)
        refine (List.perm_middle.cons b).trans ((List.Perm.swap a b _).trans ?_)
        exact List.perm_middle.symm.cons a
      rw [List.map_cons, ih hmem₁ hrest hl₁ (List.pairwise_cons.1 hswap).2]
      simp [hf]

/-- Where elements that pass for equal are the same seen through a function, so are the sorted lists for
all orders. -/
theorem SortsBut.map_mergeSort_eq (h : SortsBut stray low le keys)
    (hties : ∀ a ∈ keys, ∀ b ∈ keys, le a b = true → le b a = true → f a = f b) {l : List α}
    (hl : l.Perm keys) : (l.mergeSort le).map f = (keys.mergeSort le).map f := by
  by_cases hstray : ∃ a ∈ keys, stray a = true
  · obtain ⟨a, ha, hstray⟩ := hstray
    have hall {l' : List α} (hl' : l'.Perm keys) :
        (l'.mergeSort le).map f = List.replicate keys.length (f a) := by
      refine List.eq_replicate_iff.2 ⟨?_, List.forall_mem_map.2 fun b hb => ?_⟩
      · rw [List.length_map, List.length_mergeSort, hl'.length_eq]
      · have hb := hl'.mem_iff.1 (List.mem_mergeSort.1 hb)
        exact hties b hb a ha ((h.le_iff b hb a ha).2 (.inr (.inl hstray)))
          ((h.le_iff a ha b hb).2 (.inl hstray))
    rw [hall hl, hall .rfl]
  · have hplain : ∀ a ∈ keys, stray a = false := fun a ha =>
      Bool.eq_false_iff.2 fun hs => hstray ⟨a, ha, hs⟩
    have sorted {l' : List α} (hl' : l'.Perm keys) :
        (l'.mergeSort le).Pairwise fun a b => le a b = true := by
      have hle : ∀ a ∈ l', ∀ b ∈ l', le a b = low a b := by
        intro a ha b hb
        have ha := hl'.mem_iff.1 ha
        have hb := hl'.mem_iff.1 hb
        rw [Bool.eq_iff_iff, h.le_iff a ha b hb, hplain a ha, hplain b hb]
        simp
      have hsort := List.map_mergeSort (f := id) hle
      rw [List.map_id, List.map_id] at hsort
      rw [hsort]
      refine (List.pairwise_mergeSort h.trans h.total l').imp_of_mem fun {a b} ha hb hab => ?_
      rw [hle a (List.mem_mergeSort.1 ha) b (List.mem_mergeSort.1 hb)]
      exact hab
    have hperm : (l.mergeSort le).Perm (keys.mergeSort le) :=
      (List.mergeSort_perm ..).trans (hl.trans (List.mergeSort_perm ..).symm)
    exact h.map_eq_of_pairwise hplain hties
      (fun a ha => hl.mem_iff.1 (List.mem_mergeSort.1 ha)) hperm (sorted hl) (sorted .rfl)

/-- **Sorting makes up for the order of the elements,** as far as a function shows them, exactly if it
shows no difference between elements that pass for equal. -/
theorem SortsBut.map_mergeSort_eq_iff (h : SortsBut stray low le keys) :
    (∀ l l' : List α, l.Perm keys → l'.Perm keys →
      (l.mergeSort le).map f = (l'.mergeSort le).map f) ↔
      ∀ a ∈ keys, ∀ b ∈ keys, le a b = true → le b a = true → f a = f b := by
  refine ⟨fun hsame => ?_, fun hties l l' hl hl' => ?_⟩
  · obtain ⟨r, hr, hsorted⟩ := h.exists_pairwise
    have unique {l l' : List α} (hl : l.Perm keys) (hl' : l'.Perm keys)
        (hpw : l.Pairwise fun a b => le a b = true)
        (hpw' : l'.Pairwise fun a b => le a b = true) : l.map f = l'.map f := by
      have h := hsame l l' hl hl'
      rwa [List.mergeSort_of_pairwise hpw, List.mergeSort_of_pairwise hpw'] at h
    -- A stray may stand at either end of a sorted list.
    have alone {a b : α} (ha : a ∈ keys) (hb : b ∈ keys) (hstray : stray a = true) : f b = f a := by
      obtain ⟨s, t, rfl⟩ := List.append_of_mem (hr.mem_iff.2 ha)
      have hrest : (s ++ t).Pairwise fun a b => le a b = true :=
        hsorted.sublist ((List.sublist_cons_self a t).append_left s)
      have hmem {c : α} (hc : c ∈ s ++ t) : c ∈ keys :=
        hr.mem_iff.1 (by simp only [List.mem_append, List.mem_cons] at hc ⊢; exact hc.imp id .inr)
      have hfirst : (a :: (s ++ t)).Pairwise fun a b => le a b = true :=
        List.pairwise_cons.2 ⟨fun c hc => (h.le_iff a ha c (hmem hc)).2 (.inl hstray), hrest⟩
      have hlast : (s ++ t ++ [a]).Pairwise fun a b => le a b = true := by
        refine List.pairwise_append.2 ⟨hrest, List.pairwise_singleton .., fun c hc d hd => ?_⟩
        obtain rfl := List.mem_singleton.1 hd
        exact (h.le_iff c (hmem hc) _ ha).2 (.inr (.inl hstray))
      have hp : (a :: (s ++ t)).Perm keys := List.perm_middle.symm.trans hr
      have heq := unique hp ((List.perm_append_singleton a (s ++ t)).trans hp) hfirst hlast
      rw [List.map_cons, show (s ++ t ++ [a]).map f = (s ++ t).map f ++ [f a] from List.map_append] at heq
      obtain rfl | hb := List.mem_cons.1 (hp.mem_iff.2 hb)
      · rfl
      · exact eq_of_cons_eq_concat heq (f b) (List.mem_map_of_mem hb)
    -- Others that pass for equal may be exchanged.
    have apart {a b : α} {s t u : List α} (hr' : r = s ++ a :: (t ++ b :: u))
        (ha : stray a = false) (hb : stray b = false) (hab : le a b = true)
        (hba : le b a = true) : f a = f b := by
      subst hr'
      have hswap := h.exchange (fun c => hr.mem_iff.1) ha hb hab hba hsorted
      have hperm : (s ++ b :: (t ++ a :: u)).Perm (s ++ a :: (t ++ b :: u)) := by
        refine List.Perm.append_left s ?_
        refine (List.perm_middle.cons b).trans ((List.Perm.swap a b _).trans ?_)
        exact List.perm_middle.symm.cons a
      have heq := unique hr (hperm.trans hr) hsorted hswap
      rw [List.map_append, List.map_append, List.map_cons, List.map_cons] at heq
      exact (List.cons.inj (List.append_cancel_left heq)).1
    intro a ha b hb hab hba
    cases hsa : stray a with
    | true => exact (alone ha hb hsa).symm
    | false =>
      cases hsb : stray b with
      | true => exact alone hb ha hsb
      | false =>
        obtain ⟨s, t, hst⟩ := List.append_of_mem (hr.mem_iff.2 ha)
        have hb' := hr.mem_iff.2 hb
        rw [hst, List.mem_append, List.mem_cons] at hb'
        obtain hb' | rfl | hb' := hb'
        · obtain ⟨s₁, s₂, rfl⟩ := List.append_of_mem hb'
          rw [List.append_assoc, List.cons_append] at hst
          exact (apart hst hsb hsa hba hab).symm
        · rfl
        · obtain ⟨t₁, t₂, rfl⟩ := List.append_of_mem hb'
          exact apart hst hsa hsb hab hba
  · rw [h.map_mergeSort_eq hties hl, h.map_mergeSort_eq hties hl']

end Sorting

/-! ### The order of floats -/

open Float.Model (UnpackedFloat)

/-- Where a number or an infinity stands in the order of floats: by sign and kind, then by exponent,
then by mantissa. -/
def floatRank : UnpackedFloat → ℤ ×ₗ ℤ ×ₗ ℤ
  | .infinity .negative => toLex (-2, toLex (0, 0))
  | .finite .negative m e _ => toLex (-1, toLex (-e, -m))
  | .zero _ | .notANumber => toLex (0, toLex (0, 0))
  | .finite .positive m e _ => toLex (1, toLex (e, m))
  | .infinity .positive => toLex (2, toLex (0, 0))

theorem compare_then_eq_lt {e e' : ℤ} {m m' : ℕ} :
    (compare e e').then (compare m m') = .lt ↔ e < e' ∨ e = e' ∧ m < m' := by
  rw [Ordering.then_eq_lt, compare_lt_iff_lt, compare_lt_iff_lt, compare_eq_iff_eq]

theorem compare_eq_lt_iff {a b : UnpackedFloat} (ha : a.isNaN = false) (hb : b.isNaN = false) :
    a.compare b = some .lt ↔ floatRank a < floatRank b := by
  have hne : b ≠ .notANumber := by
    rintro rfl
    cases hb
  cases a with
  | notANumber => cases ha
  | infinity s =>
    cases s <;> rcases b with ⟨⟨⟩⟩ | _ | _ | ⟨⟨⟩, _, _, _⟩ <;>
      first
      | exact absurd rfl hne
      | simp +decide [UnpackedFloat.compare, floatRank, Prod.Lex.toLex_lt_toLex]
  | zero s =>
    rcases b with ⟨⟨⟩⟩ | _ | _ | ⟨⟨⟩, _, _, _⟩ <;>
      first
      | exact absurd rfl hne
      | simp [UnpackedFloat.compare, floatRank, Prod.Lex.toLex_lt_toLex]
  | finite s m e =>
    cases s <;> rcases b with ⟨⟨⟩⟩ | _ | _ | ⟨⟨⟩, _, _, _⟩ <;>
      first
      | exact absurd rfl hne
      | simp [UnpackedFloat.compare, floatRank, Prod.Lex.toLex_lt_toLex, compare_then_eq_lt,
          Ordering.swap_then, Int.compare_swap, Nat.compare_swap, @eq_comm ℤ]

theorem float_not_lt_iff {x y : Float} : (!decide (y < x)) = true ↔
    x.isNaN = true ∨ y.isNaN = true ∨ floatRank x.toModel.unpack ≤ floatRank y.toModel.unpack := by
  rw [Bool.not_eq_true', decide_eq_false_iff_not, float_lt_iff]
  cases hx : x.isNaN with
  | true => simp [floatOrdering_eq_none_iff.2 (.inr hx)]
  | false =>
    cases hy : y.isNaN with
    | true => simp [floatOrdering_eq_none_iff.2 (.inl hy)]
    | false =>
      have hlt : floatOrdering y x = some .lt ↔ _ := compare_eq_lt_iff hy hx
      simp [hlt]

/-- Each of two floats passes for less than or equal to the other one. -/
theorem float_alike_iff {x y : Float} : (x.isNaN = true ∨ y.isNaN = true ∨ (x == y) = true) ↔
    (!decide (y < x)) = true ∧ (!decide (x < y)) = true := by
  rw [Bool.not_eq_true', Bool.not_eq_true', decide_eq_false_iff_not, decide_eq_false_iff_not,
    float_lt_iff, float_lt_iff, float_beq_iff, ← or_assoc, ← floatOrdering_eq_none_iff,
    floatOrdering_swap (x := x)]
  cases floatOrdering x y with
  | none => simp
  | some o => cases o <;> simp

/-! ### Keys -/

/-- What a key is sorted as: a number, or the text it is printed as. -/
inductive KeyKind where
  | int | float | printed
  deriving DecidableEq, Repr

namespace Datum

/-- What a key is sorted as. -/
def keyKind : Datum → KeyKind
  | .int _ => .int
  | .float _ => .float
  | _ => .printed

/-- The int of a key that is one. -/
def intKey : Datum → ℤ
  | .int n => n
  | _ => 0

/-- The float of a key that is one. -/
def floatKey : Datum → Float
  | .float x => x
  | _ => 0

variable [Host] {s : Heap} {t : HostType} {d : Datum} {keys : List Datum} {k : KeyKind}

/-- The printed form of a key. -/
def keyText (s : Heap) (t : HostType) (d : Datum) : Bytes := datumText s s.depthBound true t d

/-- Two keys, sorted as `k`, are not told apart. -/
def Alike (s : Heap) (t : HostType) (k : KeyKind) (a b : Datum) : Prop :=
  match k with
  | .int => a.intKey = b.intKey
  | .float => a.floatKey.isNaN = true ∨ b.floatKey.isNaN = true ∨
      (a.floatKey == b.floatKey) = true
  | .printed => a.keyText s t = b.keyText s t

/-- Keys that are undefined floats. -/
def isStray (k : KeyKind) (d : Datum) : Bool :=
  match k with
  | .float => d.floatKey.isNaN
  | _ => false

/-- The order of the keys that are told apart. -/
def keyLow (s : Heap) (t : HostType) (k : KeyKind) (a b : Datum) : Bool :=
  match k with
  | .int => a.intKey ≤ b.intKey
  | .float => floatRank a.floatKey.toModel.unpack ≤ floatRank b.floatKey.toModel.unpack
  | .printed => Bytes.le (a.keyText s t) (b.keyText s t)

theorem iterationLe_printed {a b : Datum} (ha : a.keyKind = .printed) :
    iterationLe s t a b = Bytes.le (a.keyText s t) (b.keyText s t) := by
  cases a <;> cases b <;> first | rfl | nomatch ha

/-- Keys of one kind are ordered, but for undefined floats. -/
theorem sortsBut_keys (h : ∀ a ∈ keys, a.keyKind = k) :
    SortsBut (isStray k) (keyLow s t k) (iterationLe s t) keys where
  trans a b c hab hbc := by
    cases k with
    | int => exact decide_eq_true ((of_decide_eq_true hab).trans (of_decide_eq_true hbc))
    | float => exact decide_eq_true ((of_decide_eq_true hab).trans (of_decide_eq_true hbc))
    | printed => exact Bytes.le_trans hab hbc
  total a b := by
    cases k with
    | int => simpa [keyLow] using le_total a.intKey b.intKey
    | float => simpa [keyLow] using le_total (floatRank a.floatKey.toModel.unpack) _
    | printed => exact Bytes.le_total _ _
  le_iff a ha b hb := by
    have ha := h a ha
    have hb := h b hb
    cases k with
    | int =>
      cases a <;> cases ha
      cases b <;> cases hb
      simp only [isStray, Bool.false_eq_true, false_or]
      rfl
    | float =>
      cases a <;> cases ha
      cases b <;> cases hb
      rw [isStray, isStray, keyLow, decide_eq_true_iff]
      exact float_not_lt_iff
    | printed => simp [isStray, keyLow, iterationLe_printed ha]

/-- The keys that pass for equal are those that are not told apart. -/
theorem alike_iff {a b : Datum} (ha : a.keyKind = k) (hb : b.keyKind = k) :
    a.Alike s t k b ↔ iterationLe s t a b = true ∧ iterationLe s t b a = true := by
  cases k with
  | int =>
    cases a <;> cases ha
    cases b <;> cases hb
    simp [Alike, iterationLe, intKey, Int.le_antisymm_iff]
  | float =>
    cases a <;> cases ha
    cases b <;> cases hb
    exact float_alike_iff
  | printed =>
    rw [iterationLe_printed ha, iterationLe_printed hb, Alike]
    exact ⟨fun h => h ▸ ⟨Bytes.le_refl _, Bytes.le_refl _⟩, fun h => Bytes.le_antisymm h.1 h.2⟩

end Datum

section

variable [Host] {s : Heap} {t : HostType} {d : Datum} {keys : List Datum} {k : KeyKind}

/-- Keys come in the same order as a function shows them, in whatever order they are met, exactly if it
shows no difference between keys that are not told apart. -/
theorem map_sortKeys_eq_iff {β : Type} {f : Datum → β} (h : ∀ a ∈ keys, a.keyKind = k) :
    (∀ l l' : List Datum, l.Perm keys → l'.Perm keys →
      (sortKeys s t l).map f = (sortKeys s t l').map f) ↔
      ∀ a ∈ keys, ∀ b ∈ keys, a.Alike s t k b → f a = f b := by
  refine (Datum.sortsBut_keys h).map_mergeSort_eq_iff.trans ?_
  refine forall₂_congr fun a ha => forall₂_congr fun b hb => ?_
  rw [Datum.alike_iff (h a ha) (h b hb), and_imp]

/-- **The keys of a map come in the same order, in whatever order they are met,** exactly if all of
them are told apart. -/
theorem iteration_order_exact_iff (h : ∀ a ∈ keys, a.keyKind = k) :
    (∀ l l' : List Datum, l.Perm keys → l'.Perm keys → sortKeys s t l = sortKeys s t l') ↔
      ∀ a ∈ keys, ∀ b ∈ keys, a.Alike s t k b → a = b := by
  simpa only [List.map_id, id] using map_sortKeys_eq_iff (f := id) h

/-- Two keys that pass for less than or equal to each other keep the order in which they are met. -/
theorem sortKeys_pair {a b : Datum} (h : iterationLe s t a b = true) :
    sortKeys s t [a, b] = [a, b] :=
  List.mergeSort_of_pairwise (List.pairwise_pair.2 h)

end

/-- Two ints are told apart. -/
theorem iteration_order_ints :
    (∀ a ∈ [Datum.int 2, .int (-1)], a.keyKind = .int) ∧
      ∀ l l' : List Datum, l.Perm [.int 2, .int (-1)] → l'.Perm [.int 2, .int (-1)] →
        @sortKeys standalone.toHost {} (.int .int) l =
          @sortKeys standalone.toHost {} (.int .int) l' := by
  have hkind : ∀ a ∈ [Datum.int 2, .int (-1)], a.keyKind = .int := by simp [Datum.keyKind]
  refine ⟨hkind, (@iteration_order_exact_iff standalone.toHost _ _ _ _ hkind).2 ?_⟩
  simp [Datum.Alike, Datum.intKey]

/-- An undefined float is not told apart from one. -/
theorem iteration_order_undefined :
    let undefined := Datum.float Decimal.notANumber
    let one := Datum.float (Float.ofBits 0x3FF0000000000000)
    @sortKeys standalone.toHost {} .float64 [undefined, one] = [undefined, one] ∧
      @sortKeys standalone.toHost {} .float64 [one, undefined] = [one, undefined] :=
  ⟨@sortKeys_pair standalone.toHost _ _ _ _ (by decide),
    @sortKeys_pair standalone.toHost _ _ _ _ (by decide)⟩

/-- Among keys of any type, the int one and the text of it are not told apart. -/
theorem iteration_order_printed :
    let number := Datum.any (.int 1)
    let text := Datum.any (.string "1")
    @sortKeys standalone.toHost {} .any [number, text] = [number, text] ∧
      @sortKeys standalone.toHost {} .any [text, number] = [text, number] :=
  ⟨@sortKeys_pair standalone.toHost _ _ _ _ (by decide_cbv),
    @sortKeys_pair standalone.toHost _ _ _ _ (by decide_cbv)⟩

/-! ### What a program sees -/

section

variable [Host] {fuel cursor : Nat} {call : Callback} {s : Store} {t u v : HostType} {k : KeyKind}

/-- The elements of a sequence with positions. -/
def Value.items (s : Heap) : Value → List Value
  | .host t d => if Host.isSequence t then [] else (d.items s).map (Value.fromSlot t.elem)
  | .repeated _ _ items _ =>
    ((items.map fun id => s.fieldLists.getD id #[]).getD #[]).toList.map FieldValue.value
  | _ => []

/-- What a cursor over a list or a sequence with positions has before it. -/
def Cursor.ahead (s : Heap) : Cursor → List Value
  | .list l i => (s.list l).toList.drop i
  | .sequence v i => (v.items s).drop i
  | _ => []

/-- The element that a cursor comes to after others. -/
def elementAfter (fuel cursor : Nat) : Nat → Job (Option Value)
  | 0 => advance fuel cursor
  | i + 1 => do
    let _ ← advance fuel cursor
    elementAfter fuel cursor i

theorem sequenceItem_eq {x y : Value} {i : Nat} {rest : List Value} {h : Heap}
    (hx : (x.items h).drop i = y :: rest) : sequenceItem h x i = some y := by
  have hy : (x.items h)[i]? = some y := by
    rw [← List.head?_drop, hx, List.head?_cons]
  cases x with
  | host t d =>
    rw [Value.items] at hy
    split at hy
    · cases hy
    · next hseq =>
      rw [sequenceItem, Value.length?, if_neg hseq, ← List.getElem?_map]
      exact hy
  | repeated owner number items stamp =>
    cases items with
    | none => cases hy
    | some id =>
      have hy' : ((h.fieldLists.getD id #[]).toList.map FieldValue.value)[i]? = some y := hy
      rw [List.getElem?_map, Array.getElem?_toList] at hy'
      obtain ⟨z, hz, rfl⟩ := Option.map_eq_some_iff.1 hy'
      obtain ⟨hlt, -⟩ := Array.getElem?_eq_some_iff.1 hz
      have hitem : sequenceItem h (.repeated owner number (some id) stamp) i =
          if i < (h.fieldLists.getD id #[]).size then
            some (((((h.fieldLists.getD id #[])[i]?).map FieldValue.value)).getD .null)
          else none := rfl
      rw [hitem, if_pos hlt, hz]
      rfl
  | _ => cases hy

/-- A cursor comes to what is before it. -/
theorem run_advance_ahead (fuel : Nat) (call : Callback) {c : Cursor} {x : Value} {rest : List Value}
    (hc : s.cursors[cursor]? = some c) (hx : c.ahead s.toHeap = x :: rest) :
    ∃ c' : Cursor, c'.ahead s.toHeap = rest ∧ (advance fuel cursor).run call s =
      .ok (some x) { s with cursors := s.cursors.setIfInBounds cursor c' } := by
  have hget : s.cursors.getD cursor default = c := by
    rw [Array.getD_eq_getD_getElem?, hc, Option.getD_some]
  have hrun : (advance fuel cursor).run call s = (nextPlain cursor c).run call s := by
    rw [advance, run_bind_ok run_get, nextElement, run_bind_ok run_get, hget]
    cases c with
    | filtered => cases hx
    | _ => rfl
  have hrest {l : List Value} {i : Nat} (hl : l.drop i = x :: rest) : l.drop (i + 1) = rest := by
    rw [← List.drop_drop, hl, List.drop_succ_cons, List.drop_zero]
  rw [hrun]
  cases c with
  | list l i =>
    refine ⟨.list l (i + 1), hrest hx, ?_⟩
    have hitem : (s.list l)[i]? = some x := by
      rw [← Array.getElem?_toList, ← List.head?_drop]
      exact congrArg List.head? hx
    rw [nextPlain, run_bind_ok run_get, hitem]
    rfl
  | sequence v i =>
    refine ⟨.sequence v (i + 1), hrest hx, ?_⟩
    rw [nextPlain, run_bind_ok run_get, sequenceItem_eq hx]
    rfl
  | _ => cases hx

/-- Where cursors are does not matter for what is before one. -/
theorem ahead_cursors (c : Cursor) (h : Heap) (cursors : Array Cursor) :
    c.ahead { h with cursors } = c.ahead h := by
  cases c with
  | sequence x i => cases x <;> rfl
  | _ => rfl

/-- So it comes to all of that in order. -/
theorem run_elementAfter (fuel : Nat) (call : Callback) {c : Cursor} {x : Value} {i : Nat}
    (hc : s.cursors[cursor]? = some c) (hx : (c.ahead s.toHeap)[i]? = some x) :
    ∃ s', (elementAfter fuel cursor i).run call s = .ok (some x) s' := by
  induction i generalizing s c with
  | zero =>
    cases hl : c.ahead s.toHeap with
    | nil =>
      rw [hl] at hx
      cases hx
    | cons y rest =>
      rw [hl] at hx
      obtain rfl : y = x := Option.some.inj hx
      obtain ⟨c', -, hrun⟩ := run_advance_ahead fuel call hc hl
      exact ⟨_, hrun⟩
  | succ i ih =>
    cases hl : c.ahead s.toHeap with
    | nil =>
      rw [hl] at hx
      cases hx
    | cons y rest =>
      rw [hl] at hx
      obtain ⟨c', hc', hrun⟩ := run_advance_ahead fuel call hc hl
      obtain ⟨hcursor, -⟩ := Array.getElem?_eq_some_iff.1 hc
      rw [elementAfter, run_bind_ok hrun]
      refine ih (c := c') (Array.getElem?_setIfInBounds_self_of_lt hcursor) ?_
      rw [ahead_cursors, hc']
      exact hx

/-- What an iteration over a value goes through, for sequences with positions and maps of the host. -/
def Value.parts? (s : Heap) : Value → Option (List Value)
  | .host t d =>
    if Host.isIterable t || Host.isSequence t then none
    else
      match t.base with
      | .map u _ => some ((d.sortedKeys s t).map (Value.fromSlot u))
      | .slice _ | .array _ _ => some ((Value.host t d).items s)
      | _ => none
  | .repeated owner number items stamp =>
    some ((Value.repeated owner number items stamp).items s)
  | _ => none

/-- An iteration over a map goes through its keys. -/
theorem parts?_map {d : Datum} {h : Heap} (ht : t.base = .map u v)
    (hplain : (Host.isIterable t || Host.isSequence t) = false) :
    (Value.host t d).parts? h = some ((d.sortedKeys h t).map (Value.fromSlot u)) := by
  rw [Value.parts?, hplain, ht]
  rfl

/-- One over a slice or an array goes through its elements. -/
theorem parts?_elements {d : Datum} {h : Heap}
    (ht : t.base = .slice u ∨ ∃ size, t.base = .array size u)
    (hplain : (Host.isIterable t || Host.isSequence t) = false) :
    (Value.host t d).parts? h = some ((d.items h).map (Value.fromSlot t.elem)) := by
  have hitems : (Value.host t d).items h = (d.items h).map (Value.fromSlot t.elem) := by
    rw [Value.items, (Bool.or_eq_false_iff.1 hplain).2]
    rfl
  rw [Value.parts?, hplain, hitems]
  obtain ht | ⟨size, ht⟩ := ht <;> rw [ht] <;> rfl

/-- An iteration begins before all of that. -/
theorem run_iterate_parts (call : Callback) {x : Value} {xs : List Value}
    (hparts : x.parts? s.toHeap = some xs) :
    ∃ cursor c s', (iterate x).run call s = .ok cursor s' ∧ s'.cursors[cursor]? = some c ∧
      c.ahead s'.toHeap = xs := by
  have atFirst (hrun : (iterate x).run call s =
      .ok s.cursors.size { s with cursors := s.cursors.push (.sequence x 0) })
      (hitems : x.items s.toHeap = xs) : ∃ cursor c s', (iterate x).run call s = .ok cursor s' ∧
        s'.cursors[cursor]? = some c ∧ c.ahead s'.toHeap = xs := by
    refine ⟨_, _, _, hrun, Array.getElem?_push_size, ?_⟩
    rw [ahead_cursors]
    exact hitems
  cases x with
  | host t d =>
    rw [Value.parts?] at hparts
    by_cases hplain : (Host.isIterable t || Host.isSequence t) = true
    · rw [if_pos hplain] at hparts
      cases hparts
    rw [if_neg hplain] at hparts
    obtain ⟨hiter, hseq⟩ := not_or.1 fun h => hplain (Bool.or_eq_true_iff.2 h)
    have hrun : (iterate (.host t d)).run call s = (startPlain (.host t d)).run call s :=
      run_bind_ok run_get _
    rw [startPlain, if_neg hiter, if_neg hseq] at hrun
    cases hb : t.base with
    | map u v =>
      rw [hb] at hparts hrun
      obtain rfl := Option.some.inj hparts
      have hkey : t.key = u := by rw [HostType.key, hb]
      rw [hkey] at hrun
      refine ⟨s.cursors.size, .list s.lists.size 0, _, hrun, Array.getElem?_push_size, ?_⟩
      show ((s.lists.push _).getD s.lists.size #[]).toList.drop 0 = _
      rw [Array.getD_eq_getD_getElem?, Array.getElem?_push_size, Option.getD_some, List.drop_zero]
    | slice u | array n u =>
      rw [hb] at hparts hrun
      exact atFirst hrun (Option.some.inj hparts)
    | _ =>
      rw [hb] at hparts
      cases hparts
  | repeated => exact atFirst rfl (Option.some.inj hparts)
  | _ => cases hparts

/-- What an iteration comes to after others, or null. -/
def partAfter (fuel : Nat) (x : Value) (i : Nat) : Job Value := do
  let cursor ← iterate x
  return (← elementAfter fuel cursor i).getD .null

theorem run_partAfter {x y : Value} {xs : List Value} {i : Nat} (fuel : Nat) (call : Callback)
    (hparts : x.parts? s.toHeap = some xs) (hy : xs[i]? = some y) :
    ∃ s', (partAfter fuel x i).run call s = .ok y s' := by
  obtain ⟨cursor, c, s₁, hiterate, hcursor, hahead⟩ := run_iterate_parts call hparts
  rw [← hahead] at hy
  obtain ⟨s', hafter⟩ := run_elementAfter fuel call hcursor hy
  refine ⟨s', ?_⟩
  rw [partAfter, run_bind_ok hiterate, run_bind_ok hafter]
  rfl

/-- A program that iterates over a map comes to its keys in their order, whatever order the host meets
them in, if keys that are not told apart are the same to the program. -/
theorem iterate_map_sorted {d : Datum} (ht : t.base = .map u v)
    (hplain : (Host.isIterable t || Host.isSequence t) = false)
    (h : ∀ a ∈ (d.entries s.toHeap).map (·.1), a.keyKind = k)
    (hkeys : ∀ a ∈ (d.entries s.toHeap).map (·.1), ∀ b ∈ (d.entries s.toHeap).map (·.1),
      a.Alike s.toHeap u k b → Value.fromSlot u a = Value.fromSlot u b) :
    ∃ cursor c s', (iterate (.host t d)).run call s = .ok cursor s' ∧
      s'.cursors[cursor]? = some c ∧ c.ahead s'.toHeap =
        (sortKeys s.toHeap u ((d.entries s.toHeap).map (·.1))).map (Value.fromSlot u) := by
  have hkey : t.key = u := by rw [HostType.key, ht]
  refine run_iterate_parts call ((parts?_map ht hplain).trans ?_)
  rw [Datum.sortedKeys, hkey]
  exact congrArg some ((map_sortKeys_eq_iff h).2 hkeys _ _ (Host.enumerate_perm ..) .rfl)

end

end Stencil
