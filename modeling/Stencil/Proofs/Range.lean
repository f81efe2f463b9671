import Mathlib
import Stencil.Host.Basic
import Stencil.Library.Module
import Stencil.Proofs.Machine.Twin

/-!
# Lists of evenly spaced ints

`range_exact_iff` tells what the list of ints from a start to before a stop is. Its elements are the
terms of the progression that come before the stop, computed without bounds, as long as the term
after the last one is an int of 64 bits too. If it is not, it wraps around to before the stop
and the list goes on.
-/

namespace Stencil

/-! ### Progressions -/

/-- Strictly before the bound, in the direction of the step. -/
def IsBefore (step stop a : Int) : Prop := 0 < step ∧ a < stop ∨ step < 0 ∧ stop < a

instance (step stop a : Int) : Decidable (IsBefore step stop a) :=
  inferInstanceAs (Decidable (_ ∨ _))

/-- Whether a number is an int of 64 bits. -/
def FitsWord (a : Int) : Prop := -2 ^ 63 ≤ a ∧ a < 2 ^ 63

instance (a : Int) : Decidable (FitsWord a) := inferInstanceAs (Decidable (_ ∧ _))

/-- The number of terms of the progression `start`, `start + step`, ... before the bound. -/
def termCount (start stop step : Int) : Nat :=
  if 0 < step then ((stop - start + step - 1) / step).toNat
  else ((start - stop - step - 1) / -step).toNat

/-- The first terms of a progression. -/
def terms (start step : Int) (n : Nat) : List Int :=
  (List.range n).map fun k : Nat => start + k * step

/-- A term of the progression, counted from the second one. -/
theorem add_step_mul (start step : Int) (k : Nat) :
    start + step + k * step = start + (k + 1 : Nat) * step := by
  push_cast
  ring

theorem terms_succ (start step : Int) (n : Nat) :
    terms start step (n + 1) = start :: terms (start + step) step n := by
  rw [terms, List.range_succ_eq_map, List.map_cons, List.map_map, terms]
  congr 1
  · simp
  · exact List.map_congr_left fun k _ => (add_step_mul start step k).symm

/-- There are `n` terms before the bound, and they are the first ones. -/
def Counts (start stop step : Int) (n : Nat) : Prop :=
  ∀ k : Nat, k < n ↔ IsBefore step stop (start + k * step)

theorem counts_termCount {start stop step : Int} (h : step ≠ 0) :
    Counts start stop step (termCount start stop step) := by
  intro k
  unfold termCount IsBefore
  split
  case isTrue hpos =>
    have hle : (k : Int) + 1 ≤ (stop - start + step - 1) / step ↔
        (k + 1) * step ≤ stop - start + step - 1 := Int.le_ediv_iff_mul_le hpos
    have hexpand : ((k : Int) + 1) * step = k * step + step := by ring
    omega
  case isFalse hneg =>
    have hle : (k : Int) + 1 ≤ (start - stop - step - 1) / -step ↔
        (k + 1) * -step ≤ start - stop - step - 1 := Int.le_ediv_iff_mul_le (by omega)
    have hexpand : ((k : Int) + 1) * -step = -(k * step) - step := by ring
    omega

namespace Counts

variable {start stop step : Int} {n : Nat}

/-- The terms after the first one are a progression with one term less. -/
theorem tail (h : Counts start stop step (n + 1)) : Counts (start + step) stop step n := by
  intro k
  rw [← Nat.succ_lt_succ_iff, h (k + 1), add_step_mul]

theorem head (h : Counts start stop step (n + 1)) : IsBefore step stop start := by
  simpa using (h 0).1 (Nat.succ_pos n)

theorem not_head (h : Counts start stop step 0) : ¬ IsBefore step stop start := by
  simpa using h 0

end Counts

/-! ### Steps of 64 bits -/

variable {stop step i : Int64} {fuel n : Nat} {done : Array Value}

/-- The test of the loop. -/
theorem goesOn_iff :
    ((decide (0 < step) && decide (i < stop)) || (decide (step < 0) && decide (stop < i))) = true ↔
      IsBefore step.toInt stop.toInt i.toInt := by
  simp [IsBefore, Int64.lt_iff_toInt_lt]

/-- A step that stays within 64 bits adds up. -/
theorem toInt_step (h : FitsWord (i.toInt + step.toInt)) :
    (i + step).toInt = i.toInt + step.toInt := by
  rw [Int64.toInt_add]
  exact Int.bmod_eq_of_le h.1 h.2

/-- A term before the bound is within 64 bits if the one before it is. -/
theorem fitsWord_of_isBefore (h : IsBefore step.toInt stop.toInt (i.toInt + step.toInt)) :
    FitsWord (i.toInt + step.toInt) := by
  have hi := i.toInt_lt
  have hi' := i.le_toInt
  have hs := stop.toInt_lt
  have hs' := stop.le_toInt
  unfold FitsWord
  rcases h with h | h <;> omega

/-- A step that leaves the 64 bits comes back before every bound. -/
theorem isBefore_of_not_fits (hi : IsBefore step.toInt stop.toInt i.toInt)
    (h : ¬ FitsWord (i.toInt + step.toInt)) : IsBefore step.toInt stop.toInt (i + step).toInt := by
  have hlt := i.toInt_lt
  have hle := i.le_toInt
  have hslt := step.toInt_lt
  have hsle := step.le_toInt
  have hblt := stop.toInt_lt
  have hble := stop.le_toInt
  rw [Int64.toInt_add, Int.bmod_eq_emod]
  unfold FitsWord at h
  rcases hi with hi | hi
  · left
    split <;> omega
  · right
    split <;> omega

/-! ### The loop -/

theorem rangeFrom_stops (h : ¬ IsBefore step.toInt stop.toInt i.toInt) :
    rangeFrom stop step fuel i done = .done done := by
  cases fuel <;> exact if_neg (mt goesOn_iff.1 h)

theorem rangeFrom_exceeds (h : IsBefore step.toInt stop.toInt i.toInt) :
    rangeFrom stop step 0 i done = Job.error "range: too many elements" :=
  if_pos (goesOn_iff.2 h)

theorem rangeFrom_goes_on (h : IsBefore step.toInt stop.toInt i.toInt) :
    rangeFrom stop step (fuel + 1) i done =
      rangeFrom stop step fuel (i + step) (done.push (.int i)) :=
  if_pos (goesOn_iff.2 h)

/-- If there is room for the terms, and the one after them is within 64 bits, they are what the
loop adds. -/
theorem rangeFrom_exact (done : Array Value) (hn : Counts i.toInt stop.toInt step.toInt n)
    (hroom : n ≤ fuel) (hfits : n = 0 ∨ FitsWord (i.toInt + n * step.toInt)) :
    ∃ items : List Int64, items.map Int64.toInt = terms i.toInt step.toInt n ∧
      rangeFrom stop step fuel i done = .done (done ++ (items.map Value.int).toArray) := by
  induction n generalizing fuel i done with
  | zero => exact ⟨[], rfl, by simp [rangeFrom_stops hn.not_head]⟩
  | succ n ih =>
    obtain ⟨fuel, rfl⟩ : ∃ m, fuel = m + 1 := ⟨fuel - 1, by omega⟩
    have hnext : FitsWord (i.toInt + step.toInt) := by
      cases n with
      | zero => simpa using hfits
      | succ n => exact fitsWord_of_isBefore hn.tail.head
    have hstep := toInt_step hnext
    have htail : Counts (i + step).toInt stop.toInt step.toInt n := hstep ▸ hn.tail
    have hlast : n = 0 ∨ FitsWord ((i + step).toInt + n * step.toInt) := by
      rw [hstep, add_step_mul]
      exact .inr (hfits.resolve_left n.succ_ne_zero)
    obtain ⟨items, hitems, hrun⟩ :=
      ih (done.push (.int i)) htail (Nat.le_of_succ_le_succ hroom) hlast
    refine ⟨i :: items, ?_, ?_⟩
    · rw [List.map_cons, hitems, terms_succ, hstep]
    · rw [rangeFrom_goes_on hn.head, hrun]
      simp

/-- If there is no room for the terms, the loop fails. -/
theorem rangeFrom_too_many (hn : Counts i.toInt stop.toInt step.toInt n) (hroom : fuel < n) :
    rangeFrom stop step fuel i done = Job.error "range: too many elements" := by
  induction fuel generalizing n i done with
  | zero =>
    obtain ⟨n, rfl⟩ : ∃ m, n = m + 1 := ⟨n - 1, by omega⟩
    exact rangeFrom_exceeds hn.head
  | succ fuel ih =>
    obtain ⟨n, rfl⟩ : ∃ m, n = m + 2 := ⟨n - 2, by omega⟩
    have hstep := toInt_step (fitsWord_of_isBefore hn.tail.head)
    rw [rangeFrom_goes_on hn.head]
    exact ih (hstep ▸ hn.tail) (by omega)

/-- The loop fails or keeps what it has. -/
theorem rangeFrom_grows (stop step : Int64) (fuel : Nat) (i : Int64) (done : Array Value) :
    rangeFrom stop step fuel i done = Job.error "range: too many elements" ∨
      ∃ items, rangeFrom stop step fuel i done = .done items ∧ done.size ≤ items.size := by
  by_cases h : IsBefore step.toInt stop.toInt i.toInt
  · induction fuel generalizing i done with
    | zero => exact .inl (rangeFrom_exceeds h)
    | succ fuel ih =>
      rw [rangeFrom_goes_on h]
      by_cases hnext : IsBefore step.toInt stop.toInt (i + step).toInt
      · refine (ih _ (done.push (.int i)) hnext).imp_right fun ⟨items, hrun, hsize⟩ => ?_
        rw [Array.size_push] at hsize
        exact ⟨items, hrun, by omega⟩
      · exact .inr ⟨_, rangeFrom_stops hnext, by simp⟩
  · exact .inr ⟨done, rangeFrom_stops h, le_rfl⟩

/-- If the term after the last one is not within 64 bits, the loop fails or adds more than the
terms. -/
theorem rangeFrom_wraps (fuel : Nat) (done : Array Value)
    (hn : Counts i.toInt stop.toInt step.toInt n) (hpos : n ≠ 0)
    (hfits : ¬ FitsWord (i.toInt + n * step.toInt)) :
    rangeFrom stop step fuel i done = Job.error "range: too many elements" ∨
      ∃ items, rangeFrom stop step fuel i done = .done items ∧ done.size + n < items.size := by
  induction n generalizing fuel i done with
  | zero => exact absurd rfl hpos
  | succ n ih =>
    cases fuel with
    | zero => exact .inl (rangeFrom_exceeds hn.head)
    | succ fuel =>
      rw [rangeFrom_goes_on hn.head]
      cases n with
      | zero =>
        have hback := isBefore_of_not_fits hn.head (by simpa using hfits)
        cases fuel with
        | zero => exact .inl (rangeFrom_exceeds hback)
        | succ fuel =>
          rw [rangeFrom_goes_on hback]
          refine (rangeFrom_grows ..).imp_right fun ⟨items, hrun, hsize⟩ => ⟨items, hrun, ?_⟩
          simp only [Array.size_push] at hsize
          omega
      | succ n =>
        have hstep := toInt_step (fitsWord_of_isBefore hn.tail.head)
        have htail : Counts (i + step).toInt stop.toInt step.toInt (n + 1) := hstep ▸ hn.tail
        have hlast : ¬ FitsWord ((i + step).toInt + ((n + 1 : Nat) : Int) * step.toInt) := by
          rwa [hstep, add_step_mul]
        refine (ih fuel (done.push (.int i)) htail n.succ_ne_zero hlast).imp_right
          fun ⟨items, hrun, hsize⟩ => ⟨items, hrun, ?_⟩
        rw [Array.size_push] at hsize
        omega

/-! ### The function -/

section

variable [Application] {start stop step : Int64} (fuel ctx : Nat) (recv : Value) (call : Callback)
  (s : Store)

/-- The function makes a list of what the loop ends with. -/
theorem range_run (hstep : step ≠ 0) :
    (Native.run fuel ctx (.universal .range) recv [.int start, .int stop, .int step]).run call s =
      (rangeFrom stop step maxRepeat start #[] >>= Job.newList).run call s := by
  show (if step = 0 then _ else _ : Job Value).run call s = _
  rw [if_neg hstep]
  rfl

omit [Application] in
/-- New lists with different elements are told apart. -/
theorem newList_injective {items items' : Array Value}
    (h : (Job.newList items).run call s = (Job.newList items').run call s) : items = items' := by
  injection h with _ hs
  have hlists : s.lists.push items = s.lists.push items' := congrArg (·.lists) hs
  exact Array.push_inj_right.1 hlists

/-- The ints from `start` to before `stop`. There are `n` of them, computed without bounds.

* If these are too many, the function fails.
* Otherwise it makes a list of them, exactly if there are none or the next term of the
  progression is within 64 bits. -/
theorem range_exact_iff (hstep : step ≠ 0) :
    let n := termCount start.toInt stop.toInt step.toInt
    let run := (Native.run fuel ctx (.universal .range) recv
      [.int start, .int stop, .int step]).run call s
    Counts start.toInt stop.toInt step.toInt n ∧
    (maxRepeat < n → run = .error (.plain "range: too many elements" false) s) ∧
    (n ≤ maxRepeat →
      ((∃ items : List Int64, items.map Int64.toInt = terms start.toInt step.toInt n ∧
        run = (Job.newList (items.map Value.int).toArray).run call s) ↔
      n = 0 ∨ FitsWord (start.toInt + n * step.toInt))) := by
  intro n run
  have hrun : run = (rangeFrom stop step maxRepeat start #[] >>= Job.newList).run call s :=
    range_run fuel ctx recv call s hstep
  have hstep' : step.toInt ≠ 0 := fun h => hstep (Int64.toInt_inj.1 h)
  have hn : Counts start.toInt stop.toInt step.toInt n := counts_termCount hstep'
  refine ⟨hn, fun hlarge => ?_, fun hroom => ⟨fun ⟨items, hitems, hlist⟩ => ?_, fun hfits => ?_⟩⟩
  · rw [hrun, rangeFrom_too_many hn hlarge]
    rfl
  · by_contra hno
    obtain ⟨hpos, hfits⟩ := not_or.1 hno
    have hlength : items.length = n := by
      simpa [terms] using congrArg List.length hitems
    rw [hrun] at hlist
    obtain hfail | ⟨more, hmore, hsize⟩ := rangeFrom_wraps maxRepeat #[] hn hpos hfits
    · rw [hfail] at hlist
      cases hlist
    · rw [hmore] at hlist
      have hsame : more = (items.map Value.int).toArray := newList_injective call s hlist
      rw [hsame] at hsize
      simp [hlength] at hsize
  · obtain ⟨items, hitems, hloop⟩ := rangeFrom_exact #[] hn hroom hfits
    refine ⟨items, hitems, ?_⟩
    rw [hrun, hloop]
    simp only [Array.empty_append]
    rfl

end

/-- Close to the greatest int. -/
theorem range_exact_near_top :
    (3 : Int64) ≠ 0 ∧ ∀ (call : Callback) (s : Store),
      (@Native.run standalone 0 0 (.universal .range) .null
        [.int 9223372036854775798, .int 9223372036854775805, .int 3]).run call s =
      (Job.newList #[.int 9223372036854775798, .int 9223372036854775801,
        .int 9223372036854775804]).run call s := by
  refine ⟨by decide, fun call s => ?_⟩
  obtain ⟨-, -, hexact⟩ := @range_exact_iff standalone 9223372036854775798 9223372036854775805 3 0 0
    .null call s (by decide)
  have hcount : termCount (Int64.toInt 9223372036854775798) (Int64.toInt 9223372036854775805)
      (Int64.toInt 3) = 3 := by decide
  rw [hcount] at hexact
  obtain ⟨items, hitems, hrun⟩ := (hexact (by decide)).2 (.inr (by decide))
  have hlist : items = [9223372036854775798, 9223372036854775801, 9223372036854775804] :=
    (List.map_injective_iff.2 fun _ _ => Int64.toInt_inj.1) (hitems.trans (by decide))
  rw [hrun, hlist]
  rfl

/-- Two terms come before the greatest int here, but the one after them wraps around, and so on
for ever: all ints that the loop comes by are multiples of the step. -/
theorem range_wraps_around :
    termCount 0 (2 ^ 63 - 1) (2 ^ 62) = 2 ∧
      ∀ (call : Callback) (s : Store),
        (@Native.run standalone 0 0 (.universal .range) .null
          [.int 0, .int Int64.maxValue, .int 4611686018427387904]).run call s =
        .error (.plain "range: too many elements" false) s := by
  refine ⟨by decide, fun call s => ?_⟩
  have hstep : Int64.toInt 4611686018427387904 = 2 ^ 62 := by decide
  have hstop : Int64.toInt Int64.maxValue = 2 ^ 63 - 1 := Int64.toInt_maxValue
  have before (i : Int64) (hi : i.toInt % 2 ^ 62 = 0) :
      IsBefore (Int64.toInt 4611686018427387904) Int64.maxValue.toInt i.toInt := by
    have hlt := i.toInt_lt
    rw [hstep, hstop]
    left
    omega
  have loop (fuel : Nat) (i : Int64) (done : Array Value) (hi : i.toInt % 2 ^ 62 = 0) :
      rangeFrom Int64.maxValue 4611686018427387904 fuel i done =
        Job.error "range: too many elements" := by
    induction fuel generalizing i done with
    | zero => exact rangeFrom_exceeds (before i hi)
    | succ fuel ih =>
      rw [rangeFrom_goes_on (before i hi)]
      refine ih _ _ ?_
      rw [Int64.toInt_add, hstep, Int.bmod_eq_emod]
      split <;> omega
  rw [@range_run standalone _ _ _ 0 0 .null call s (by decide), loop _ _ _ (by decide)]
  rfl

end Stencil
