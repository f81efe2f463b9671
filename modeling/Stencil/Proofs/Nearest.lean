import Mathlib.Order.Bounds.Basic
import Stencil.Text.Spelling

/-!
# Distances of byte strings, and the nearest of the known names

Two byte strings are as far apart as it takes edits to turn one into the other, where an edit inserts,
deletes or replaces one byte anywhere. `distance` counts them by recursion on both strings
(`isLeast_distance`); it is symmetric, and neither reversing both strings nor leaving out what they
have in common at their start changes it.

A table of distances is filled row by row, a row for each start of one string with an entry for each
start of the other. As `distance` looks at the front of its arguments, the starts are kept in reverse.
No row has an entry below the least one of the row before, so once a whole row exceeds a bound, the
distance does. `editDistance_spec` says what that comes to: the table tells a distance that is within
the bound, and something above the bound otherwise. So it does with the strings swapped, or behind a
common start (`editDistance_exact`).

## The nearest of the known names

A name that is not known is answered with a known one at the least distance, names being compared by
their folded forms; of several the earliest one, and none if half of the name would have to change.

The search keeps the best candidate so far, and measures the next one only up to the distance of that.
What `editDistance` tells beyond its bound is no distance, but it is beyond the bound, and a candidate
that far away is passed over anyhow: a step of the search is the step that has the exact distance
(`nearest?_eq_closer`). What the search with exact distances finds is by induction on the candidates.
-/

namespace Stencil

section

/-! ### Edits -/

/-- One byte is inserted, deleted or replaced. -/
inductive Edit : Bytes → Bytes → Prop where
  | insert (p s : Bytes) (b : UInt8) : Edit (p ++ s) (p ++ b :: s)
  | delete (p s : Bytes) (b : UInt8) : Edit (p ++ b :: s) (p ++ s)
  | replace (p s : Bytes) (b c : UInt8) : Edit (p ++ b :: s) (p ++ c :: s)

/-- So many edits, one after the other. -/
inductive Edits : Nat → Bytes → Bytes → Prop where
  | none (x : Bytes) : Edits 0 x x
  | more {n : Nat} {x y z : Bytes} (h : Edit x y) (hs : Edits n y z) : Edits (n + 1) x z

variable {x y z : Bytes} {m n : Nat}

theorem Edit.symm (h : Edit x y) : Edit y x := by
  cases h with
  | insert p s b => exact .delete p s b
  | delete p s b => exact .insert p s b
  | replace p s b c => exact .replace p s c b

theorem Edit.cons (a : UInt8) (h : Edit x y) : Edit (a :: x) (a :: y) := by
  cases h with
  | insert p s b => exact .insert (a :: p) s b
  | delete p s b => exact .delete (a :: p) s b
  | replace p s b c => exact .replace (a :: p) s b c

theorem Edit.reverse (h : Edit x y) : Edit x.reverse y.reverse := by
  cases h with
  | insert p s b => simpa using Edit.insert s.reverse p.reverse b
  | delete p s b => simpa using Edit.delete s.reverse p.reverse b
  | replace p s b c => simpa using Edit.replace s.reverse p.reverse b c

namespace Edits

theorem trans (h : Edits m x y) (h' : Edits n y z) : Edits (m + n) x z := by
  induction h with
  | none x => rwa [Nat.zero_add]
  | @more k _ _ _ he _ ih =>
    rw [Nat.add_right_comm]
    exact .more he (ih h')

theorem one (h : Edit x y) : Edits 1 x y := .more h (.none y)

theorem symm (h : Edits n x y) : Edits n y x := by
  induction h with
  | none x => exact .none x
  | more he _ ih => exact ih.trans (.one he.symm)

theorem cons (a : UInt8) (h : Edits n x y) : Edits n (a :: x) (a :: y) := by
  induction h with
  | none x => exact .none _
  | more he _ ih => exact .more (he.cons a) ih

theorem reverse (h : Edits n x y) : Edits n x.reverse y.reverse := by
  induction h with
  | none x => exact .none _
  | more he _ ih => exact .more he.reverse ih

end Edits

/-! ### The distance -/

/-- What it costs to have one byte in the place of another. -/
def mismatch (a b : UInt8) : Nat := if a = b then 0 else 1

theorem mismatch_le (a b : UInt8) : mismatch a b ≤ 1 := by
  unfold mismatch
  split <;> omega

/-- How far apart two byte strings are: their first bytes are matched with each other, or one of them
is left out. -/
def distance : Bytes → Bytes → Nat
  | [], y => y.length
  | _ :: x, [] => x.length + 1
  | a :: x, b :: y =>
    min (min (distance x y + mismatch a b) (distance (a :: x) y + 1)) (distance x (b :: y) + 1)
termination_by x y => x.length + y.length

@[simp]
theorem distance_nil_left (y : Bytes) : distance [] y = y.length := by rw [distance]

@[simp]
theorem distance_nil_right (x : Bytes) : distance x [] = x.length := by
  cases x with
  | nil => rw [distance]
  | cons a x => rw [distance, List.length_cons]

theorem distance_cons_cons (a b : UInt8) (x y : Bytes) :
    distance (a :: x) (b :: y) =
      min (min (distance x y + mismatch a b) (distance (a :: x) y + 1)) (distance x (b :: y) + 1) := by
  rw [distance]

theorem distance_self (x : Bytes) : distance x x = 0 := by
  induction x with
  | nil => rw [distance_nil_left, List.length_nil]
  | cons a x ih =>
    rw [distance_cons_cons, ih, mismatch, if_pos rfl]
    simp

theorem distance_cons_left_le (b : UInt8) (s z : Bytes) : distance (b :: s) z ≤ distance s z + 1 := by
  cases z with
  | nil => simp
  | cons c z =>
    rw [distance_cons_cons]
    exact Nat.min_le_right _ _

theorem distance_cons_right_le (c : UInt8) (s z : Bytes) : distance s (c :: z) ≤ distance s z + 1 := by
  cases s with
  | nil => simp
  | cons b s =>
    rw [distance_cons_cons]
    exact Nat.le_trans (Nat.min_le_left _ _) (Nat.min_le_right _ _)

theorem distance_le_mismatch (a b : UInt8) (x y : Bytes) :
    distance (a :: x) (b :: y) ≤ distance x y + mismatch a b := by
  rw [distance_cons_cons]
  exact Nat.le_trans (Nat.min_le_left _ _) (Nat.min_le_left _ _)

/-- The distance is below a bound that each of the three ways to get it is below. -/
theorem le_distance_cons_cons {k : Nat} {a b : UInt8} (hmatch : k ≤ distance x y + mismatch a b)
    (hright : k ≤ distance (a :: x) y + 1) (hleft : k ≤ distance x (b :: y) + 1) :
    k ≤ distance (a :: x) (b :: y) := by
  rw [distance_cons_cons]
  exact Nat.le_min.2 ⟨Nat.le_min.2 ⟨hmatch, hright⟩, hleft⟩

theorem distance_le_cons_left (b : UInt8) (s z : Bytes) : distance s z ≤ distance (b :: s) z + 1 := by
  induction z with
  | nil => simp; omega
  | cons c z ih =>
    have hskip := distance_cons_right_le c s z
    have hbound : distance s (c :: z) - 1 ≤ distance (b :: s) (c :: z) :=
      le_distance_cons_cons (by omega) (by omega) (by omega)
    omega

theorem distance_replace_le (b c : UInt8) (s z : Bytes) :
    distance (b :: s) z ≤ distance (c :: s) z + 1 := by
  induction z with
  | nil => simp
  | cons d z ih =>
    have hmatch := distance_le_mismatch b d s z
    have hright := distance_cons_right_le d (b :: s) z
    have hleft := distance_cons_left_le b s (d :: z)
    have hm := mismatch_le b d
    have hbound : distance (b :: s) (d :: z) - 1 ≤ distance (c :: s) (d :: z) :=
      le_distance_cons_cons (by omega) (by omega) (by omega)
    omega

/-- What changes distances by at most one does so behind another byte too. -/
theorem distance_cons_congr_le (a : UInt8) (h : ∀ z, distance x z ≤ distance y z + 1) (z : Bytes) :
    distance (a :: x) z ≤ distance (a :: y) z + 1 := by
  induction z with
  | nil => simpa using h []
  | cons d z ih =>
    have hmatch := distance_le_mismatch a d x z
    have hright := distance_cons_right_le d (a :: x) z
    have hleft := distance_cons_left_le a x (d :: z)
    have hz := h z
    have hdz := h (d :: z)
    have hbound : distance (a :: x) (d :: z) - 1 ≤ distance (a :: y) (d :: z) :=
      le_distance_cons_cons (by omega) (by omega) (by omega)
    omega

/-- An edit changes distances by at most one. -/
theorem Edit.distance_le (h : Edit x y) (z : Bytes) : distance x z ≤ distance y z + 1 := by
  have behind (p : Bytes) {s t : Bytes} (h : ∀ z, distance s z ≤ distance t z + 1) :
      ∀ z, distance (p ++ s) z ≤ distance (p ++ t) z + 1 := by
    induction p with
    | nil => exact h
    | cons a p ih => exact distance_cons_congr_le a ih
  cases h with
  | insert p s b => exact behind p (distance_le_cons_left b s) z
  | delete p s b => exact behind p (distance_cons_left_le b s) z
  | replace p s b c => exact behind p (distance_replace_le b c s) z

theorem Edits.distance_le (h : Edits n x y) : distance x y ≤ n := by
  induction h with
  | none x => exact Nat.le_of_eq (distance_self x)
  | more he _ ih => exact Nat.le_trans (he.distance_le _) (Nat.succ_le_succ ih)

theorem edits_insert_all (y : Bytes) : Edits y.length [] y := by
  induction y with
  | nil => exact .none []
  | cons b y ih => exact ih.trans (.one (.insert [] y b))

/-- As many edits as the distance are enough. -/
theorem edits_distance (x y : Bytes) : Edits (distance x y) x y := by
  induction x, y using distance.induct with
  | case1 y =>
    rw [distance_nil_left]
    exact edits_insert_all y
  | case2 a x =>
    rw [distance_nil_right]
    exact (edits_insert_all (a :: x)).symm
  | case3 a x b y hmatch hright hleft =>
    have substitute : Edits (distance x y + mismatch a b) (a :: x) (b :: y) := by
      refine (hmatch.cons a).trans ?_
      by_cases hab : a = b
      · rw [mismatch, if_pos hab, hab]
        exact .none _
      · rw [mismatch, if_neg hab]
        exact .one (.replace [] y a b)
    have insert : Edits (distance (a :: x) y + 1) (a :: x) (b :: y) :=
      hright.trans (.one (.insert [] y b))
    have delete : Edits (distance x (b :: y) + 1) (a :: x) (b :: y) := .more (.delete [] x a) hleft
    rw [distance_cons_cons]
    rcases Nat.le_total (min (distance x y + mismatch a b) (distance (a :: x) y + 1))
      (distance x (b :: y) + 1) with h | h
    · rw [Nat.min_eq_left h]
      rcases Nat.le_total (distance x y + mismatch a b) (distance (a :: x) y + 1) with h' | h'
      · rwa [Nat.min_eq_left h']
      · rwa [Nat.min_eq_right h']
    · rwa [Nat.min_eq_right h]

/-- The distance is the least number of edits. -/
theorem isLeast_distance (x y : Bytes) : IsLeast {n | Edits n x y} (distance x y) :=
  ⟨edits_distance x y, fun _ h => h.distance_le⟩

theorem distance_comm (x y : Bytes) : distance x y = distance y x :=
  Nat.le_antisymm (edits_distance y x).symm.distance_le (edits_distance x y).symm.distance_le

theorem distance_reverse (x y : Bytes) : distance x.reverse y.reverse = distance x y := by
  apply Nat.le_antisymm
  · exact (edits_distance x y).reverse.distance_le
  · simpa using (edits_distance x.reverse y.reverse).reverse.distance_le

/-- What two strings have in common at their start does not count. -/
theorem distance_cons_self (a : UInt8) (x y : Bytes) : distance (a :: x) (a :: y) = distance x y := by
  have hleft := distance_le_cons_left a x y
  have hright : distance x y ≤ distance x (a :: y) + 1 := by
    rw [distance_comm x y, distance_comm x (a :: y)]
    exact distance_le_cons_left a y x
  apply Nat.le_antisymm
  · exact (edits_distance x y).cons a |>.distance_le
  · exact le_distance_cons_cons (Nat.le_add_right _ _) hleft hright

theorem distance_append_left (p x y : Bytes) : distance (p ++ x) (p ++ y) = distance x y := by
  induction p with
  | nil => rfl
  | cons a p ih =>
    rw [List.cons_append, List.cons_append, distance_cons_self]
    exact ih

/-! ### The table -/

/-- The entries of a row of the table, in the row of `p` after the entry of `q`. -/
def tableRow (p q : Bytes) : Bytes → List Nat
  | [] => []
  | b :: y => distance p (b :: q) :: tableRow p (b :: q) y

theorem tableRow_nil (y q : Bytes) :
    tableRow [] q y = (List.range y.length).map (· + (q.length + 1)) := by
  induction y generalizing q with
  | nil => rfl
  | cons b y ih =>
    have hrange : List.range (b :: y).length = 0 :: (List.range y.length).map Nat.succ :=
      List.range_succ_eq_map
    rw [tableRow, ih, distance_nil_left, hrange, List.map_cons, List.map_map]
    simp only [List.length_cons, Nat.zero_add, List.cons.injEq, true_and]
    refine List.map_congr_left fun n _ => ?_
    show n + (q.length + 1 + 1) = n + 1 + (q.length + 1)
    omega

/-- The last entry of a row. -/
theorem getLast?_tableRow (p q y : Bytes) :
    (tableRow p q y).getLast?.getD (distance p q) = distance p (y.reverse ++ q) := by
  induction y generalizing q with
  | nil => rfl
  | cons b y ih =>
    rw [tableRow, List.getLast?_cons, Option.getD_some, ih, List.reverse_cons, List.append_assoc,
      List.singleton_append]

/-- A row is filled from the one above. -/
theorem distanceRow_eq (c : UInt8) (p q y : Bytes) :
    distanceRow c (distance p q) (distance (c :: p) q) y (tableRow p q y) = tableRow (c :: p) q y := by
  induction y generalizing q with
  | nil => rfl
  | cons b y ih =>
    have hentry : min (min (distance p q + mismatch c b) (distance (c :: p) q + 1))
        (distance p (b :: q) + 1) = distance (c :: p) (b :: q) := (distance_cons_cons c b p q).symm
    rw [tableRow, distanceRow, tableRow]
    show _ :: distanceRow c _ (min (min (distance p q + mismatch c b) _) _) y _ = _
    rw [hentry, ih]
    exact congrArg (· :: _) hentry

/-- The least entry of a row is below all its entries. -/
theorem foldl_min_le (p q y : Bytes) (i : Nat) : (tableRow p q y).foldl min i ≤ i ∧
    ∀ u v, y = u ++ v → u ≠ [] → (tableRow p q y).foldl min i ≤ distance p (u.reverse ++ q) := by
  induction y generalizing q i with
  | nil =>
    refine ⟨Nat.le_refl _, fun u v hu hne => ?_⟩
    exact absurd (List.append_eq_nil_iff.1 hu.symm).1 hne
  | cons b y ih =>
    obtain ⟨hfirst, hrest⟩ := ih (b :: q) (min i (distance p (b :: q)))
    refine ⟨Nat.le_trans hfirst (Nat.min_le_left _ _), ?_⟩
    rintro (_ | ⟨c, u⟩) v huv hne
    · exact absurd rfl hne
    obtain ⟨rfl, rfl⟩ := List.cons.inj huv
    rw [List.reverse_cons, List.append_assoc, List.singleton_append]
    cases u with
    | nil => exact Nat.le_trans hfirst (Nat.min_le_right _ _)
    | cons d u => exact hrest (d :: u) v rfl (List.cons_ne_nil _ _)

/-- What is below all entries of a row is below all entries of the next one. -/
theorem le_distance_of_row {k : Nat} {p : Bytes} (c : UInt8) :
    (q : Bytes) → (∀ r, r <:+ q → k ≤ distance p r) → k ≤ distance (c :: p) q
  | [], h => by
    have hp := h [] (List.suffix_refl _)
    rw [distance_nil_right] at hp ⊢
    exact Nat.le_succ_of_le hp
  | b :: q, h => by
    have hq := le_distance_of_row c q fun r hr => h r (hr.trans (List.suffix_cons b q))
    have hmatch := h q (List.suffix_cons b q)
    have hleft := h (b :: q) (List.suffix_refl _)
    exact le_distance_cons_cons (by omega) (by omega) (by omega)

/-- What is below all entries of a row is below all entries of the rows after it. -/
theorem le_distance_of_rows {k : Nat} {p q : Bytes} (x : Bytes)
    (h : ∀ r, r <:+ q → k ≤ distance p r) : k ≤ distance (x.reverse ++ p) q := by
  induction x generalizing p with
  | nil => exact h q (List.suffix_refl q)
  | cons c x ih =>
    rw [List.reverse_cons, List.append_assoc, List.singleton_append]
    exact ih fun r hr => le_distance_of_row c r fun r' hr' => h r' (hr'.trans hr)

/-- What a computation tells of a number: the number itself if it is within a bound, and otherwise
something that is not. -/
structure ExactWithin (bound d result : Nat) : Prop where
  exact : d ≤ bound → result = d
  above : bound < d → bound < result

theorem ExactWithin.refl (bound d : Nat) : ExactWithin bound d d := ⟨fun _ => rfl, id⟩

/-- The rows of the table, after that of `p`, lead to the distance. -/
theorem distanceRows_spec (y : Bytes) (bound : Nat) (x p : Bytes) :
    ExactWithin bound (distance (x.reverse ++ p) y.reverse)
      (distanceRows y bound x p.length (tableRow p [] y)) := by
  induction x generalizing p with
  | nil =>
    have hlast := getLast?_tableRow p [] y
    rw [distance_nil_right, List.append_nil] at hlast
    rw [distanceRows, hlast]
    exact .refl _ _
  | cons c x ih =>
    have hrow : distanceRow c p.length (p.length + 1) y (tableRow p [] y) = tableRow (c :: p) [] y := by
      simpa using distanceRow_eq c p [] y
    rw [distanceRows, hrow, List.reverse_cons, List.append_assoc, List.singleton_append]
    split
    case isFalse => exact ih (c :: p)
    case isTrue hleast =>
      obtain ⟨hfirst, hrest⟩ := foldl_min_le (c :: p) [] y (p.length + 1)
      have hbelow : (tableRow (c :: p) [] y).foldl min (p.length + 1) ≤
          distance (x.reverse ++ c :: p) y.reverse := by
        refine le_distance_of_rows x ?_
        rintro r ⟨v, hr⟩
        obtain rfl | hne := eq_or_ne r []
        · simpa using hfirst
        · have hsplit : y = r.reverse ++ v.reverse := by
            rw [← List.reverse_append, hr, List.reverse_reverse]
          simpa using hrest r.reverse v.reverse hsplit (by simpa using hne)
      exact ⟨fun h => by omega, fun _ => hleast⟩

theorem distance_dropCommon (x y : Bytes) :
    distance ((dropCommon x y).getD (x, y)).1 ((dropCommon x y).getD (x, y)).2 = distance x y := by
  induction x generalizing y with
  | nil => rfl
  | cons a x ih =>
    cases y with
    | nil => rfl
    | cons b y =>
      rw [dropCommon]
      split
      case isFalse => rfl
      case isTrue hab =>
        subst hab
        rw [distance_cons_self]
        have hxy := ih y
        cases hd : dropCommon x y with
        | none =>
          rw [Option.getD_none]
          exact distance_cons_self a x y
        | some r => rwa [hd] at hxy

/-- The distance of two strings, as the table has it: as it is if it is within the bound, and
something beyond the bound otherwise. -/
theorem editDistance_spec (x y : Bytes) (bound : Nat) :
    ExactWithin bound (distance x y) (editDistance x y bound) := by
  have table (x y : Bytes) : ExactWithin bound (distance x y)
      (if x.isEmpty then y.length
        else distanceRows y bound x 0 ((List.range y.length).map (· + 1))) := by
    split
    case isTrue hx =>
      rw [List.isEmpty_iff.1 hx, distance_nil_left]
      exact .refl _ _
    case isFalse =>
      have hrows := distanceRows_spec y bound x []
      rwa [List.append_nil, distance_reverse, tableRow_nil] at hrows
  have stripped (x y : Bytes) : ExactWithin bound (distance x y)
      (let rest := (dropCommon x y).getD (x, y)
       if rest.1.isEmpty then rest.2.length
        else distanceRows rest.2 bound rest.1 0 ((List.range rest.2.length).map (· + 1))) := by
    rw [← distance_dropCommon x y]
    exact table _ _
  by_cases hxy : y.length < x.length
  · rw [editDistance, if_pos hxy, distance_comm]
    exact stripped y x
  · rw [editDistance, if_neg hxy]
    exact stripped x y

/-- Measured up to a bound, two strings are as far apart as the least number of edits that turn one
into the other, whichever of them comes first and whatever both are put behind. -/
theorem editDistance_exact (x y : Bytes) (bound : Nat) :
    ∃ d, IsLeast {n | Edits n x y} d ∧
      ExactWithin bound d (editDistance x y bound) ∧
      ExactWithin bound d (editDistance y x bound) ∧
      ∀ p, ExactWithin bound d (editDistance (p ++ x) (p ++ y) bound) := by
  refine ⟨distance x y, isLeast_distance x y, editDistance_spec x y bound, ?_, fun p => ?_⟩
  · rw [distance_comm]
    exact editDistance_spec y x bound
  · rw [← distance_append_left p]
    exact editDistance_spec (p ++ x) (p ++ y) bound

end

/-! ## The nearest of the known names -/

variable {x c : Bytes} {cs before after : List Bytes}

/-- How far a candidate is from a name. -/
def nameDistance (x c : Bytes) : Nat := distance (foldName x) (foldName c)

/-- A candidate as far from the name as this is no hint. -/
def hintLimit (x : Bytes) : Nat := ((foldName x).length + 1) / 2

/-- The nearest candidate so far, after one more of them. -/
def closer (x : Bytes) (best : Nat × Option Bytes) (c : Bytes) : Nat × Option Bytes :=
  if nameDistance x c < best.1 then (nameDistance x c, some c) else best

/-- `c` is the earliest of the candidates with the least distance from `x`, and near enough. -/
structure NearestAt (x : Bytes) (before : List Bytes) (c : Bytes) (after : List Bytes) : Prop where
  near : nameDistance x c < hintLimit x
  earliest : ∀ c' ∈ before, nameDistance x c < nameDistance x c'
  least : ∀ c' ∈ after, nameDistance x c ≤ nameDistance x c'

theorem ExactWithin.lt_iff {bound d result : Nat} (h : ExactWithin bound d result) :
    result < bound ↔ d < bound := by
  have hexact := h.exact
  have habove := h.above
  omega

/-- Where the bound cuts a measurement off, the candidate would not have been taken. -/
theorem nearest?_eq_closer (x : Bytes) (cs : List Bytes) :
    nearest? x cs = (cs.foldl (closer x) (hintLimit x, none)).2 := by
  have step (best : Nat × Option Bytes) (c : Bytes) :
      (if editDistance (foldName x) (foldName c) best.1 < best.1
        then (editDistance (foldName x) (foldName c) best.1, some c) else best) = closer x best c := by
    have hspec := editDistance_spec (foldName x) (foldName c) best.1
    unfold closer
    by_cases hd : nameDistance x c < best.1
    · rw [if_pos (hspec.lt_iff.2 hd), if_pos hd, hspec.exact (Nat.le_of_lt hd)]
      rfl
    · rw [if_neg (fun h => hd (hspec.lt_iff.1 h)), if_neg hd]
  unfold nearest?
  simp only [step]
  rfl

/-- Candidates that are not nearer than the best one so far change nothing. -/
theorem foldl_closer_of_le {best : Nat × Option Bytes}
    (h : ∀ c ∈ cs, best.1 ≤ nameDistance x c) : cs.foldl (closer x) best = best := by
  induction cs with
  | nil => rfl
  | cons c cs ih =>
    have hc : ¬nameDistance x c < best.1 := Nat.not_lt.2 (h c List.mem_cons_self)
    rw [List.foldl_cons, closer, if_neg hc]
    exact ih fun c' hc' => h c' (List.mem_cons_of_mem c hc')

/-- What is nearer than the best one so far and all further candidates is nearer than the best one
of them. -/
theorem lt_foldl_closer {k : Nat} {best : Nat × Option Bytes} (hbest : k < best.1)
    (h : ∀ c ∈ cs, k < nameDistance x c) : k < (cs.foldl (closer x) best).1 := by
  induction cs generalizing best with
  | nil => exact hbest
  | cons c cs ih =>
    refine ih ?_ fun c' hc' => h c' (List.mem_cons_of_mem c hc')
    unfold closer
    split
    · exact h c List.mem_cons_self
    · exact hbest

/-- The search leaves the best one so far, or takes the earliest of the nearest candidates. -/
theorem foldl_closer_cases (x : Bytes) (cs : List Bytes) (best : Nat × Option Bytes) :
    (cs.foldl (closer x) best = best ∧ ∀ c ∈ cs, best.1 ≤ nameDistance x c) ∨
    ∃ before c after, cs = before ++ c :: after ∧
      cs.foldl (closer x) best = (nameDistance x c, some c) ∧ nameDistance x c < best.1 ∧
      (∀ c' ∈ before, nameDistance x c < nameDistance x c') ∧
      ∀ c' ∈ after, nameDistance x c ≤ nameDistance x c' := by
  induction cs generalizing best with
  | nil => exact .inl ⟨rfl, fun c hc => absurd hc List.not_mem_nil⟩
  | cons c cs ih =>
    rw [List.foldl_cons]
    by_cases hc : nameDistance x c < best.1
    · rw [closer, if_pos hc]
      rcases ih (nameDistance x c, some c) with
        ⟨hstay, hle⟩ | ⟨before, c', after, hcs, hfound, hlt, hbefore, hafter⟩
      · exact .inr ⟨[], c, cs, rfl, hstay, hc, fun c' hc' => absurd hc' List.not_mem_nil, hle⟩
      · refine .inr ⟨c :: before, c', after, by rw [hcs, List.cons_append], hfound,
          Nat.lt_trans hlt hc, ?_, hafter⟩
        exact List.forall_mem_cons.2 ⟨hlt, hbefore⟩
    · rw [closer, if_neg hc]
      rcases ih best with ⟨hstay, hle⟩ | ⟨before, c', after, hcs, hfound, hlt, hbefore, hafter⟩
      · exact .inl ⟨hstay, List.forall_mem_cons.2 ⟨Nat.not_lt.1 hc, hle⟩⟩
      · refine .inr ⟨c :: before, c', after, by rw [hcs, List.cons_append], hfound, hlt, ?_, hafter⟩
        exact List.forall_mem_cons.2 ⟨Nat.lt_of_lt_of_le hlt (Nat.not_lt.1 hc), hbefore⟩

/-- The earliest of the nearest candidates is found. -/
theorem NearestAt.found (h : NearestAt x before c after) :
    nearest? x (before ++ c :: after) = some c := by
  have hreach : nameDistance x c < (before.foldl (closer x) (hintLimit x, none)).1 :=
    lt_foldl_closer h.near h.earliest
  rw [nearest?_eq_closer, List.foldl_append, List.foldl_cons, closer, if_pos hreach]
  exact congrArg Prod.snd (foldl_closer_of_le h.least)

/-- **Hints are optimal.** The distance of names is the least number of insertions, deletions and
replacements of bytes that turn one folded name into the other. The hint is the earliest of the
candidates at the least distance if that is below the limit, and otherwise there is none. -/
theorem nearest?_optimal (x : Bytes) (cs : List Bytes) :
    (∀ c, IsLeast {n | Edits n (foldName x) (foldName c)} (nameDistance x c)) ∧
    (∀ c, nearest? x cs = some c ↔
      ∃ before after, cs = before ++ c :: after ∧ NearestAt x before c after) ∧
    (nearest? x cs = none ↔ ∀ c ∈ cs, hintLimit x ≤ nameDistance x c) := by
  refine ⟨fun c => isLeast_distance _ _, fun c => ⟨fun h => ?_, ?_⟩, fun h => ?_, fun h => ?_⟩
  · rw [nearest?_eq_closer] at h
    rcases foldl_closer_cases x cs (hintLimit x, none) with
      ⟨hstay, -⟩ | ⟨before, c', after, hcs, hfound, hlt, hbefore, hafter⟩
    · rw [hstay] at h
      cases h
    · rw [hfound] at h
      obtain rfl : c' = c := Option.some.inj h
      exact ⟨before, after, hcs, hlt, hbefore, hafter⟩
  · rintro ⟨before, after, rfl, hc⟩
    exact hc.found
  · rw [nearest?_eq_closer] at h
    rcases foldl_closer_cases x cs (hintLimit x, none) with
      ⟨-, hle⟩ | ⟨before, c, after, -, hfound, -⟩
    · exact hle
    · rw [hfound] at h
      cases h
  · have hstay : cs.foldl (closer x) (hintLimit x, none) = (hintLimit x, none) := foldl_closer_of_le h
    rw [nearest?_eq_closer, hstay]

end Stencil
