import Stencil.Host.Slot
import Stencil.Proofs.Float

/-!
# Places of host data

A program changes host data in three kinds of places: a field of a record that a pointer points to, an
element of an array, and an entry of a map. `Place.look?` tells what is in a place and `Place.put` is the
heap with something else in it. What is put is found (`look?_put`), other places keep what they have
(`look?_put_of_apart`), and to put what is there anyway changes nothing (`put_eq_self`).

Places may lie inside of each other, as the fields of a record do that is itself a field. They are
apart if neither lies inside of the other. The entry that a map has for a key is the one with the same
key, and a float that is not a number is the same as no key at all: a map that is given an entry for
it keeps the entry, but never finds it.
-/

namespace Stencil

variable {x d : Datum} {path other : List Nat}

/-! ### Inside of a datum -/

theorem at?_setAt (h : (d.at? path).isSome) : (Datum.setAt x path d).at? path = some x := by
  induction path generalizing d with
  | nil => rfl
  | cons i path ih =>
    cases d with
    | record ds =>
      obtain ⟨e, he⟩ := Option.isSome_iff_exists.1 h
      obtain ⟨f, hf, hat⟩ := Option.bind_eq_some_iff.1 he
      show ((ds.modify i (Datum.setAt x path))[i]?).bind (Datum.at? path) = some x
      rw [List.getElem?_modify_eq, hf]
      exact ih (by rw [hat]; rfl)
    | _ => cases h

theorem setAt_eq_self (h : d.at? path = some x) : Datum.setAt x path d = d := by
  induction path generalizing d with
  | nil => exact (Option.some.inj h).symm
  | cons i path ih =>
    cases d with
    | record ds =>
      obtain ⟨e, he, hat⟩ := Option.bind_eq_some_iff.1 h
      show Datum.record (ds.modify i (Datum.setAt x path)) = .record ds
      refine congrArg Datum.record (List.ext_getElem? fun j => ?_)
      by_cases hij : i = j
      · subst hij
        rw [List.getElem?_modify_eq, he]
        exact congrArg some (ih hat)
      · rw [List.getElem?_modify_ne _ _ hij]
    | _ => cases h

/-- A path that is no part of another one leads elsewhere. -/
theorem at?_setAt_of_apart (h : ¬path <+: other) (h' : ¬other <+: path) :
    (Datum.setAt x path d).at? other = d.at? other := by
  induction path generalizing d other with
  | nil => exact absurd List.nil_prefix h
  | cons i path ih =>
    cases other with
    | nil => exact absurd List.nil_prefix h'
    | cons j other =>
      cases d with
      | record ds =>
        show ((ds.modify i (Datum.setAt x path))[j]?).bind (Datum.at? other) =
          (ds[j]?).bind (Datum.at? other)
        by_cases hij : i = j
        · subst hij
          rw [List.getElem?_modify_eq]
          cases ds[i]? with
          | none => rfl
          | some e =>
            exact ih (fun hp => h (List.cons_prefix_cons.2 ⟨rfl, hp⟩))
              (fun hp => h' (List.cons_prefix_cons.2 ⟨rfl, hp⟩))
        · rw [List.getElem?_modify_ne _ _ hij]
      | _ => rfl

/-- Whatever is put in the place of an int, records elsewhere stay records and the rest stays as it
is. -/
theorem at?_setAt_of_int {n : Int} {y : Datum} (hpath : d.at? path = some (.int n))
    (hy : d.at? other = some y) :
    (∃ m, y = .int m) ∨ (Datum.setAt x path d).at? other = some y ∨
      ∃ fields fields', y = .record fields ∧ (Datum.setAt x path d).at? other = some (.record fields') := by
  induction path generalizing d other with
  | nil =>
    obtain rfl : d = .int n := Option.some.inj hpath
    cases other with
    | nil => exact .inl ⟨n, (Option.some.inj hy).symm⟩
    | cons j other => cases hy
  | cons i path ih =>
    cases d with
    | record ds =>
      cases other with
      | nil => exact .inr (.inr ⟨ds, _, (Option.some.inj hy).symm, rfl⟩)
      | cons j other =>
        show _ ∨ ((ds.modify i (Datum.setAt x path))[j]?).bind (Datum.at? other) = some y ∨
          ∃ fields fields', y = .record fields ∧
            ((ds.modify i (Datum.setAt x path))[j]?).bind (Datum.at? other) = some (.record fields')
        by_cases hij : i = j
        · subst hij
          obtain ⟨e, he, hat⟩ := Option.bind_eq_some_iff.1 hpath
          obtain ⟨e', he', hat'⟩ := Option.bind_eq_some_iff.1 hy
          obtain rfl : e' = e := Option.some.inj (he'.symm.trans he)
          rw [List.getElem?_modify_eq, he]
          exact ih hat hat'
        · rw [List.getElem?_modify_ne _ _ hij]
          exact .inr (.inl hy)
    | _ => cases hpath

/-! ### Entries -/

section

variable [Host] {key key' : Datum} {entries : List (Datum × Datum)}

/-- What a list of entries has for a key. -/
def entryOf? (key : Datum) (entries : List (Datum × Datum)) : Option Datum :=
  (entries.find? fun (k, _) => k.same key).map (·.2)

/-- The keys are not the same, and no other one is the same as both. -/
structure KeysApart (key key' : Datum) : Prop where
  unlike : key.same key' ≠ true
  exclusive : ∀ k : Datum, k.same key = true → k.same key' ≠ true

theorem entryOf?_setEntry (h : key.same key = true) : entryOf? key (setEntry key x entries) = some x := by
  induction entries with
  | nil => simp [entryOf?, setEntry, h]
  | cons e entries ih =>
    obtain ⟨k, y⟩ := e
    rw [setEntry]
    split
    case isTrue hk => simp [entryOf?, hk]
    case isFalse hk => simpa [entryOf?, hk] using ih

theorem entryOf?_setEntry_of_apart (h : KeysApart key key') :
    entryOf? key' (setEntry key x entries) = entryOf? key' entries := by
  induction entries with
  | nil => simp [entryOf?, setEntry, h.unlike]
  | cons e entries ih =>
    obtain ⟨k, y⟩ := e
    rw [setEntry]
    split
    case isTrue hk => simp [entryOf?, h.exclusive k hk]
    case isFalse hk =>
      by_cases hk' : k.same key' = true
      · simp [entryOf?, hk']
      · simpa [entryOf?, hk'] using ih

theorem setEntry_eq_self (h : entryOf? key entries = some x) : setEntry key x entries = entries := by
  induction entries with
  | nil => cases h
  | cons e entries ih =>
    obtain ⟨k, y⟩ := e
    rw [setEntry]
    split
    case isTrue hk =>
      obtain rfl : y = x := by simpa [entryOf?, hk] using h
      rfl
    case isFalse hk =>
      have hrest : entryOf? key entries = some x := by simpa [entryOf?, hk] using h
      rw [ih hrest]

end

/-! ### Places -/

theorem array_modify_eq_self {α : Type} {as : Array α} {i : Nat} {f : α → α}
    (hf : ∀ a, as[i]? = some a → f a = a) : as.modify i f = as := by
  refine Array.ext_getElem? fun j => ?_
  rw [Array.getElem?_modify]
  split
  case isTrue hij =>
    subst hij
    cases ha : as[i]? with
    | none => rfl
    | some a => exact congrArg some (hf a ha)
  case isFalse => rfl

theorem setIfInBounds_eq_self {α : Type} {as : Array α} {i : Nat} {a : α} (h : as[i]? = some a) :
    as.setIfInBounds i a = as := by
  obtain ⟨hlt, rfl⟩ := Array.getElem?_eq_some_iff.1 h
  rw [Array.setIfInBounds_def, dif_pos hlt, Array.set_getElem_self]

/-- Where a program can change host data. -/
inductive Place where
  /-- A field in a cell, or a field of a record in it. -/
  | field (cell : Nat) (inside : List Nat)
  | item (array i : Nat)
  | entry (map : Nat) (key : Datum)

namespace Place

variable [Host] {h : Heap} {p q : Place}

/-- What is in a place. -/
def look? (h : Heap) : Place → Option Datum
  | .field cell inside => (h.cells[cell]?).bind (Datum.at? inside)
  | .item array i => (h.arrays[array]?).bind (·[i]?)
  | .entry map key => (h.maps[map]?).bind (entryOf? key)

/-- The heap with something else in a place. -/
def put (h : Heap) (x : Datum) : Place → Heap
  | .field cell inside => { h with cells := h.cells.modify cell (Datum.setAt x inside) }
  | .item array i => { h with arrays := h.arrays.modify array fun a => a.setIfInBounds i x }
  | .entry map key => { h with maps := h.maps.modify map (setEntry key x) }

/-- There is such a place. In a map there is one for every key. -/
def Exists (h : Heap) : Place → Prop
  | .entry map _ => map < h.maps.size
  | p => (p.look? h).isSome

/-- What is put into the place is found there, which only fails for an entry whose key is not even the
same as itself. -/
def IsFound : Place → Prop
  | .entry _ key => key.same key = true
  | _ => True

theorem isFound_exact (map : Nat) (b : Bool) (n : Int) (name : Bytes) :
    (Place.entry map (.bool b)).IsFound ∧ (Place.entry map (.int n)).IsFound ∧
      (Place.entry map (.string name)).IsFound := by
  simp [IsFound, Datum.same]

/-- Only a float that is not a number is lost. -/
theorem isFound_float_iff {map : Nat} {x : Float} :
    (Place.entry map (.float x)).IsFound ↔ x.isNaN = false := by
  have hswap : floatOrdering x x = (floatOrdering x x).map Ordering.swap := floatOrdering_swap
  have hnone : floatOrdering x x = none ↔ x.isNaN = true := by
    rw [floatOrdering_eq_none_iff, or_self]
  show Datum.same (.float x) (.float x) = true ↔ _
  rw [Datum.same, float_beq_iff, ← Bool.not_eq_true, ← hnone]
  constructor
  · intro heq hno
    rw [heq] at hno
    cases hno
  · intro hsome
    cases h : floatOrdering x x with
    | none => exact absurd h hsome
    | some o =>
      rw [h] at hswap
      cases o <;> first | rfl | cases hswap

/-- Neither of the places is, or lies inside of, the other. -/
def Apart : Place → Place → Prop
  | .field cell inside, .field cell' inside' =>
    cell ≠ cell' ∨ ¬inside <+: inside' ∧ ¬inside' <+: inside
  | .item array i, .item array' i' => array ≠ array' ∨ i ≠ i'
  | .entry map key, .entry map' key' => map ≠ map' ∨ KeysApart key key'
  | _, _ => True

/-- What is put into a place is there. -/
theorem look?_put (hp : p.Exists h) (hfound : p.IsFound) : p.look? (p.put h x) = some x := by
  cases p with
  | field cell inside =>
    obtain ⟨d, hd⟩ := Option.isSome_iff_exists.1 hp
    obtain ⟨c, hc, hat⟩ := Option.bind_eq_some_iff.1 hd
    show ((h.cells.modify cell (Datum.setAt x inside))[cell]?).bind (Datum.at? inside) = some x
    rw [Array.getElem?_modify, if_pos rfl, hc]
    exact at?_setAt (by rw [hat]; rfl)
  | item array i =>
    obtain ⟨d, hd⟩ := Option.isSome_iff_exists.1 hp
    obtain ⟨a, ha, hi⟩ := Option.bind_eq_some_iff.1 hd
    obtain ⟨hlt, -⟩ := Array.getElem?_eq_some_iff.1 hi
    show ((h.arrays.modify array fun a => a.setIfInBounds i x)[array]?).bind (·[i]?) = some x
    rw [Array.getElem?_modify, if_pos rfl, ha]
    exact Array.getElem?_setIfInBounds_self_of_lt hlt
  | entry map key =>
    show ((h.maps.modify map (setEntry key x))[map]?).bind (entryOf? key) = some x
    rw [Array.getElem?_modify, if_pos rfl, Array.getElem?_eq_getElem hp]
    exact entryOf?_setEntry hfound

/-- Other places keep what is in them. -/
theorem look?_put_of_apart (hpq : p.Apart q) : q.look? (p.put h x) = q.look? h := by
  match p, q, hpq with
  | .field cell inside, .field cell' inside', hpq =>
    show ((h.cells.modify cell (Datum.setAt x inside))[cell']?).bind (Datum.at? inside') =
      (h.cells[cell']?).bind (Datum.at? inside')
    rw [Array.getElem?_modify]
    split
    case isTrue heq =>
      obtain hne | ⟨hno, hno'⟩ := hpq
      · exact absurd heq hne
      · subst heq
        cases h.cells[cell]? with
        | none => rfl
        | some c => exact at?_setAt_of_apart hno hno'
    case isFalse => rfl
  | .item array i, .item array' i', hpq =>
    show ((h.arrays.modify array fun a => a.setIfInBounds i x)[array']?).bind (·[i']?) =
      (h.arrays[array']?).bind (·[i']?)
    rw [Array.getElem?_modify]
    split
    case isTrue heq =>
      subst heq
      have hne : i ≠ i' := hpq.resolve_left fun hno => hno rfl
      cases h.arrays[array]? with
      | none => rfl
      | some a => exact Array.getElem?_setIfInBounds_ne hne
    case isFalse => rfl
  | .entry map key, .entry map' key', hpq =>
    show ((h.maps.modify map (setEntry key x))[map']?).bind (entryOf? key') =
      (h.maps[map']?).bind (entryOf? key')
    rw [Array.getElem?_modify]
    split
    case isTrue heq =>
      subst heq
      have hne : KeysApart key key' := hpq.resolve_left fun hno => hno rfl
      cases h.maps[map]? with
      | none => rfl
      | some es => exact entryOf?_setEntry_of_apart hne
    case isFalse => rfl
  | .field .., .item .., _ => rfl
  | .field .., .entry .., _ => rfl
  | .item .., .field .., _ => rfl
  | .item .., .entry .., _ => rfl
  | .entry .., .field .., _ => rfl
  | .entry .., .item .., _ => rfl

/-- To put into a place what is in it changes nothing. -/
theorem put_eq_self (hp : p.look? h = some x) : p.put h x = h := by
  cases p with
  | field cell inside =>
    obtain ⟨c, hc, hat⟩ := Option.bind_eq_some_iff.1 hp
    have hcells : h.cells.modify cell (Datum.setAt x inside) = h.cells :=
      array_modify_eq_self fun a ha => setAt_eq_self (by rwa [Option.some.inj (ha.symm.trans hc)])
    show { h with cells := h.cells.modify cell (Datum.setAt x inside) } = h
    rw [hcells]
  | item array i =>
    obtain ⟨a, ha, hi⟩ := Option.bind_eq_some_iff.1 hp
    have harrays : h.arrays.modify array (fun a => a.setIfInBounds i x) = h.arrays := by
      refine array_modify_eq_self fun a' ha' => ?_
      obtain rfl : a' = a := Option.some.inj (ha'.symm.trans ha)
      exact setIfInBounds_eq_self hi
    show { h with arrays := h.arrays.modify array fun a => a.setIfInBounds i x } = h
    rw [harrays]
  | entry map key =>
    obtain ⟨es, hes, hat⟩ := Option.bind_eq_some_iff.1 hp
    have hmaps : h.maps.modify map (setEntry key x) = h.maps :=
      array_modify_eq_self fun a ha => setEntry_eq_self (by rwa [Option.some.inj (ha.symm.trans hes)])
    show { h with maps := h.maps.modify map (setEntry key x) } = h
    rw [hmaps]

end Place

end Stencil
