import Stencil.Dispatch.Invoke
import Stencil.Proofs.Host.Places
import Stencil.Proofs.Machine.Exits

/-!
# Ints assigned to places of the host

An int is converted to an integer type of the host if its number is one of that type, and to no other
(`run_convert_int`). What is put into a slot of the type is that number (`toSlot_ofSlot_int`), and an int
is read from the slot whose number agrees in its low 64 bits (`fromSlot_int`).

An index into a map is converted to the type of its keys. The outcome only depends on which messages
there are, and nothing is changed on the way (`unaffected_convert`): the keys of a map are neither
sequences, maps nor functions, so that no part of an index is looked at.

A program assigns to host data in four ways: to a field of the record that a pointer points to, to the
entry of a map by its name or by an index, and to an element of a slice. `Assignment.At` tells which place
an assignment is to. Where there is none, every assignment fails (`To.at_or_fails`). Where there is one,
an int is put there if its number is one of the type and refused otherwise (`At.run_write_int`), the place
of the assignment stays where it is (`At.put`), and what is in it is read (`At.run_read`).
`convert_assign_exact` puts these together.

A map is asked for an entry by a key of its own, and a float that is not a number is the same as no key:
its entry is assigned to and not found (`assign_not_a_number`). An index that has no hash, such as a slice
where the keys are of an interface type, stands for no entry, and every assignment to it fails.

## What is assumed

A place of an integer type holds an integer, if anything. The map and the array that a value refers to
are in the heap, and the array has at least as many elements as the slice.
-/

namespace Stencil

variable {t : HostType} {k : IntKind} {v : Int64}

/-! ### Ints and slots -/

theorem intKind?_cases (hk : t.intKind? = some k) : t = .int k ∨ ∃ name, t = .named name (.int k) := by
  cases t with
  | int j =>
    obtain rfl : j = k := Option.some.inj hk
    exact .inl rfl
  | named name base =>
    cases base with
    | int j =>
      obtain rfl : j = k := Option.some.inj hk
      exact .inr ⟨name, rfl⟩
    | _ => cases hk
  | _ => cases hk

theorem fromSlot_int (hk : t.intKind? = some k) (n : Int) :
    Value.fromSlot t (.int n) = .int (Int64.ofInt n) := by
  obtain rfl | ⟨name, rfl⟩ := intKind?_cases hk
  · cases k <;> rfl
  · rfl

theorem normalize_ofSlot_int (hk : t.intKind? = some k) (v : Int64) :
    (Value.ofSlot t (.int v.toInt)).normalize = .int v := by
  have h := fromSlot_int hk v.toInt
  rwa [Int64.ofInt_toInt] at h

theorem toSlot_ofSlot_int (hk : t.intKind? = some k) (v : Int64) :
    (Value.ofSlot t (.int v.toInt)).toSlot t = .int v.toInt := by
  obtain rfl | ⟨name, rfl⟩ := intKind?_cases hk
  · have hv : Int64.ofInt v.toInt = v := Int64.ofInt_toInt v
    cases k with
    | int64 =>
      show Datum.int (Int64.ofInt v.toInt).toInt = _
      rw [hv]
    | _ => rfl
  · rfl

theorem IntKind.holds_iff {n : Int} : k.holds n = true ↔ k.least ≤ n ∧ n ≤ k.greatest := by
  rw [IntKind.holds, Bool.and_eq_true, decide_eq_true_eq, decide_eq_true_eq]

theorem holds_int64 (v : Int64) : IntKind.holds .int64 v.toInt = true := by
  have hleast : IntKind.least .int64 = -2 ^ 63 := by decide
  have hgreatest : IntKind.greatest .int64 = 2 ^ 63 - 1 := by decide
  have hlo := v.le_toInt
  have hhi := v.toInt_lt
  rw [IntKind.holds_iff, hleast, hgreatest]
  omega

section

variable [Host] {fuel : Nat} {call : Callback} {s : Store}

/-- An int is converted to an integer type that has its number, and to no other. -/
theorem run_convert_int (fuel : Nat) (call : Callback) (s : Store) (v : Int64)
    (hk : t.intKind? = some k) :
    ((Value.int v).convert fuel t).run call s =
      if k.holds v.toInt then .ok (Value.ofSlot t (.int v.toInt)) s
      else .error (.plain (Bytes.ofInt v.toInt ++ " overflows Go " ++ t.text) false) s := by
  have hv : Int64.ofInt v.toInt = v := Int64.ofInt_toInt v
  have hconvert (t : HostType) :
      (convertInt v.toInt k t).run call s =
        if k.holds v.toInt then .ok (Value.ofSlot t (.int v.toInt)) s
        else .error (.plain (Bytes.ofInt v.toInt ++ " overflows Go " ++ t.text) false) s := by
    unfold convertInt
    split <;> rfl
  obtain rfl | ⟨name, rfl⟩ := intKind?_cases hk
  · by_cases h64 : k = .int64
    · subst h64
      rw [if_pos (holds_int64 v)]
      show EStateM.Result.ok (Value.int v) s = .ok (Value.int (Int64.ofInt v.toInt)) s
      rw [hv]
    · rw [← hconvert]
      cases k <;> first | exact absurd rfl h64 | rfl
  · rw [← hconvert]
    cases k <;> rfl

/-! ### Keys -/

/-- The types that the keys of a map may have. -/
def HostType.IsKey (t : HostType) : Prop :=
  match t.base with
  | .slice _ | .map _ _ | .function _ _ _ => False
  | _ => True

/-- The heaps have the same messages, so that values have the same types in them. -/
structure Heap.SameTypes (h h' : Heap) : Prop where
  messages : h'.messages = h.messages
  pools : h'.pools = h.pools

omit [Host] in
theorem Heap.SameTypes.hostType? {h h' : Heap} (hsame : h.SameTypes h') (x : Value) :
    x.hostType? h' = x.hostType? h := by
  cases x with
  | message id => rw [Value.hostType?, Value.hostType?, Heap.pool, Heap.pool, hsame.messages, hsame.pools]
  | noMessage t => rw [Value.hostType?, Value.hostType?, Heap.pool, Heap.pool, hsame.pools]
  | type t => cases t <;> rfl
  | _ => rfl

theorem Heap.SameTypes.isAssignable {h h' : Heap} (hsame : h.SameTypes h') (x : Value) (t : HostType) :
    x.isAssignable h' t = x.isAssignable h t := by
  simp only [Value.isAssignable, hsame.hostType?]

/-- What a job comes to that changes nothing and asks nothing: a value, and the same one whatever the
host data are, or an error. -/
inductive Unaffected {α : Type} (call : Callback) (s : Store) (job : Job α) : Prop
  | value (a : α) (h : ∀ s' : Store, s.toHeap.SameTypes s'.toHeap → job.run call s' = .ok a s')
  | error (msg : Bytes) (missing : Bool) (h : job.run call s = .error (.plain msg missing) s)

theorem unaffected_cannotConvert (call : Callback) (s : Store) (x : Value) (t : HostType) :
    Unaffected call s (cannotConvert x t) :=
  .error _ _ rfl

/-- What is converted to the type of a key is converted without a look at its parts. -/
theorem unaffected_convertBase (call : Callback) (s : Store) (item : HostType → Value → Job Datum) (x : Value)
    (hkey : t.IsKey) : Unaffected call s (convertBase fuel item t t.base x) := by
  have done (y : Value) : Unaffected call s (pure y : Job Value) := .value y fun _ _ => rfl
  have refused := unaffected_cannotConvert call s x t
  unfold HostType.IsKey at hkey
  generalize t.base = base at hkey ⊢
  cases base with
  | int k =>
    rw [convertBase]
    split
    · unfold convertInt
      split
      · exact done _
      · exact .error _ _ rfl
    · exact refused
  | bool | float32 | float64 | string => cases x <;> first | exact refused | exact done _
  | slice | map | function => exact absurd hkey id
  | _ => exact refused

/-- The conversion of a key changes nothing. -/
theorem unaffected_convert (x : Value) (hkey : t.IsKey) : Unaffected call s (x.convert fuel t) := by
  obtain ⟨n, hn⟩ : ∃ n, t.height = n + 1 := by cases t <;> exact ⟨_, rfl⟩
  rw [Value.convert, hn]
  by_cases hnull : x.isNull = true
  · by_cases hi : t.isInterface = true
    · refine .value .null fun s' _ => ?_
      rw [convertTo, if_pos hnull, if_pos hi]
      rfl
    · by_cases hnil : t.isNilable = true
      · refine .value (.host t .nil) fun s' _ => ?_
        rw [convertTo, if_pos hnull, if_neg hi, if_pos hnil]
        rfl
      · refine .error (Bytes.ofString "cannot convert null to Go " ++ t.text) false ?_
        rw [convertTo, if_pos hnull, if_neg hi, if_neg hnil]
        rfl
  · let item (u : HostType) (y : Value) : Job Datum := do return (← convertTo fuel n u y).toSlot u
    have hrun (s' : Store) : (convertTo fuel (n + 1) t x).run call s' =
        (if x.isAssignable s'.toHeap t then pure x else convertBase fuel item t t.base x).run call s' := by
      rw [convertTo, if_neg hnull]
      rfl
    by_cases hassign : x.isAssignable s.toHeap t = true
    · refine .value x fun s' hsame => ?_
      rw [hrun, hsame.isAssignable, if_pos hassign]
      rfl
    · rcases unaffected_convertBase call s item x hkey with ⟨y, hy⟩ | ⟨msg, missing, he⟩
      · refine .value y fun s' hsame => ?_
        rw [hrun, hsame.isAssignable, if_neg hassign]
        exact hy s' hsame
      · refine .error msg missing ?_
        rw [hrun, if_neg hassign]
        exact he

omit [Host] in
theorem Unaffected.explaining {α : Type} {job : Job α} (before : Bytes) (h : Unaffected call s job) :
    Unaffected call s (Job.explaining before job) := by
  cases h with
  | value a h => exact .value a fun s' hsame => run_explaining before (h s' hsame)
  | error msg missing h => exact .error _ _ (run_explaining_error before rfl h)

end

/-! ### Assignments -/

/-- A way to assign to host data. -/
inductive Assignment where
  /-- To a member of a value. -/
  | member (m : MemberPath) (x : Value)
  /-- To the entry of a map that a name stands for. -/
  | key (x : Value) (name : Bytes)
  /-- To the entry of a map for an index. -/
  | entry (x i : Value)
  /-- To the element of a sequence at an index. -/
  | item (x i : Value)

namespace Assignment

variable [Host]

/-- Make the assignment. -/
def write (fuel : Nat) (y : Value) : Assignment → Job Unit
  | .member m x => setMember fuel m x y
  | .key x name => setMapKey fuel x name y
  | .entry x i => setMapItem fuel x i y
  | .item x i => setSliceItem fuel x i y

/-- Read what is assigned to. -/
def read (fuel : Nat) : Assignment → Job Value
  | .member m x => getMember m x
  | .key (.host t d) name => mapEntry t d (.string name)
  | .key _ _ => return .null
  | .entry x i => getMapItem fuel x i
  | .item x i => getSliceItem x i

/-- The key that an index of a map stands for. -/
def keyOf (fuel : Nat) (t : HostType) (i : Value) : Job Value :=
  Job.explaining "map key: " (i.convert fuel t.key)

/-- The place of an assignment, and its type. -/
inductive At (fuel : Nat) (call : Callback) (s : Store) : Assignment → HostType → Place → Prop
  | field {t : HostType} {record : Bytes} {path inside : List Nat} {id cell : Nat}
      (ht : t.recordOf? = some (record, true))
      (hplace : fieldPlace s.toHeap record path id [] = .ok (cell, inside)) :
      At fuel call s (.member (.field path true) (.host t (.cell id))) (fieldType record path)
        (.field cell inside)
  | key {t : HostType} {id : Nat} {name : Bytes} (hid : id < s.maps.size) :
      At fuel call s (.key (.host t (.map id)) name) t.elem (.entry id (.string name))
  | entry {t : HostType} {id : Nat} {i key : Value} (hkey : t.key.IsKey) (hid : id < s.maps.size)
      (hrun : (keyOf fuel t i).run call s = .ok key s)
      (hhash : (key.toSlot t.key).unhashable? = none) :
      At fuel call s (.entry (.host t (.map id)) i) t.elem (.entry id (key.toSlot t.key))
  | item {t : HostType} {id n j : Nat} {i : Value} {a : Array Datum} (ha : s.arrays[id]? = some a)
      (hn : n ≤ a.size) (hrun : (indexIn i n).run call s = .ok j s) :
      At fuel call s (.item (.host t (.slice (.array id) n)) i) t.elem (.item id j)

/-- The assignment is to a place of the given type, or to none: a field of the record that a pointer
points to, an entry of a map or an element of a slice. The map or the array is in the heap unless it is
missing. -/
inductive To (h : Heap) : Assignment → HostType → Prop
  | field {t : HostType} {d : Datum} {record : Bytes} {path : List Nat}
      (ht : t.recordOf? = some (record, true)) :
      To h (.member (.field path true) (.host t d)) (fieldType record path)
  | key {t : HostType} {d : Datum} {name : Bytes}
      (hd : d = .nil ∨ ∃ id < h.maps.size, d = .map id) : To h (.key (.host t d) name) t.elem
  | entry {t : HostType} {d : Datum} {i : Value} (hkey : t.key.IsKey)
      (hd : d = .nil ∨ ∃ id < h.maps.size, d = .map id) : To h (.entry (.host t d) i) t.elem
  | item {t : HostType} {d : Datum} {i : Value}
      (hd : d = .nil ∨ ∃ id n a, h.arrays[id]? = some a ∧ n ≤ a.size ∧ d = .slice (.array id) n) :
      To h (.item (.host t d) i) t.elem

end Assignment

section

variable [Host] {fuel : Nat} {call : Callback} {s : Store} {a : Assignment} {p : Place}

/-! #### Fields -/

/-- Whatever is put in the place of an int, records in other places stay records and the rest stays as
it is. -/
theorem look?_put_of_int {h : Heap} {cell other : Nat} {final inside : List Nat} {x y : Datum} {m : Int}
    (hint : (Place.field cell final).look? h = some (.int m))
    (hy : (Place.field other inside).look? h = some y) :
    (∃ n, y = .int n) ∨
      (Place.field other inside).look? ((Place.field cell final).put h x) = some y ∨
      ∃ fields fields', y = .record fields ∧
        (Place.field other inside).look? ((Place.field cell final).put h x) = some (.record fields') := by
  show _ ∨ ((h.cells.modify cell (Datum.setAt x final))[other]?).bind (Datum.at? inside) = some y ∨
    ∃ fields fields', y = .record fields ∧
      ((h.cells.modify cell (Datum.setAt x final))[other]?).bind (Datum.at? inside) = some (.record fields')
  rw [Array.getElem?_modify]
  split
  case isTrue heq =>
    subst heq
    obtain ⟨c, hc, hat⟩ := Option.bind_eq_some_iff.1 hint
    obtain ⟨c', hc', hat'⟩ := Option.bind_eq_some_iff.1 hy
    obtain rfl : c' = c := Option.some.inj (hc'.symm.trans hc)
    rw [hc]
    exact at?_setAt_of_int hat hat'
  case isFalse => exact .inr (.inl hy)

/-- The place of a field is one. -/
theorem look?_of_fieldPlace {h : Heap} {record : Bytes} {path : List Nat} {id cell : Nat}
    {inside final : List Nat} (hpath : path ≠ [])
    (hplace : fieldPlace h record path id inside = .ok (cell, final)) :
    ((Place.field cell final).look? h).isSome := by
  induction path generalizing record id inside with
  | nil => exact absurd rfl hpath
  | cons i path ih =>
    rw [fieldPlace] at hplace
    split at hplace
    · cases hplace
    case h_2 y hy =>
      split at hplace
      case isTrue =>
        cases hplace
        exact Option.isSome_iff_exists.2 ⟨y, hy⟩
      case isFalse hmore =>
        have hne : path ≠ [] := fun hnil => hmore (by rw [hnil]; rfl)
        split at hplace
        · exact ih hne hplace
        · exact ih hne hplace
        · cases hplace

/-- What the first step towards a field comes to. -/
theorem fieldPlace_cons {h : Heap} {record : Bytes} {path : List Nat} {i id : Nat} {inside : List Nat}
    {y : Datum} : (Place.field id (inside ++ [i])).look? h = some y →
    fieldPlace h record (i :: path) id inside =
      if path.isEmpty then .ok (id, inside ++ [i])
      else
        match y with
        | .cell id => fieldPlace h (embeddedRecord record i) path id []
        | .record _ => fieldPlace h (embeddedRecord record i) path id (inside ++ [i])
        | _ => .error (nilEmbedded (embeddedRecord record i)) := by
  intro hy
  have hlook : (h.cells[id]?).bind (Datum.at? (inside ++ [i])) = some y := hy
  cases y <;> rw [fieldPlace, hlook]

/-- The place of a field is found again after something has been put there in the place of an int. -/
theorem fieldPlace_put {h : Heap} {record : Bytes} {path : List Nat} {id cell : Nat}
    {inside final : List Nat} {x : Datum} {m : Int} (hpath : path ≠ [])
    (hplace : fieldPlace h record path id inside = .ok (cell, final))
    (hint : (Place.field cell final).look? h = some (.int m)) :
    fieldPlace ((Place.field cell final).put h x) record path id inside = .ok (cell, final) := by
  induction path generalizing record id inside with
  | nil => exact absurd rfl hpath
  | cons i path ih =>
    cases hlook : (Place.field id (inside ++ [i])).look? h with
    | none =>
      have hnone : (h.cells[id]?).bind (Datum.at? (inside ++ [i])) = none := hlook
      rw [fieldPlace, hnone] at hplace
      cases hplace
    | some y =>
      rw [fieldPlace_cons hlook] at hplace
      by_cases hlast : path.isEmpty = true
      · rw [if_pos hlast] at hplace
        have hx : (Place.field cell final).look? ((Place.field cell final).put h x) = some x :=
          Place.look?_put (Option.isSome_iff_exists.2 ⟨_, hint⟩) trivial
        cases hplace
        rw [fieldPlace_cons hx, if_pos hlast]
      · have hne : path ≠ [] := fun hnil => hlast (by rw [hnil]; rfl)
        rw [if_neg hlast] at hplace
        obtain ⟨n, rfl⟩ | hsame | ⟨fields, fields', rfl, hrecord⟩ := look?_put_of_int (x := x) hint hlook
        · cases hplace
        · rw [fieldPlace_cons hsame, if_neg hlast]
          cases y with
          | cell id' => exact ih hne hplace
          | record fields => exact ih hne hplace
          | _ => cases hplace
        · rw [fieldPlace_cons hrecord, if_neg hlast]
          exact ih hne hplace

theorem run_placeOf {record : Bytes} {path : List Nat} {id : Nat} {place : Nat × List Nat}
    (h : fieldPlace s.toHeap record path id [] = .ok place) :
    (placeOf record path (.cell id)).run call s = .ok place s := by
  rw [placeOf, run_bind_ok run_get, h]
  rfl

/-- A pointer leads to the place of a field, or fails to. -/
theorem run_placeOf_cases (call : Callback) (s : Store) (record : Bytes) (path : List Nat) (d : Datum) :
    (∃ id place, d = .cell id ∧ fieldPlace s.toHeap record path id [] = .ok place) ∨
      ∃ e, (placeOf record path d).run call s = .error e s := by
  cases d with
  | cell id =>
    cases hplace : fieldPlace s.toHeap record path id [] with
    | ok place => exact .inl ⟨id, place, rfl, hplace⟩
    | error e =>
      refine .inr ⟨e, ?_⟩
      rw [placeOf, run_bind_ok run_get, hplace]
      rfl
  | _ => exact .inr ⟨_, rfl⟩

/-! #### Elements of slices and entries of maps -/

omit [Host] in
theorem toNatClampNeg_lt {m : Int64} {n : Nat} (hneg : ¬m < 0) (hlt : ¬Int64.ofNat n ≤ m) :
    m.toNatClampNeg < n := by
  have hpos : 0 ≤ m.toInt := by simpa [Int64.lt_iff_toInt_lt] using hneg
  have hbelow : m.toInt < (Int64.ofNat n).toInt := by simpa [Int64.le_iff_toInt_le] using hlt
  have hwrap : (Int64.ofNat n).toInt ≤ n := by
    rw [Int64.toInt_ofNat', show Int64.size = 2 ^ 64 from rfl, Int.bmod_def]
    split <;> omega
  show m.toInt.toNat < n
  omega

/-- An index is taken if it is that of an element. -/
theorem run_indexIn_cases (call : Callback) (s : Store) (i : Value) (n : Nat) :
    (∃ j < n, ∀ s : Store, (indexIn i n).run call s = .ok j s) ∨
      ∃ e, (indexIn i n).run call s = .error e s := by
  cases i with
  | int m =>
    by_cases hout : m < 0 ∨ Int64.ofNat n ≤ m
    · refine .inr ⟨.plain (Bytes.ofString "index " ++ Bytes.ofInt m.toInt ++ " out of range [0:" ++
        Bytes.ofNat n ++ "]") false, ?_⟩
      rw [indexIn, if_pos (by simpa using hout)]
      rfl
    · obtain ⟨hneg, hlt⟩ := not_or.1 hout
      refine .inl ⟨m.toNatClampNeg, toNatClampNeg_lt hneg hlt, fun s => ?_⟩
      rw [indexIn, if_neg (by simpa using hout)]
      rfl
  | _ => exact .inr ⟨_, rfl⟩

/-- Indexes do not depend on the store. -/
theorem run_indexIn_any {i : Value} {n j : Nat} (h : (indexIn i n).run call s = .ok j s) (s' : Store) :
    (indexIn i n).run call s' = .ok j s' := by
  obtain ⟨j', -, hrun⟩ | ⟨e, he⟩ := run_indexIn_cases call s i n
  · have heq := (hrun s).symm.trans h
    injection heq with hj _
    rw [← hj]
    exact hrun s'
  · have heq := he.symm.trans h
    injection heq

theorem lt_of_run_indexIn {i : Value} {n j : Nat} (h : (indexIn i n).run call s = .ok j s) : j < n := by
  obtain ⟨j', hlt, hrun⟩ | ⟨e, he⟩ := run_indexIn_cases call s i n
  · have heq := (hrun s).symm.trans h
    injection heq with hj _
    rw [← hj]
    exact hlt
  · have heq := he.symm.trans h
    injection heq

theorem find?_map {h : Heap} {id : Nat} (hid : id < h.maps.size) (key : Datum) :
    (Datum.map id).find? h key = (Place.entry id key).look? h := by
  show (entryOf? key (h.maps.getD id [])) = (h.maps[id]?).bind (entryOf? key)
  rw [Array.getD_eq_getD_getElem?, Array.getElem?_eq_getElem hid]
  rfl

/-- A key that has a hash is looked for among the entries. -/
theorem run_mapEntry {id : Nat} {key : Datum} (hhash : key.unhashable? = none)
    (hid : id < s.maps.size) : (mapEntry t (.map id) key).run call s =
      .ok ((((Place.entry id key).look? s.toHeap).map (Value.fromSlot t.elem)).getD .null) s := by
  rw [mapEntry, hashKey, hhash, ← find?_map hid]
  rfl

/-- An entry is set under a key that has a hash. -/
theorem setMapEntryOf_eq {id : Nat} {key x : Datum} (hhash : key.unhashable? = none) :
    setMapEntryOf (.map id) key x = Job.modify fun h => (Place.entry id key).put h x := by
  rw [setMapEntryOf, hashKey, hhash]
  rfl

/-- None is set under a key that has no hash. -/
theorem run_setMapEntryOf_error {key : Datum} (hhash : key.unhashable? ≠ none) (call : Callback)
    (s : Store) (id : Nat) (x : Datum) :
    ∃ e, (setMapEntryOf (.map id) key x).run call s = .error e s := by
  obtain ⟨u, hu⟩ := Option.ne_none_iff_exists'.1 hhash
  refine ⟨.panic (Bytes.ofString "runtime error: hash of unhashable type " ++ u.text) false, ?_⟩
  rw [setMapEntryOf, hashKey, hu]
  rfl

namespace Assignment

theorem unaffected_keyOf (fuel : Nat) (call : Callback) (s : Store) (i : Value) (hkey : t.key.IsKey) :
    Unaffected call s (keyOf fuel t i) :=
  (unaffected_convert i hkey).explaining _

/-! #### How assignments run -/

/-- Convert a value and put it into a place. -/
def store (fuel : Nat) (y : Value) (t : HostType) (p : Place) : Job Unit := do
  let x ← y.convert fuel t
  Job.modify fun h => p.put h (x.toSlot t)

/-- An assignment to a field finds its place first. -/
theorem write_field {record : Bytes} {path : List Nat} (ht : t.recordOf? = some (record, true))
    (d : Datum) (y : Value) :
    write fuel y (.member (.field path true) (.host t d)) = .read fun _ => placeOf record path d >>=
      fun place => store fuel y (fieldType record path) (.field place.1 place.2) := by
  obtain rfl : ((t.recordOf?).map (·.1)).getD [] = record := by rw [ht]; rfl
  rfl

/-- So does the reading of a field. -/
theorem read_field {record : Bytes} {path : List Nat} (ht : t.recordOf? = some (record, true))
    (d : Datum) :
    read fuel (.member (.field path true) (.host t d)) = placeOf record path d >>= fun place =>
      .read fun h => pure (Value.fromSlot (fieldType record path)
        (((Place.field place.1 place.2).look? h).getD .nil)) := by
  obtain rfl : ((t.recordOf?).map (·.1)).getD [] = record := by rw [ht]; rfl
  rfl

/-- An assignment to an entry finds its key first. -/
theorem run_write_entry {id : Nat} {i key : Value} (hrun : (keyOf fuel t i).run call s = .ok key s)
    (y : Value) : (write fuel y (.entry (.host t (.map id)) i)).run call s =
      (y.convert fuel t.elem >>= fun x =>
        setMapEntryOf (.map id) (key.toSlot t.key) (x.toSlot t.elem)).run call s :=
  run_bind_ok hrun _

/-- Where there is no place to assign to, every assignment fails, and that of an int changes nothing. -/
theorem To.at_or_fails (h : a.To s.toHeap t) (hk : t.intKind? = some k) (fuel : Nat)
    (call : Callback) :
    (∃ p, a.At fuel call s t p) ∨
      (∀ y, ∃ e s', (a.write fuel y).run call s = .error e s') ∧
        ∀ v, ∃ e, (a.write fuel (.int v)).run call s = .error e s := by
  have outright (hfails : ∀ y, ∃ e, (a.write fuel y).run call s = .error e s) :
      (∀ y, ∃ e s', (a.write fuel y).run call s = .error e s') ∧
        ∀ v, ∃ e, (a.write fuel (.int v)).run call s = .error e s :=
    ⟨fun y => let ⟨e, he⟩ := hfails y; ⟨e, s, he⟩, fun v => hfails (.int v)⟩
  cases h with
  | @field t d record path ht =>
    obtain ⟨id, ⟨cell, inside⟩, rfl, hplace⟩ | ⟨e, he⟩ := run_placeOf_cases call s record path d
    · exact .inl ⟨_, .field ht hplace⟩
    · refine .inr (outright fun y => ⟨e, ?_⟩)
      rw [write_field ht]
      exact run_bind_error he _
  | key hd =>
    obtain rfl | ⟨id, hid, rfl⟩ := hd
    · exact .inr (outright fun y => ⟨_, rfl⟩)
    · exact .inl ⟨_, .key hid⟩
  | @entry t d i hkey hd =>
    obtain rfl | ⟨id, hid, rfl⟩ := hd
    · exact .inr (outright fun y => ⟨_, rfl⟩)
    · cases unaffected_keyOf fuel call s i hkey with
      | error msg missing he => exact .inr (outright fun y => ⟨_, run_bind_error he _⟩)
      | value key hkeys =>
        have hrun := hkeys s ⟨rfl, rfl⟩
        by_cases hhash : (key.toSlot t.key).unhashable? = none
        · exact .inl ⟨_, .entry hkey hid hrun hhash⟩
        -- the value is converted before the key is hashed
        · refine .inr ⟨fun y => ?_, fun v => ?_⟩
          · rw [run_write_entry hrun]
            cases hy : (y.convert fuel t.elem).run call s with
            | error e s' => exact ⟨e, s', run_bind_error hy _⟩
            | ok x s' =>
              obtain ⟨e, he⟩ := run_setMapEntryOf_error hhash call s' id (x.toSlot t.elem)
              exact ⟨e, s', (run_bind_ok hy _).trans he⟩
          · rw [run_write_entry hrun]
            have hconvert := run_convert_int fuel call s v hk
            split at hconvert
            · obtain ⟨e, he⟩ := run_setMapEntryOf_error hhash call s id
                ((Value.ofSlot t.elem (.int v.toInt)).toSlot t.elem)
              exact ⟨e, (run_bind_ok hconvert _).trans he⟩
            · exact ⟨_, run_bind_error hconvert _⟩
  | @item t d i hd =>
    obtain ⟨j, hj, hindex⟩ | ⟨e, he⟩ := run_indexIn_cases call s i (d.length s.toHeap)
    · obtain rfl | ⟨id, n, items, hitems, hn, rfl⟩ := hd
      · exact absurd hj (Nat.not_lt_zero j)
      · exact .inl ⟨_, .item hitems hn (hindex s)⟩
    · exact .inr (outright fun y => ⟨e, run_bind_error he _⟩)

namespace At

variable {s' : Store} {x : Datum} {n : Int}

/-- An assignment puts what the value is converted to into its place. -/
theorem run_write (h : a.At fuel call s t p) (y : Value) :
    (a.write fuel y).run call s = (store fuel y t p).run call s := by
  cases h with
  | field ht hplace =>
    rw [write_field ht]
    exact run_bind_ok (run_placeOf hplace) _
  | key => rfl
  | entry _ _ hrun hhash =>
    rw [run_write_entry hrun]
    simp only [setMapEntryOf_eq hhash]
    rfl
  | item _ _ hrun => exact run_bind_ok hrun _

/-- What is in the place is read. -/
theorem run_read (h : a.At fuel call s t p) (hlook : p.look? s.toHeap = some x) :
    (a.read fuel).run call s = .ok (Value.fromSlot t x) s := by
  cases h with
  | @field t record path inside id cell ht hplace =>
    rw [read_field ht, run_bind_ok (run_placeOf hplace)]
    show EStateM.Result.ok (Value.fromSlot (fieldType record path)
      (((Place.field cell inside).look? s.toHeap).getD .nil)) s = _
    rw [hlook, Option.getD_some]
  | key hid =>
    refine (run_mapEntry rfl hid).trans ?_
    rw [hlook, Option.map_some, Option.getD_some]
  | entry _ hid hrun hhash =>
    refine (run_bind_ok hrun _).trans ((run_mapEntry hhash hid).trans ?_)
    rw [hlook, Option.map_some, Option.getD_some]
  | @item t id m j i items hitems hm hrun =>
    obtain ⟨b, hb, hat⟩ := Option.bind_eq_some_iff.1 hlook
    have hitem : ((Datum.slice (.array id) m).items s.toHeap)[j]? = some x := by
      show ((s.arrays.getD id #[]).toList.take m)[j]? = _
      rw [List.getElem?_take_of_lt (lt_of_run_indexIn hrun), Array.getD_eq_getD_getElem?, hb,
        Option.getD_some, Array.getElem?_toList]
      exact hat
    refine (run_bind_ok hrun _).trans ?_
    show EStateM.Result.ok (((((Datum.slice (.array id) m).items s.toHeap)[j]?).map
      (Value.fromSlot t.elem)).getD .null) s = _
    rw [hitem, Option.map_some, Option.getD_some]

/-- There is such a place. -/
theorem hasPlace (h : a.At fuel call s t p) (hk : t.intKind? = some k) : p.Exists s.toHeap := by
  cases h with
  | @field t record path inside id cell ht hplace =>
    have hpath : path ≠ [] := by
      rintro rfl
      cases hk
    exact look?_of_fieldPlace hpath hplace
  | key hid => exact hid
  | entry _ hid _ _ => exact hid
  | @item t id m j i items hitems hm hrun =>
    have hj : j < items.size := Nat.lt_of_lt_of_le (lt_of_run_indexIn hrun) hm
    show (((s.arrays[id]?).bind (·[j]?)).isSome)
    rw [hitems, Option.bind_some, Array.getElem?_eq_getElem hj]
    rfl

/-- It is the same place after something has been put into it, instead of an int or where nothing was. -/
theorem put (h : a.At fuel call s t p) (hk : t.intKind? = some k)
    (hint : ∀ d, p.look? s.toHeap = some d → ∃ m, d = .int m) (hput : s'.toHeap = p.put s.toHeap x) :
    a.At fuel call s' t p := by
  cases h with
  | @field t record path inside id cell ht hplace =>
    have hpath : path ≠ [] := by
      rintro rfl
      cases hk
    obtain ⟨d, hd⟩ := Option.isSome_iff_exists.1 (look?_of_fieldPlace hpath hplace)
    obtain ⟨m, rfl⟩ := hint d hd
    refine .field ht ?_
    rw [hput]
    exact fieldPlace_put hpath hplace hd
  | key hid =>
    refine .key ?_
    rw [hput]
    exact hid.trans_eq (Array.size_modify ..).symm
  | @entry t id i key hkey hid hrun hhash =>
    have hid' : id < s'.maps.size := by
      rw [hput]
      exact hid.trans_eq (Array.size_modify ..).symm
    have hsame : s.toHeap.SameTypes s'.toHeap := by
      rw [hput]
      exact ⟨rfl, rfl⟩
    refine .entry hkey hid' ?_ hhash
    cases unaffected_keyOf fuel call s i hkey with
    | value key' hrun' =>
      have heq := (hrun' s ⟨rfl, rfl⟩).symm.trans hrun
      injection heq with hkey' _
      rw [← hkey']
      exact hrun' s' hsame
    | error msg missing he =>
      have heq := he.symm.trans hrun
      injection heq
  | @item t id m j i items hitems hm hrun =>
    have hitems' : s'.arrays[id]? = some (items.setIfInBounds j x) := by
      rw [hput]
      show (s.arrays.modify id fun a => a.setIfInBounds j x)[id]? = _
      rw [Array.getElem?_modify, if_pos rfl, hitems]
      rfl
    exact .item hitems' (hm.trans_eq (Array.size_setIfInBounds ..).symm) (run_indexIn_any hrun s')

/-- An int is assigned if its number is one of the type, and nothing happens if it is not. -/
theorem run_write_int (h : a.At fuel call s t p) (hk : t.intKind? = some k) (v : Int64) :
    (a.write fuel (.int v)).run call s =
      if k.holds v.toInt then .ok () { s with toHeap := p.put s.toHeap (.int v.toInt) }
      else .error (.plain (Bytes.ofInt v.toInt ++ " overflows Go " ++ t.text) false) s := by
  have hconvert := run_convert_int fuel call s v hk
  rw [h.run_write]
  by_cases hv : k.holds v.toInt = true
  · rw [if_pos hv] at hconvert ⊢
    rw [store, run_bind_ok hconvert, toSlot_ofSlot_int hk]
    rfl
  · rw [if_neg hv] at hconvert ⊢
    exact run_bind_error hconvert _

end At

/-- What the assignment of an int comes to. -/
inductive Assigned (fuel : Nat) (call : Callback) (s : Store) (a : Assignment) (t : HostType)
    (k : IntKind) (v : Int64) : Prop
  /-- The int is put into the place. It is read there from then on, unless it is the entry of a key that a
  map does not find again, and places apart from it keep what they have. -/
  | stored (p : Place) (hat : a.At fuel call s t p) (hholds : k.holds v.toInt = true)
      (hwrite : (a.write fuel (.int v)).run call s =
        .ok () { s with toHeap := p.put s.toHeap (.int v.toInt) })
      (hread : p.IsFound → ∀ s' : Store, s'.toHeap = p.put s.toHeap (.int v.toInt) →
        (a.read fuel).run call s' = .ok (.int v) s')
      (hothers : ∀ q, p.Apart q → q.look? (p.put s.toHeap (.int v.toInt)) = q.look? s.toHeap)
  /-- The number is not one of the type, or there is nothing to assign to. Nothing is changed. -/
  | refused
      (hwhy : k.holds v.toInt = false ∨ ∀ y, ∃ e s', (a.write fuel y).run call s = .error e s')
      (hwrite : ∃ e, (a.write fuel (.int v)).run call s = .error e s)

theorem To.assigned (h : a.To s.toHeap t) (hk : t.intKind? = some k)
    (hint : ∀ p d, a.At fuel call s t p → p.look? s.toHeap = some d → ∃ n, d = .int n) (v : Int64) :
    Assigned fuel call s a t k v := by
  obtain ⟨p, hat⟩ | ⟨hfails, hrefused⟩ := h.at_or_fails hk fuel call
  · have hwrite := hat.run_write_int hk v
    by_cases hv : k.holds v.toInt = true
    · rw [if_pos hv] at hwrite
      refine .stored p hat hv hwrite (fun hfound s' hput => ?_) fun q hq => Place.look?_put_of_apart hq
      have hat' : a.At fuel call s' t p := hat.put hk (fun d => hint p d hat) hput
      have hlook : p.look? s'.toHeap = some (.int v.toInt) := by
        rw [hput]
        exact Place.look?_put (hat.hasPlace hk) hfound
      rw [hat'.run_read hlook, fromSlot_int hk, Int64.ofInt_toInt]
    · rw [if_neg hv] at hwrite
      exact .refused (.inl (Bool.eq_false_iff.2 hv)) ⟨_, hwrite⟩
  · exact .refused (.inr hfails) (hrefused v)

end Assignment

/-- An int is converted to an integer type exactly if its number is one of the type, and is the same int
as a value again. Its assignment to a place of the type either puts it there and leaves all other places
alone, or fails and changes nothing. -/
theorem convert_assign_exact (fuel : Nat) (call : Callback) (s : Store) (t : HostType) (k : IntKind)
    (hk : t.intKind? = some k) (v : Int64) :
    ((∃ y s', ((Value.int v).convert fuel t).run call s = .ok y s') ↔
      k.least ≤ v.toInt ∧ v.toInt ≤ k.greatest) ∧
    (∀ y s', ((Value.int v).convert fuel t).run call s = .ok y s' → y.normalize = .int v ∧ s' = s) ∧
    (∀ e s', ((Value.int v).convert fuel t).run call s = .error e s' → s' = s) ∧
    ∀ a : Assignment, a.To s.toHeap t →
      (∀ p d, a.At fuel call s t p → p.look? s.toHeap = some d → ∃ n, d = .int n) →
      Assignment.Assigned fuel call s a t k v := by
  rw [run_convert_int fuel call s v hk, ← IntKind.holds_iff]
  refine ⟨?_, ?_, ?_, fun a ha hint => ha.assigned hk hint v⟩
  · by_cases hv : k.holds v.toInt = true
    · simp [hv]
    · simp [hv]
  · intro y s' h
    split at h
    · cases h
      exact ⟨normalize_ofSlot_int hk v, rfl⟩
    · cases h
  · intro e s' h
    split at h
    · cases h
    · cases h
      rfl

end

/-- Two bytes with a type of their own, in an array of the host. -/
def twoLevels : Store := { arrays := #[#[.int 1, .int 2]] }

/-- A slice of them. -/
def levels : HostType := .slice (.named "Level" (.int .uint8))

/-- An element of the slice takes the int 255. -/
theorem convert_assign_level : levels.elem.intKind? = some .uint8 ∧ ∀ call : Callback,
    @Assignment.Assigned standalone.toHost 0 call twoLevels
      (.item (.host levels (.slice (.array 0) 2)) (.int 1)) levels.elem .uint8 255 := by
  let : Host := standalone.toHost
  refine ⟨rfl, fun call => ?_⟩
  refine (convert_assign_exact 0 call twoLevels levels.elem .uint8 rfl 255).2.2.2 _
    (.item (.inr ⟨0, 2, _, rfl, Nat.le_refl 2, rfl⟩)) ?_
  rintro p d (_ | _ | _ | @⟨_, _, _, j, _, items, hitems, _, hrun⟩) hlook
  have hj : j < 2 := lt_of_run_indexIn hrun
  obtain rfl | rfl : j = 0 ∨ j = 1 := by omega
  · exact ⟨1, (Option.some.inj hlook).symm⟩
  · exact ⟨2, (Option.some.inj hlook).symm⟩

/-- A map from floats to ints, without entries. -/
def ratings : HostType := .map .float64 (.int .int64)

/-- A float that is not a number is no key that a map finds: an int is assigned to its entry without an
error, and null is read there. -/
theorem assign_not_a_number :
    let : Host := standalone.toHost
    let a := Assignment.entry (.host ratings (.map 0)) (.float Decimal.notANumber)
    a.To ({ maps := #[[]] } : Store).toHeap (.int .int64) ∧ ∀ call : Callback, ∃ s',
      (a.write 0 (.int 1)).run call { maps := #[[]] } = .ok () s' ∧
        (a.read 0).run call s' = .ok .null s' := by
  let : Host := standalone.toHost
  let after : Store := { maps := #[[(.float Decimal.notANumber, .int 1)]] }
  refine ⟨.entry trivial (.inr ⟨0, Nat.one_pos, rfl⟩), fun call => ⟨after, rfl, ?_⟩⟩
  have hself : (Decimal.notANumber == Decimal.notANumber) = false := by decide
  have hlook : (Place.entry 0 (Value.toSlot ratings.key (.float Decimal.notANumber))).look? after.toHeap =
      none := by
    change (Place.entry 0 (.float Decimal.notANumber)).look? _ = _
    simp [after, Place.look?, entryOf?, Datum.same, hself]
  refine (run_mapEntry (t := ratings) rfl Nat.one_pos).trans ?_
  rw [hlook]
  rfl

end Stencil
