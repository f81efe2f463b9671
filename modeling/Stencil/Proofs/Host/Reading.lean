import Stencil.Proofs.Association
import Stencil.Proofs.Host.Assignment
import Stencil.Proofs.Host.Enumeration
import Stencil.Proofs.Message.Integers
import Stencil.Proofs.Range

/-!
# Numbers of the host

A program gets at the integers of its host in many ways: from fields, entries of maps and elements, as
keys of maps, as results of functions, and from the fields of messages, their lists and their maps; by a
name, by an index and by iteration; and from slots of interface types as well. `HostNumber` lists them, each
with the job that reads the number and, where the number can be put back, the assignment to where it is.

A number is read as the int that agrees with it in its low 64 bits. It is kept (`NumberKept`) if that int
has the same number and can be assigned back with nothing changed by it. Numbers of 64 bits without a sign
need not be: one that is not an int is read as another number, a negative one, and the place it comes from
does not take that (`hostNumber_kept_iff`).

## What is assumed

Of the fields of a message of which at most one can be set, no other one is set. What a message holds in a
field counts as set, or is the value that the field has anyway. A map in a message has one entry for a key.
Data that an iteration goes through stay as they are meanwhile.
-/

namespace Stencil

/-! ### Numbers without a sign read as ints -/

theorem toInt_ofInt_iff {n : Int} : (Int64.ofInt n).toInt = n ↔ FitsWord n := by
  rw [Int64.toInt_ofInt, show Int64.size = 2 ^ 64 from rfl, Int.bmod_def, FitsWord]
  split <;> omega

/-- A number of a type that is not an int is too large for one, and only types without a sign have it. -/
theorem misread_of_holds {k : IntKind} {n : Int} (hn : k.holds n = true) (hfits : ¬FitsWord n) :
    (Int64.ofInt n).toInt = n - 2 ^ 64 ∧ k.holds (Int64.ofInt n).toInt = false := by
  have hbounds : k.least ≤ n ∧ n ≤ k.greatest := IntKind.holds_iff.1 hn
  have hrange : k.least = 0 ∧ k.greatest < 2 ^ 64 ∨ -2 ^ 63 ≤ k.least ∧ k.greatest < 2 ^ 63 := by
    cases k <;> decide
  have hlarge : k.least = 0 ∧ 2 ^ 63 ≤ n ∧ n < 2 ^ 64 := by
    unfold FitsWord at hfits
    omega
  have hread : (Int64.ofInt n).toInt = n - 2 ^ 64 := by
    rw [Int64.toInt_ofInt, show Int64.size = 2 ^ 64 from rfl, Int.bmod_def]
    split <;> omega
  refine ⟨hread, ?_⟩
  rw [hread, ← Bool.not_eq_true, IntKind.holds_iff]
  omega

/-! ### The numbers of a host -/

section

variable [Host]

/-- The number is one of the type. -/
def HostType.HasNumber (t : HostType) (n : Int) : Prop :=
  ∃ k, t.intKind? = some k ∧ k.holds n = true

/-- The number is one of the type of a field. -/
def FieldKind.HasNumber (kind : FieldKind) (n : Int) : Prop :=
  ∃ lo hi, kind.bounds? = some (lo, hi) ∧ lo ≤ n ∧ n ≤ hi

/-- A slot of the type that holds the data shows a number: one of the type, or in a slot of an interface
type one of any integer type. -/
inductive HostType.Shows : HostType → Datum → Int → Prop
  | number {t : HostType} {n : Int} (hn : t.HasNumber n) : t.Shows (.int n) n
  | any {t u : HostType} {n : Int} (ht : t.isInterface = true) (hn : u.HasNumber n) :
      t.Shows (.any (Value.ofSlot u (.int n))) n

/-- A number of the host, with the job by which a program reads it and the assignment to where it is. -/
inductive HostNumber (fuel : Nat) (call : Callback) (s : Store) :
    Job Value → Option (Value → Job Unit) → Int → Prop
  /-- In a field behind a pointer, an entry of a map or an element of a slice. -/
  | place {a : Assignment} {t : HostType} {p : Place} {n : Int} (hat : a.At fuel call s t p)
      (hn : t.HasNumber n) (hlook : p.look? s.toHeap = some (.int n)) :
      HostNumber fuel call s (a.read fuel) (some fun y => a.write fuel y) n
  /-- In such a place of an interface type. An int that is put there is one of 64 bits, so that the number
  may have another type afterwards. -/
  | slot {a : Assignment} {t : HostType} {p : Place} {d : Datum} {n : Int}
      (hat : a.At fuel call s t p) (hn : t.Shows d n) (hlook : p.look? s.toHeap = some d) :
      HostNumber fuel call s (a.read fuel) none n
  /-- In a field of a record. -/
  | field {t : HostType} {record : Bytes} {path : List Nat} {d x : Datum} {n : Int}
      (ht : t.recordOf? = some (record, false)) (hn : (fieldType record path).Shows x n)
      (hrun : (readField record path d).run call s = .ok x s) :
      HostNumber fuel call s (getMember (.field path false) (.host t d)) none n
  /-- An element of an array. -/
  | item {t : HostType} {ds : List Datum} {i : Value} {j : Nat} {x : Datum} {n : Int}
      (hn : t.elem.Shows x n) (hrun : (indexIn i ds.length).run call s = .ok j s)
      (hitem : ds[j]? = some x) :
      HostNumber fuel call s (getSliceItem (.host t (.array ds)) i) none n
  /-- A key of a map that an iteration comes to. -/
  | key {t u v : HostType} {d x : Datum} {i : Nat} {n : Int} (ht : t.base = .map u v)
      (hplain : (Host.isIterable t || Host.isSequence t) = false) (hn : u.Shows x n)
      (hkey : (d.sortedKeys s.toHeap t)[i]? = some x) :
      HostNumber fuel call s (partAfter fuel (.host t d) i) none n
  /-- An element of a slice or an array that an iteration comes to. -/
  | element {t u : HostType} {d x : Datum} {i : Nat} {n : Int}
      (ht : t.base = .slice u ∨ ∃ size, t.base = .array size u)
      (hplain : (Host.isIterable t || Host.isSequence t) = false) (hn : t.elem.Shows x n)
      (hitem : (d.items s.toHeap)[i]? = some x) :
      HostNumber fuel call s (partAfter fuel (.host t d) i) none n
  /-- The result of a function. -/
  | result {fn : Value} {g : Signature} {args : List Value} {t : HostType} {x : Datum} {s' : Store}
      {n : Int} (hn : t.Shows x n)
      (hrun : (hostResults fuel fn g args).run call s = .ok [Value.ofSlot t x] s') :
      HostNumber fuel call s (callHost fuel fn g args) none n
  /-- One of the results of a function. -/
  | results {fn : Value} {g : Signature} {args xs : List Value} {t : HostType} {x : Datum} {i : Nat}
      {s' : Store} {n : Int} (hn : t.Shows x n)
      (hrun : (hostResults fuel fn g args).run call s = .ok xs s') (hmany : 2 ≤ xs.length)
      (hx : xs[i]? = some (Value.ofSlot t x)) :
      HostNumber fuel call s (callHost fuel fn g args >>= fun l => .read fun h => pure (l.item h i))
        none n
  /-- In a field of a message. -/
  | messageField {id depth : Nat} {name : Bytes} {m : MessageCell} {f : FieldDesc} {n : Int}
      (hm : s.messages[id]? = some m) (hf : (s.describe m.type).field? name = some f)
      (hsingle : f.cardinality ≠ .repeated) (hn : f.kind.HasNumber n)
      (hheld : m.fields.lookup f.number = some (.scalar (.int n)))
      (hset : s.isPopulated f (.scalar (.int n)) = true ∨ (s.pool m.type).default f = .int n)
      (halone : ∀ number ∈ rivals (s.describe m.type) f, m.fields.lookup number = none) :
      HostNumber fuel call s (getMessageField (.message id) name)
        (some fun y => setMessageField fuel (depth + 2) (.message id) name y) n
  /-- In a field of a message that is not set, or of a missing message. Assigned to, the field is set. -/
  | messageDefault {x : Value} {owner : MessageType} {name : Bytes} {f : FieldDesc} {n : Int}
      (hx : x = .noMessage owner ∨ ∃ id m, x = .message id ∧ s.messages[id]? = some m ∧
        m.type = owner ∧ m.fields.lookup f.number = none)
      (hf : (s.describe owner).field? name = some f) (hsingle : f.cardinality ≠ .repeated)
      (hn : f.kind.HasNumber n) (hdefault : (s.pool owner).default f = .int n) :
      HostNumber fuel call s (getMessageField x name) none n
  /-- In an entry of a map in a field of a message, which is read as an object. -/
  | messageEntry {id : Nat} {name k : Bytes} {m : MessageCell} {f key item : FieldDesc}
      {entries : List (Scalar × FieldValue)} {n : Int} (hm : s.messages[id]? = some m)
      (hf : (s.describe m.type).field? name = some f)
      (hmap : (s.pool m.type).entryFields? f = some (key, item)) (hkey : key.kind = .string)
      (hn : item.kind.HasNumber n) (hheld : m.fields.lookup f.number = some (.map entries))
      (hdistinct : (entries.map (·.1)).Nodup) (hentry : (.string k, .scalar (.int n)) ∈ entries) :
      HostNumber fuel call s (getMessageField (.message id) name >>= fun x => getAttr x k) none n
  /-- An element of a repeated field of a message. -/
  | messageItem {owner : MessageType} {number l stamp j : Nat} {items : Array FieldValue} {i : Value}
      {f : FieldDesc} {n : Int} (hf : (s.describe owner).fieldNumber? number = some f)
      (hn : f.kind.HasNumber n) (hl : s.fieldLists[l]? = some items)
      (hrun : (indexIn i items.size).run call s = .ok j s)
      (hitem : items[j]? = some (.scalar (.int n))) :
      HostNumber fuel call s (getSequenceItem (.repeated owner number (some l) stamp) i)
        (some fun y => setSequenceItem (fuel + 1) (.repeated owner number (some l) stamp) i y) n
  /-- An element of a repeated field of a message that an iteration comes to. -/
  | messageElement {owner : MessageType} {number l stamp i : Nat} {items : Array FieldValue}
      {f : FieldDesc} {n : Int} (hf : (s.describe owner).fieldNumber? number = some f)
      (hn : f.kind.HasNumber n) (hl : s.fieldLists[l]? = some items)
      (hitem : items[i]? = some (.scalar (.int n))) :
      HostNumber fuel call s (partAfter fuel (.repeated owner number (some l) stamp) i) none n

variable {fuel : Nat} {call : Callback} {s : Store} {n : Int} {read : Job Value}
  {write? : Option (Value → Job Unit)}

/-! ### Numbers that are read -/

omit [Host] in
theorem fromSlot_any (t : HostType) (x : Value) : Value.fromSlot t (.any x) = x.normalize := by
  cases t with
  | int k => cases k <;> rfl
  | _ => rfl

omit [Host] in
theorem HostType.Shows.fromSlot {t : HostType} {d : Datum} (h : t.Shows d n) :
    Value.fromSlot t d = .int (Int64.ofInt n) := by
  cases h with
  | number hn =>
    obtain ⟨k, hk, -⟩ := hn
    exact fromSlot_int hk n
  | any ht hn =>
    obtain ⟨k, hk, -⟩ := hn
    rw [fromSlot_any]
    exact fromSlot_int hk n

omit [Host] in
theorem getD_push_size {α : Type} (items : Array α) (x d : α) : (items.push x).getD items.size d = x := by
  rw [Array.getD_eq_getD_getElem?, Array.getElem?_push_size, Option.getD_some]

omit [Host] in
/-- The default of a field that is not set is read, also of a message that is missing. -/
theorem run_getMessageField_unset {x : Value} {owner : MessageType} {name : Bytes} {f : FieldDesc}
    (hx : x = .noMessage owner ∨ ∃ id m, x = .message id ∧ s.messages[id]? = some m ∧
      m.type = owner ∧ m.fields.lookup f.number = none)
    (hf : (s.describe owner).field? name = some f) (hsingle : f.cardinality ≠ .repeated) :
    (getMessageField x name).run call s = (unsetField owner f).run call s := by
  obtain rfl | ⟨id, m, rfl, hm, rfl, hnone⟩ := hx
  · obtain ⟨m, rfl⟩ : ∃ m : MessageCell, m.type = owner := ⟨{ type := owner }, rfl⟩
    rw [getMessageField, run_bind_ok run_get]
    dsimp only
    rw [run_bind_ok (run_fieldOf hf), not_isList _ hsingle, entryFields?_eq_none _ hsingle]
    rfl
  · rw [getMessageField, run_bind_ok run_get]
    dsimp only
    rw [run_bind_ok (run_message hm), run_bind_ok (run_fieldOf hf), not_isList _ hsingle,
      entryFields?_eq_none _ hsingle, hnone]
    rfl

omit [Host] in
theorem FieldKind.HasNumber.isWhole {kind : FieldKind} (h : kind.HasNumber n) : kind.IsWhole :=
  let ⟨lo, hi, hb, _⟩ := h
  .inl ⟨lo, hi, hb⟩

omit [Host] in
theorem run_unsetField {owner : MessageType} {f : FieldDesc} (hn : f.kind.HasNumber n)
    (hdefault : (s.pool owner).default f = .int n) :
    (unsetField owner f).run call s = .ok (.int (Int64.ofInt n)) s := by
  rw [unsetField, FieldKind.messageName?_of_isWhole hn.isWhole]
  show EStateM.Result.ok ((s.pool owner).default f).value s = _
  rw [hdefault]
  rfl

/-- The entries of a map in a message, by their names. -/
def namedEntries (entries : List (Scalar × FieldValue)) : List (Bytes × Value) :=
  entries.filterMap fun (k, x) => match k with
    | .string k => some (k, x.value)
    | _ => none

omit [Host] in
theorem mem_namedEntries {entries : List (Scalar × FieldValue)} {k : Bytes} {x : Value} :
    (k, x) ∈ namedEntries entries ↔ ∃ y, (.string k, y) ∈ entries ∧ y.value = x := by
  rw [namedEntries, List.mem_filterMap]
  constructor
  · rintro ⟨⟨key, y⟩, hmem, heq⟩
    cases key with
    | string k' =>
      obtain ⟨rfl, rfl⟩ := Prod.mk.inj (Option.some.inj heq)
      exact ⟨y, hmem, rfl⟩
    | _ => cases heq
  · rintro ⟨y, hmem, rfl⟩
    exact ⟨(.string k, y), hmem, rfl⟩

omit [Host] in
theorem nodup_namedEntries {entries : List (Scalar × FieldValue)} (h : (entries.map (·.1)).Nodup) :
    ((namedEntries entries).map (·.1)).Nodup := by
  induction entries with
  | nil => exact List.nodup_nil
  | cons e entries ih =>
    obtain ⟨key, x⟩ := e
    obtain ⟨hnot, hrest⟩ := List.nodup_cons.1 h
    cases key with
    | string k =>
      refine List.nodup_cons.2 ⟨fun hagain => ?_, ih hrest⟩
      obtain ⟨⟨_, y⟩, hnamed, rfl⟩ := List.mem_map.1 hagain
      obtain ⟨z, hmem, -⟩ := mem_namedEntries.1 hnamed
      exact hnot (List.mem_map.2 ⟨_, hmem, rfl⟩)
    | _ => exact ih hrest

omit [Host] in
/-- An entry of a map in a message is a field of the object that the map is read as. -/
theorem run_getMessageField_entry (call : Callback) {id : Nat} {name k : Bytes} {m : MessageCell}
    {f key item : FieldDesc} {entries : List (Scalar × FieldValue)} {x : FieldValue}
    (hm : s.messages[id]? = some m) (hf : (s.describe m.type).field? name = some f)
    (hmap : (s.pool m.type).entryFields? f = some (key, item)) (hkey : key.kind = .string)
    (hheld : m.fields.lookup f.number = some (.map entries))
    (hdistinct : (entries.map (·.1)).Nodup) (hentry : (.string k, x) ∈ entries) :
    ∃ s', (getMessageField (.message id) name >>= fun y => getAttr y k).run call s = .ok x.value s' := by
  have hlist : (s.pool m.type).isList f = false := by
    rw [Pool.isList, Pool.isMap, hmap, Option.isSome_some, Bool.not_true, Bool.and_false]
  let fields := (namedEntries entries).mergeSort fun a b => Bytes.le a.1 b.1
  have hread : (getMessageField (.message id) name).run call s =
      .ok (.object s.objects.size) { s with objects := s.objects.push fields } := by
    rw [getMessageField, run_bind_ok run_get]
    dsimp only
    rw [run_bind_ok (run_message hm), run_bind_ok (run_fieldOf hf), hlist, hmap, hheld]
    show (mapObject f key entries).run call s = _
    rw [mapObject, hkey]
    rfl
  have hlookup : fields.lookup k = some x.value := by
    rw [lookup_perm (List.mergeSort_perm ..)
      ((List.mergeSort_perm ..).map _ |>.nodup_iff.2 (nodup_namedEntries hdistinct)),
      lookup_eq_some_iff_mem (nodup_namedEntries hdistinct)]
    exact mem_namedEntries.2 ⟨x, hentry, rfl⟩
  have hattr {s' : Store} (hs : s'.objects = s.objects.push fields) :
      (getAttr (.object s.objects.size) k).run call s' = .ok x.value s' := by
    have hobject : (s'.object s.objects.size).lookup k = some x.value := by
      rw [Heap.object, hs, getD_push_size, hlookup]
    rw [getAttr, run_bind_ok run_get]
    dsimp only
    rw [hobject]
    rfl
  exact ⟨_, (run_bind_ok hread _).trans (hattr rfl)⟩

theorem HostNumber.run_read (h : HostNumber fuel call s read write? n) :
    ∃ s', read.run call s = .ok (.int (Int64.ofInt n)) s' ∧ (write?.isSome → s' = s) := by
  have unplaced {read : Job Value} {s' : Store}
      (hrun : read.run call s = .ok (.int (Int64.ofInt n)) s') :
      ∃ s', read.run call s = .ok (.int (Int64.ofInt n)) s' ∧
        ((none : Option (Value → Job Unit)).isSome → s' = s) :=
    ⟨s', hrun, fun h => absurd h Bool.false_ne_true⟩
  cases h with
  | place hat hn hlook =>
    refine ⟨s, (hat.run_read hlook).trans ?_, fun _ => rfl⟩
    rw [(HostType.Shows.number hn).fromSlot]
  | slot hat hn hlook =>
    refine ⟨s, (hat.run_read hlook).trans ?_, fun _ => rfl⟩
    rw [hn.fromSlot]
  | @field t record path d _ _ ht hn hrun =>
    obtain rfl : ((t.recordOf?).map (·.1)).getD [] = record := by rw [ht]; rfl
    refine ⟨s, ?_, fun _ => rfl⟩
    refine (run_bind_ok hrun _).trans ?_
    rw [← hn.fromSlot]
    rfl
  | @item t ds i j _ _ hn hrun hitem =>
    refine ⟨s, (run_bind_ok hrun _).trans ?_, fun _ => rfl⟩
    show EStateM.Result.ok (((ds[j]?).map (Value.fromSlot t.elem)).getD .null) s = _
    rw [hitem, Option.map_some, Option.getD_some, hn.fromSlot]
  | @key t u v d _ i _ ht hplain hn hkey =>
    obtain ⟨s', hrun⟩ := run_partAfter fuel call (parts?_map ht hplain) (i := i)
      (y := .int (Int64.ofInt n)) (by rw [List.getElem?_map, hkey, Option.map_some, hn.fromSlot])
    exact unplaced hrun
  | @element t u d _ i _ ht hplain hn hitem =>
    obtain ⟨s', hrun⟩ := run_partAfter fuel call (parts?_elements ht hplain) (i := i)
      (y := .int (Int64.ofInt n)) (by rw [List.getElem?_map, hitem, Option.map_some, hn.fromSlot])
    exact unplaced hrun
  | @result fn g args t x s' _ hn hrun =>
    have hcall : (callHost fuel fn g args).run call s = .ok (Value.fromSlot t x) s' := by
      rw [callHost, run_bind_ok hrun]
      rfl
    rw [hn.fromSlot] at hcall
    exact unplaced hcall
  | @results fn g args xs t x i s' _ hn hrun hmany hx =>
    obtain ⟨y, z, rest, rfl⟩ : ∃ y z rest, xs = y :: z :: rest := by
      cases xs with
      | nil => exact absurd hmany (by decide)
      | cons y xs =>
        cases xs with
        | nil => exact absurd hmany (by simp)
        | cons z rest => exact ⟨y, z, rest, rfl⟩
    obtain ⟨s₁, hlist, hlists⟩ : ∃ s₁,
        (callHost fuel fn g args).run call s = .ok (.list s'.lists.size) s₁ ∧
          s₁.lists = s'.lists.push ((y :: z :: rest).map Value.normalize).toArray := by
      rw [callHost, run_bind_ok hrun]
      exact ⟨_, rfl, rfl⟩
    refine unplaced ((run_bind_ok hlist _).trans (?_ : _ = EStateM.Result.ok _ s₁))
    show EStateM.Result.ok ((s₁.lists.getD s'.lists.size #[]).getD i .null) s₁ = _
    rw [hlists, getD_push_size, Array.getD_eq_getD_getElem?, List.getElem?_toArray, List.getElem?_map, hx,
      Option.map_some, Option.getD_some, ← hn.fromSlot]
    rfl
  | @messageField id depth name m f _ hm hf hsingle hn hheld hset =>
    refine ⟨s, ?_, fun _ => rfl⟩
    rw [run_getMessageField hm hf hsingle hheld]
    by_cases hpopulated : s.isPopulated f (.scalar (.int n)) = true
    · rw [if_pos hpopulated]
      rfl
    · rw [if_neg hpopulated, run_unsetField hn (hset.resolve_left hpopulated)]
  | messageDefault hx hf hsingle hn hdefault =>
    refine ⟨s, ?_, fun _ => rfl⟩
    rw [run_getMessageField_unset hx hf hsingle, run_unsetField hn hdefault]
  | messageEntry hm hf hmap hkey hn hheld hdistinct hentry =>
    obtain ⟨s', hrun⟩ := run_getMessageField_entry call hm hf hmap hkey hheld hdistinct hentry
    exact unplaced hrun
  | @messageItem owner number l stamp j items i f _ hf hn hl hrun hitem =>
    refine ⟨s, ?_, fun _ => rfl⟩
    have hitems : s.fieldLists.getD l #[] = items := by
      rw [Array.getD_eq_getD_getElem?, hl, Option.getD_some]
    rw [getSequenceItem, run_bind_ok run_get]
    show (indexIn i (s.fieldLists.getD l #[]).size >>= _).run call s = _
    rw [hitems, run_bind_ok hrun]
    show EStateM.Result.ok ((((s.fieldLists.getD l #[])[j]?).map FieldValue.value).getD .null) s = _
    rw [hitems, hitem]
    rfl
  | @messageElement owner number l stamp i items f _ hf hn hl hitem =>
    have hparts : (Value.repeated owner number (some l) stamp).parts? s.toHeap =
        some (items.toList.map FieldValue.value) := by
      show some ((s.fieldLists.getD l #[]).toList.map FieldValue.value) = _
      rw [Array.getD_eq_getD_getElem?, hl, Option.getD_some]
    obtain ⟨s', hrun⟩ := run_partAfter fuel call hparts (i := i) (y := .int (Int64.ofInt n)) (by
      rw [List.getElem?_map, Array.getElem?_toList, hitem]
      rfl)
    exact unplaced hrun

/-! ### Ints that are assigned back -/

omit [Host] in
/-- A type has the number of the int that its number is read as only if it is the same number. -/
theorem bounds_ofInt_iff {kind : FieldKind} {lo hi : Int} (hb : kind.bounds? = some (lo, hi))
    (hlo : lo ≤ n) (hhi : n ≤ hi) :
    lo ≤ (Int64.ofInt n).toInt ∧ (Int64.ofInt n).toInt ≤ hi ↔ FitsWord n := by
  constructor
  · intro hin
    by_contra hfits
    obtain ⟨k, -, rfl, rfl⟩ := FieldKind.intKind?_of_bounds hb
    have hout := (misread_of_holds (IntKind.holds_iff.2 ⟨hlo, hhi⟩) hfits).2
    rw [← Bool.not_eq_true, IntKind.holds_iff] at hout
    exact hout hin
  · intro hfits
    rw [toInt_ofInt_iff.2 hfits]
    exact ⟨hlo, hhi⟩

/-- What an element of a repeated field is replaced by is converted first. -/
theorem run_setSequenceItem {owner : MessageType} {number l j : Nat} {items : Array FieldValue}
    {i : Value} {f : FieldDesc} (fuel stamp : Nat) (x : Value) (hf : (s.describe owner).fieldNumber? number = some f)
    (hl : s.fieldLists[l]? = some items) (hrun : (indexIn i items.size).run call s = .ok j s) :
    (setSequenceItem fuel (.repeated owner number (some l) stamp) i x).run call s =
      (Job.explaining "setting element of repeated field: " (toField fuel fuel owner f x) >>= fun y =>
        Job.modifyFieldList l fun a => a.setIfInBounds j y).run call s := by
  have hitems : s.fieldLists.getD l #[] = items := by
    rw [Array.getD_eq_getD_getElem?, hl, Option.getD_some]
  have hfield : (repeatedField owner number).run call s = .ok f s := by
    show EStateM.Result.ok (((s.describe owner).fieldNumber? number).getD default) s = _
    rw [hf, Option.getD_some]
  rw [setSequenceItem, run_bind_ok run_get]
  show (indexIn i (s.fieldLists.getD l #[]).size >>= _).run call s = _
  rw [hitems, run_bind_ok hrun]
  show (repeatedField owner number >>= _).run call s = _
  rw [run_bind_ok hfield]

theorem HostNumber.run_write (h : HostNumber fuel call s read write? n) {write : Value → Job Unit}
    (hwrite : write? = some write) :
    (FitsWord n → ∃ s', (write (.int (Int64.ofInt n))).run call s = .ok () s' ∧ s.Unchanged s') ∧
    (¬FitsWord n → ∃ e, (write (.int (Int64.ofInt n))).run call s = .error e s) := by
  cases h with
  | @place a t p _ hat hn hlook =>
    obtain ⟨k, hk, hholds⟩ := hn
    cases hwrite
    have hrun := hat.run_write_int hk (Int64.ofInt n)
    constructor
    · intro hfits
      rw [toInt_ofInt_iff.2 hfits, if_pos hholds, Place.put_eq_self hlook] at hrun
      exact ⟨s, hrun, .refl s⟩
    · intro hfits
      rw [(misread_of_holds hholds hfits).2] at hrun
      exact ⟨_, hrun⟩
  | @messageField id depth name m f _ hm hf hsingle hn hheld hset halone =>
    obtain ⟨lo, hi, hb, hlo, hhi⟩ := hn
    cases hwrite
    have hin := bounds_ofInt_iff hb hlo hhi
    constructor
    · intro hfits
      refine run_setMessageField_self fuel depth call hm hf hsingle hb (hin.2 hfits) ?_ halone
      rw [toInt_ofInt_iff.2 hfits]
      exact hheld
    · intro hfits
      exact run_setMessageField_misfit fuel depth call hm hf hsingle hb (mt hin.1 hfits)
  | @messageItem owner number l stamp j items i f _ hf hn hl hrun hitem =>
    obtain ⟨lo, hi, hb, hlo, hhi⟩ := hn
    cases hwrite
    have hin := bounds_ofInt_iff hb hlo hhi
    rw [run_setSequenceItem (fuel + 1) stamp (.int (Int64.ofInt n)) hf hl hrun]
    obtain ⟨hkept, hrefused⟩ := run_toField_int (fuel + 1) fuel call s owner hb (Int64.ofInt n)
    constructor
    · intro hfits
      have hsame : s.fieldLists.modify l
          (fun a => a.setIfInBounds j (.scalar (.int (Int64.ofInt n).toInt))) = s.fieldLists := by
        refine array_modify_eq_self fun a ha => ?_
        obtain rfl : a = items := Option.some.inj (ha.symm.trans hl)
        rw [toInt_ofInt_iff.2 hfits]
        exact setIfInBounds_eq_self hitem
      refine ⟨s, (run_bind_ok (run_explaining _ (hkept (hin.2 hfits))) _).trans ?_, .refl s⟩
      show EStateM.Result.ok () { s with fieldLists := s.fieldLists.modify l _ } = _
      rw [hsame]
    · intro hfits
      obtain ⟨msg, hmsg⟩ := hrefused (mt hin.1 hfits)
      exact ⟨_, run_bind_error (run_explaining_error _ rfl hmsg) _⟩
  | _ => cases hwrite

/-- The number is read as itself, and to assign it back changes nothing. -/
structure NumberKept (call : Callback) (s : Store) (read : Job Value) (write? : Option (Value → Job Unit))
    (n : Int) : Prop where
  reads : ∃ w s', read.run call s = .ok (.int w) s' ∧ w.toInt = n
  restores : ∀ write ∈ write?, ∃ s', (read >>= write).run call s = .ok () s' ∧ s.Unchanged s'

/-- The number is read as another one, which cannot be assigned back. -/
structure NumberMisread (call : Callback) (s : Store) (read : Job Value)
    (write? : Option (Value → Job Unit)) (n : Int) : Prop where
  reads : ∃ w s', read.run call s = .ok (.int w) s' ∧ w.toInt = n - 2 ^ 64
  refuses : ∀ write ∈ write?, ∃ e, (read >>= write).run call s = .error e s

omit [Host] in
theorem HostType.HasNumber.range {t : HostType} (h : t.HasNumber n) : ∃ k : IntKind, k.holds n = true :=
  let ⟨k, _, hk⟩ := h
  ⟨k, hk⟩

omit [Host] in
theorem HostType.Shows.range {t : HostType} {d : Datum} (h : t.Shows d n) :
    ∃ k : IntKind, k.holds n = true := by
  cases h with
  | number hn => exact hn.range
  | any _ hn => exact hn.range

omit [Host] in
theorem FieldKind.HasNumber.range {kind : FieldKind} (h : kind.HasNumber n) :
    ∃ k : IntKind, k.holds n = true := by
  obtain ⟨lo, hi, hb, hin⟩ := h
  obtain ⟨k, -, rfl, rfl⟩ := FieldKind.intKind?_of_bounds hb
  exact ⟨k, IntKind.holds_iff.2 hin⟩

theorem HostNumber.range (h : HostNumber fuel call s read write? n) :
    ∃ k : IntKind, k.holds n = true := by
  cases h with
  | place _ hn => exact hn.range
  | slot _ hn | field _ hn | item hn | key _ _ hn | element _ _ hn | result hn | results hn =>
    exact hn.range
  | messageField _ _ _ hn | messageDefault _ _ _ hn | messageEntry _ _ _ _ hn | messageItem _ hn
  | messageElement _ hn => exact hn.range

/-- A number of the host is read as itself and can be assigned back exactly if it is an int of 64 bits.
Any other one is read as a negative number, without an error, and fails to be assigned back. -/
theorem hostNumber_kept_iff (h : HostNumber fuel call s read write? n) :
    (NumberKept call s read write? n ↔ FitsWord n) ∧
      (¬FitsWord n → NumberMisread call s read write? n) := by
  obtain ⟨s', hread, hsame⟩ := h.run_read
  obtain ⟨k, hholds⟩ := h.range
  have hback {write : Value → Job Unit} (hwrite : write? = some write) :
      (read >>= write).run call s = (write (.int (Int64.ofInt n))).run call s := by
    rw [run_bind_ok hread, hsame (by rw [hwrite]; rfl)]
  refine ⟨⟨fun hkept => ?_, fun hfits => ⟨?_, fun write hwrite => ?_⟩⟩, fun hfits =>
    ⟨?_, fun write hwrite => ?_⟩⟩
  · obtain ⟨w, s'', hrun, hw⟩ := hkept.reads
    have heq := hrun.symm.trans hread
    injection heq with hvalue _
    injection hvalue with hw'
    rw [← toInt_ofInt_iff, ← hw', hw]
  · exact ⟨_, _, hread, toInt_ofInt_iff.2 hfits⟩
  · rw [hback hwrite]
    exact (h.run_write hwrite).1 hfits
  · exact ⟨_, _, hread, (misread_of_holds hholds hfits).1⟩
  · rw [hback hwrite]
    exact (h.run_write hwrite).2 hfits

end

/-- A machine that calls nothing. -/
def noCalls : Callback := fun _ _ _ => throw .exhausted

/-- The second of two levels is kept. -/
theorem hostNumber_kept_level : ∃ read write?,
    @HostNumber standalone.toHost 0 noCalls twoLevels read write? 2 ∧
      NumberKept noCalls twoLevels read write? 2 := by
  let : Host := standalone.toHost
  have hnumber : HostNumber 0 noCalls twoLevels
      (Assignment.read 0 (.item (.host levels (.slice (.array 0) 2)) (.int 1)))
      (some fun y => Assignment.write 0 y (.item (.host levels (.slice (.array 0) 2)) (.int 1))) 2 :=
    .place (.item rfl (Nat.le_refl 2) rfl) ⟨.uint8, rfl, by decide⟩ rfl
  exact ⟨_, _, hnumber, (hostNumber_kept_iff hnumber).1.2 (by decide)⟩

/-- A host whose functions yield the greatest number of 64 bits without a sign. -/
@[reducible]
def lavish : Host :=
  { standalone.toHost with
    callFunction := fun _ _ _ => return [.host (.int .uint64) (.int (2 ^ 64 - 1))] }

/-- A call of such a function. -/
def lavishCall : Job Value :=
  @callHost lavish 1 (.host (.function [] false [.int .uint64]) (.function []))
    { ins := [], variadic := false, outs := [.int .uint64] } []

/-- The number that the function yields is read as -1. -/
theorem hostNumber_misread_greatest :
    @HostNumber lavish 1 noCalls {} lavishCall none (2 ^ 64 - 1) ∧
      lavishCall.run noCalls {} = .ok (.int (-1)) {} ∧
      ¬NumberKept noCalls {} lavishCall none (2 ^ 64 - 1) := by
  let : Host := lavish
  have hnumber : HostNumber 1 noCalls {} lavishCall none (2 ^ 64 - 1) :=
    .result (t := .int .uint64) (.number ⟨.uint64, rfl, by decide⟩) rfl
  have hrun : lavishCall.run noCalls {} = .ok (.int (-1)) {} := rfl
  refine ⟨hnumber, hrun, fun hkept => ?_⟩
  obtain ⟨w, s', hread, hw⟩ := hkept.reads
  have heq := hread.symm.trans hrun
  injection heq with hvalue _
  injection hvalue with hminus
  rw [hminus] at hw
  exact absurd hw (by decide)

end Stencil
