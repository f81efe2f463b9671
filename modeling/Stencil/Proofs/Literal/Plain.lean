import Mathlib
import Stencil.Machine.Describe

/-!
# Plain data and their literal form

`Plain` is what a value is made of if it is built from null, truth values, integers, byte strings
and lists of such values, as a tree; `Plain.Shows` tells which value of the heap shows which tree.
The readable form of a value is the text of its tree: `Plain.Shows.repr`. No list of the tree is
cut as one that contains itself, and the bound on how deeply values nest is never met.
-/

namespace Stencil

/-- A tree of data that have a literal form. -/
inductive Plain where
  | null
  | bool (b : Bool)
  | int (n : Int64)
  | string (b : Bytes)
  | list (items : List Plain)

namespace Plain

mutual

/-- The value is the tree, its lists those of the heap. -/
inductive Shows (s : Heap) : Plain → Value → Prop where
  | null : Shows s .null .null
  | bool (b) : Shows s (.bool b) (.bool b)
  | int (n) : Shows s (.int n) (.int n)
  | string (b) : Shows s (.string b) (.string b)
  | list {ds id} : id < s.lists.size → ShowAll s ds (s.list id).toList →
      Shows s (.list ds) (.list id)

/-- The values are the trees, one by one. -/
inductive ShowAll (s : Heap) : List Plain → List Value → Prop where
  | nil : ShowAll s [] []
  | cons {d v ds vs} : Shows s d v → ShowAll s ds vs → ShowAll s (d :: ds) (v :: vs)

end

mutual

/-- The literal form of a tree. -/
def text : Plain → Bytes
  | .null => "null"
  | .bool b => if b then "true" else "false"
  | .int n => Bytes.ofInt n.toInt
  | .string b => b.quote
  | .list ds => Bytes.ofString "[" ++ Bytes.join ", " (texts ds) ++ "]"

/-- The literal forms of the elements of a list. -/
def texts : List Plain → List Bytes
  | [] => []
  | d :: ds => d.text :: texts ds

end

mutual

/-- A value shows at most one tree. -/
theorem Shows.unique {s : Heap} {d d' : Plain} {v : Value} (h : d.Shows s v) (h' : d'.Shows s v) :
    d = d' := by
  cases h with
  | null => cases h'; rfl
  | bool b => cases h'; rfl
  | int n => cases h'; rfl
  | string b => cases h'; rfl
  | list _ h =>
    cases h' with
    | list _ h' => rw [h.unique h']

theorem ShowAll.unique {s : Heap} {ds ds' : List Plain} {vs : List Value} (h : ShowAll s ds vs)
    (h' : ShowAll s ds' vs) : ds = ds' := by
  cases h with
  | nil => cases h'; rfl
  | cons hd hds =>
    cases h' with
    | cons hd' hds' => rw [hd.unique hd', hds.unique hds']

end

/-- There are no more lists than the heap has. -/
theorem length_le_of_nodup {ids : List Nat} {size : Nat} (hnodup : ids.Nodup)
    (h : ∀ id ∈ ids, id < size) : ids.length ≤ size := by
  have hsub : ids ⊆ List.range size := fun id hid => List.mem_range.2 (h id hid)
  simpa using (hnodup.subperm hsub).length_le

/-- The lists that are being shown: they differ, and each shows a tree that is larger than `n`. -/
structure Enclosing (s : Heap) (n : Nat) (ids : List Nat) : Prop where
  nodup : ids.Nodup
  within : ∀ id ∈ ids, id < s.lists.size
  larger : ∀ id ∈ ids, ∃ d, Shows s d (.list id) ∧ n < sizeOf d

namespace Enclosing

variable {s : Heap} {n m : Nat} {ids : List Nat}

theorem mono (h : Enclosing s n ids) (hm : m ≤ n) : Enclosing s m ids :=
  ⟨h.nodup, h.within, fun id hid => (h.larger id hid).imp fun _ hd => ⟨hd.1, hm.trans_lt hd.2⟩⟩

/-- There are no more of them than lists in the heap. -/
theorem length_le (h : Enclosing s n ids) : ids.length ≤ s.lists.size :=
  length_le_of_nodup h.nodup h.within

theorem not_mem (h : Enclosing s n ids) {d : Plain} {id : Nat} (hd : d.Shows s (.list id))
    (hn : sizeOf d ≤ n) : id ∉ ids := by
  intro hid
  obtain ⟨d', hd', hlt⟩ := h.larger id hid
  rw [hd.unique hd'] at hn
  exact absurd hlt (Nat.not_lt.2 hn)

theorem cons (h : Enclosing s n ids) {d : Plain} {id : Nat} (hd : d.Shows s (.list id))
    (hn : sizeOf d ≤ n) (hm : m < sizeOf d) : Enclosing s m (id :: ids) := by
  refine ⟨List.nodup_cons.2 ⟨h.not_mem hd hn, h.nodup⟩, ?_, ?_⟩
  · rintro i (_ | ⟨_, hi⟩)
    · cases hd
      assumption
    · exact h.within i hi
  · rintro i (_ | ⟨_, hi⟩)
    · exact ⟨d, hd, hm⟩
    · exact (h.mono (hm.le.trans hn)).larger i hi

end Enclosing

variable [Host]

mutual

theorem Shows.literal {s : Heap} {d : Plain} {v : Value} (h : d.Shows s v) :
    ∀ {fuel : Nat} {ids : List Nat}, Enclosing s (sizeOf d) ids →
      s.lists.size < fuel + ids.length → v.literal s fuel (ids.map .list) = d.text := by
  intro fuel ids hids hfuel
  obtain ⟨fuel, rfl⟩ : ∃ n, fuel = n + 1 := by
    have := hids.length_le
    exact ⟨fuel - 1, by omega⟩
  cases h with
  | null => rfl
  | bool b => rfl
  | int n => rfl
  | string b => rfl
  | @list ds id hid h =>
    have hself : Shows s (.list ds) (.list id) := .list hid h
    have hnew : (ids.map Container.list).contains (.list id) = false := by
      simpa using hids.not_mem hself le_rfl
    have hitems : (s.list id).toList.map (Value.literal s fuel (.list id :: ids.map .list)) =
        texts ds :=
      h.literals (hids.cons hself le_rfl (by simp)) (by rw [List.length_cons]; omega)
    rw [Value.literal, if_neg (by simpa using hnew), hitems]
    rfl

theorem ShowAll.literals {s : Heap} {ds : List Plain} {vs : List Value} (h : ShowAll s ds vs) :
    ∀ {fuel : Nat} {ids : List Nat}, Enclosing s (sizeOf ds) ids →
      s.lists.size < fuel + ids.length →
      vs.map (Value.literal s fuel (ids.map .list)) = texts ds := by
  intro fuel ids hids hfuel
  cases h with
  | nil => rfl
  | @cons d v ds vs hd hds =>
    have hfirst := hd.literal (hids.mono (by simp; omega)) hfuel
    have hrest := hds.literals (hids.mono (by simp)) hfuel
    rw [List.map_cons, hfirst, hrest]
    rfl

end

/-- The readable form of plain data is the text of their tree. -/
theorem Shows.repr {s : Heap} {d : Plain} {v : Value} (h : d.Shows s v) : v.repr s = d.text := by
  have hnone : Enclosing s (sizeOf d) [] := ⟨List.nodup_nil, by simp, by simp⟩
  refine h.literal hnone ?_
  unfold Heap.depthBound
  omega

end Plain

end Stencil
