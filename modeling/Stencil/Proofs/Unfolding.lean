import Mathlib
import Stencil.Host.Basic
import Stencil.Proofs.Equality.Trees

/-!
# The text of values that share lists or contain themselves

Lists and objects over null, truth values, ints and strings form a graph: they may be shared, and
may contain themselves. A *place* in a value is given by numbers that lead to it, each the position
of a part in the list or object reached so far; the graph, unfolded into a tree, has a node for each
place. `Sketch.Unfolds` tells which finite tree is written for a value: the unfolding, in which a
list or object is cut at each place where it is inside itself, and nowhere else.

The main statement, `repr_unfolding`: each value has exactly one such tree, the written form of the
value is the text of the tree, and if nothing contains itself then nothing is cut. The number of
lists and objects of the heap bounds how deep the tree is.
-/

namespace Stencil

/-! ### Places -/

/-- What is in a value, in order. -/
def Value.parts (s : Heap) : Value → List Value
  | .list id => (s.list id).toList
  | .object id => (s.object id).map (·.2)
  | _ => []

/-- What is at a place of a value. -/
def Value.at? (s : Heap) : Value → List Nat → Option Value
  | v, [] => some v
  | v, i :: place => (v.parts s)[i]?.bind (·.at? s place)

/-- A list or object as a value. -/
def Container.value : Container → Value
  | .list id => .list id
  | .object id => .object id

/-- At the place is a list or object that is inside itself: it is also at a place on the way. -/
def Value.RepeatsAt (s : Heap) (v : Value) (place : List Nat) : Prop :=
  ∃ c : Container, v.at? s place = some c.value ∧
    ∃ outer, outer <+: place ∧ outer ≠ place ∧ v.at? s outer = some c.value

/-- The value is made of null, truth values, ints, strings, lists and objects. -/
def Value.IsGraph (s : Heap) (v : Value) : Prop := ∀ n w, Part s n v w → w.IsOrdinary

/-- Nothing in the value contains itself. -/
def Value.IsAcyclic (s : Heap) (v : Value) : Prop :=
  ∀ n w, Part s n v w → ∀ m, ¬ Part s (m + 1) w w

/-! ### Trees with cuts -/

/-- What is written for a value. -/
inductive Sketch where
  | null
  | bool (b : Bool)
  | int (n : Int64)
  | string (b : Bytes)
  | list (items : List Sketch)
  | object (names : List Bytes) (items : List Sketch)
  /-- A mark in place of a list. -/
  | cutList
  /-- A mark in place of an object. -/
  | cutObject

namespace Sketch

/-- What is in a list or object, in order. -/
def items : Sketch → List Sketch
  | .list ts | .object _ ts => ts
  | _ => []

/-- What is at a place of a tree. -/
def at? : Sketch → List Nat → Option Sketch
  | t, [] => some t
  | t, i :: place => t.items[i]?.bind (·.at? place)

mutual

/-- The text of a tree. -/
def text : Sketch → Bytes
  | .null => "null"
  | .bool b => if b then "true" else "false"
  | .int n => Bytes.ofInt n.toInt
  | .string b => b.quote
  | .list ts => Bytes.ofString "[" ++ Bytes.join ", " (texts ts) ++ "]"
  | .object names ts =>
    let fields := List.zipWith (fun (name text : Bytes) => name ++ ": " ++ text) names (texts ts)
    Bytes.ofString "\x7b" ++ Bytes.join ", " fields ++ "\x7d"
  | .cutList => "[...]"
  | .cutObject => "\x7b...\x7d"

/-- The texts of several trees. -/
def texts : List Sketch → List Bytes
  | [] => []
  | t :: ts => t.text :: texts ts

end

/-- The tree is a mark. -/
inductive IsCut : Sketch → Prop where
  | list : IsCut .cutList
  | object : IsCut .cutObject

end Sketch

/-- The mark in place of a list or object. -/
def Container.cut : Container → Sketch
  | .list _ => .cutList
  | .object _ => .cutObject

/-- A list or object that is written out, with what is written for its parts. -/
def Container.whole (s : Heap) (ts : List Sketch) : Container → Sketch
  | .list _ => .list ts
  | .object id => .object ((s.object id).map (·.1)) ts

namespace Sketch

/-- The tree is the value, which is not a list or an object. -/
inductive IsLeaf : Sketch → Value → Prop where
  | null : IsLeaf .null .null
  | bool (b) : IsLeaf (.bool b) (.bool b)
  | int (n) : IsLeaf (.int n) (.int n)
  | string (b) : IsLeaf (.string b) (.string b)

/-- The tree starts as the value does; what its parts look like is left open. -/
inductive Heads (s : Heap) : Sketch → Value → Prop where
  | leaf {t v} : t.IsLeaf v → Heads s t v
  | whole {c : Container} {ts} : ts.length = (c.value.parts s).length →
      Heads s (c.whole s ts) c.value
  | cut (c : Container) : Heads s c.cut c.value

/-- The tree is the unfolding of the value, in which a list or object is cut wherever it is inside
itself, and nowhere else. -/
structure Unfolds (s : Heap) (t : Sketch) (v : Value) : Prop where
  /-- The places are those of the value but for what is below a cut. -/
  place_iff (place : List Nat) : (t.at? place).isSome ↔ (v.at? s place).isSome ∧
    ∀ outer, outer <+: place → outer ≠ place → ¬ v.RepeatsAt s outer
  cut_iff {place : List Nat} {u : Sketch} : t.at? place = some u →
    (u.IsCut ↔ v.RepeatsAt s place)
  heads {place : List Nat} {u : Sketch} {w : Value} : t.at? place = some u →
    v.at? s place = some w → u.Heads s w

end Sketch

/-! ### The parts of a value -/

section

variable {s : Heap} {v w : Value} {c : Container} {i : Nat} {place : List Nat}

theorem Container.isOrdinary (c : Container) : c.value.IsOrdinary := by
  cases c with
  | list id => exact .list id
  | object id => exact .object id

theorem Container.value_inj {c d : Container} : c.value = d.value ↔ c = d := by
  cases c <;> cases d <;> simp [value]

theorem Value.at?_append (v : Value) (outer place : List Nat) :
    v.at? s (outer ++ place) = (v.at? s outer).bind (·.at? s place) := by
  induction outer generalizing v with
  | nil => rfl
  | cons i outer ih =>
    rw [List.cons_append, at?, at?, Option.bind_assoc]
    exact congrArg _ (funext fun w => ih w)

theorem Value.part_of_mem (h : w ∈ v.parts s) {n : Nat} {x : Value} (hx : Part s n w x) :
    Part s (n + 1) v x := by
  cases v with
  | list id => exact .item h hx
  | object id =>
    obtain ⟨⟨name, w⟩, hf, rfl⟩ := List.mem_map.1 h
    exact .field hf hx
  | _ => cases h

/-- What is at a place is a part of the value. -/
theorem Value.part_of_at? (h : v.at? s place = some w) : Part s place.length v w := by
  induction place generalizing v with
  | nil =>
    cases h
    exact .self
  | cons i place ih =>
    obtain ⟨x, hx, hw⟩ := Option.bind_eq_some_iff.1 h
    exact part_of_mem (List.mem_of_getElem? hx) (ih hw)

/-- What repeats contains itself. -/
theorem Value.IsAcyclic.not_repeatsAt (h : v.IsAcyclic s) : ¬ v.RepeatsAt s place := by
  rintro ⟨c, hc, outer, ⟨rest, rfl⟩, hne, houter⟩
  rw [at?_append, houter] at hc
  cases rest with
  | nil => exact hne (List.append_nil outer).symm
  | cons i rest => exact h _ _ (part_of_at? houter) _ (part_of_at? hc)

theorem Value.IsGraph.part (h : v.IsGraph s) (hw : w ∈ v.parts s) : w.IsGraph s :=
  fun n x hx => h (n + 1) x (part_of_mem hw hx)

/-- Where lists and objects hold null, truth values, ints, strings, lists and objects, every such
value is made of them. -/
theorem Heap.IsOrdinary.isGraph (hlists : s.IsOrdinary)
    (hobjects : ∀ id, ∀ f ∈ s.object id, f.2.IsOrdinary) (hv : v.IsOrdinary) : v.IsGraph s := by
  intro n w hw
  induction hw with
  | self => exact hv
  | item hx _ ih => exact ih (hlists _ _ hx)
  | field hx _ ih => exact ih (hobjects _ _ hx)

end

/-! ### Inside of other lists and objects -/

/-- At the place is a list or object that is one of `path` or is inside itself. -/
def Value.RepeatsIn (s : Heap) (path : List Container) (v : Value) (place : List Nat) : Prop :=
  (∃ c ∈ path, v.at? s place = some c.value) ∨ v.RepeatsAt s place

/-- No list or object is cut on the way to the place. -/
def Value.Clear (s : Heap) (path : List Container) (v : Value) (place : List Nat) : Prop :=
  ∀ outer, outer <+: place → outer ≠ place → ¬ v.RepeatsIn s path outer

section

variable {s : Heap} {path : List Container} {v w : Value} {c : Container} {i : Nat}
  {place : List Nat}

theorem Value.repeatsIn_nil : v.RepeatsIn s [] place ↔ v.RepeatsAt s place := by
  simp [RepeatsIn]

theorem Value.repeatsIn_here : v.RepeatsIn s path [] ↔ ∃ c ∈ path, v = c.value := by
  simp [RepeatsIn, RepeatsAt, at?]

/-- A list or object on the way is around what comes after it. -/
theorem Value.repeatsIn_cons (hw : (c.value.parts s)[i]? = some w) :
    c.value.RepeatsIn s path (i :: place) ↔ w.RepeatsIn s (c :: path) place := by
  have hat (place : List Nat) : c.value.at? s (i :: place) = w.at? s place := by
    rw [at?, hw, Option.bind_some]
  unfold RepeatsIn RepeatsAt
  rw [hat]
  constructor
  · rintro (⟨d, hd, hplace⟩ | ⟨d, hplace, outer, hprefix, hne, houter⟩)
    · exact .inl ⟨d, List.mem_cons_of_mem c hd, hplace⟩
    · cases outer with
      | nil =>
        have hcd : c.value = d.value := Option.some.inj houter
        exact .inl ⟨c, List.mem_cons_self, hcd ▸ hplace⟩
      | cons j outer =>
        obtain ⟨rfl, hrest⟩ := List.cons_prefix_cons.1 hprefix
        rw [hat] at houter
        exact .inr ⟨d, hplace, outer, hrest, fun h => hne (h ▸ rfl), houter⟩
  · rintro (⟨d, hd, hplace⟩ | ⟨d, hplace, outer, hprefix, hne, houter⟩)
    · obtain rfl | hd := List.mem_cons.1 hd
      · exact .inr ⟨d, hplace, [], List.nil_prefix, by simp, rfl⟩
      · exact .inl ⟨d, hd, hplace⟩
    · refine .inr ⟨d, hplace, i :: outer, List.cons_prefix_cons.2 ⟨rfl, hprefix⟩, ?_, ?_⟩
      · exact fun h => hne (List.cons.inj h).2
      · rwa [hat]

theorem Value.clear_here : v.Clear s path [] := by
  intro outer hprefix hne
  exact absurd (List.prefix_nil.1 hprefix) hne

theorem Value.clear_cons (hw : (c.value.parts s)[i]? = some w) :
    c.value.Clear s path (i :: place) ↔ c ∉ path ∧ w.Clear s (c :: path) place := by
  constructor
  · intro h
    refine ⟨fun hc => ?_, fun outer hprefix hne hrepeats => ?_⟩
    · exact h [] List.nil_prefix (by simp) (repeatsIn_here.2 ⟨c, hc, rfl⟩)
    · refine h (i :: outer) (List.cons_prefix_cons.2 ⟨rfl, hprefix⟩) ?_ ?_
      · exact fun heq => hne (List.cons.inj heq).2
      · exact (repeatsIn_cons hw).2 hrepeats
  · rintro ⟨hnew, h⟩ outer hprefix hne hrepeats
    cases outer with
    | nil =>
      obtain ⟨d, hd, hcd⟩ := repeatsIn_here.1 hrepeats
      exact hnew (Container.value_inj.1 hcd ▸ hd)
    | cons j outer =>
      obtain ⟨rfl, hrest⟩ := List.cons_prefix_cons.1 hprefix
      exact h outer hrest (fun heq => hne (heq ▸ rfl)) ((repeatsIn_cons hw).1 hrepeats)

end

/-! ### Drawing a value -/

/-- The tree is written for the value inside of the lists and objects of `path`. -/
inductive Drawn (s : Heap) : List Container → Sketch → Value → Prop where
  | leaf {path t v} : t.IsLeaf v → Drawn s path t v
  | cut {path} {c : Container} : c ∈ path → Drawn s path c.cut c.value
  | whole {path} {c : Container} {ts} : c ∉ path → ts.length = (c.value.parts s).length →
      (∀ (i : Nat) (t : Sketch) (w : Value), ts[i]? = some t → (c.value.parts s)[i]? = some w →
        Drawn s (c :: path) t w) →
      Drawn s path (c.whole s ts) c.value

section

variable {s : Heap} {path : List Container} {t u : Sketch} {v w : Value} {c : Container}
  {ts : List Sketch} {place : List Nat}

theorem Container.items_whole : (c.whole s ts).items = ts := by
  cases c <;> rfl

theorem Container.items_cut : c.cut.items = [] := by
  cases c <;> rfl

theorem Container.isCut_cut : c.cut.IsCut := by
  cases c with
  | list => exact .list
  | object => exact .object

theorem Container.not_isCut_whole : ¬ (c.whole s ts).IsCut := by
  cases c <;> exact nofun

theorem Container.sizeOf_lt_whole (h : t ∈ ts) : sizeOf t < sizeOf (c.whole s ts) := by
  have hlt := List.sizeOf_lt_of_mem h
  cases c <;> simp only [whole, Sketch.list.sizeOf_spec, Sketch.object.sizeOf_spec] <;> omega

/-- Only lists and objects have parts. -/
theorem Value.exists_container {i : Nat} (h : (v.parts s)[i]? = some w) :
    ∃ c : Container, v = c.value := by
  cases v with
  | list id => exact ⟨.list id, rfl⟩
  | object id => exact ⟨.object id, rfl⟩
  | _ => cases h

namespace Sketch.IsLeaf

theorem not_container (h : t.IsLeaf c.value) : False := by
  cases c <;> cases h

theorem unique (h : t.IsLeaf v) (h' : u.IsLeaf v) : t = u := by
  cases h <;> cases h' <;> rfl

theorem not_isCut (h : t.IsLeaf v) : ¬ t.IsCut := by
  cases h <;> exact nofun

theorem items_eq (h : t.IsLeaf v) : t.items = [] := by
  cases h <;> rfl

end Sketch.IsLeaf

namespace Drawn

theorem heads (h : Drawn s path t v) : t.Heads s v := by
  cases h with
  | leaf h => exact .leaf h
  | cut => exact .cut _
  | whole _ hlength => exact .whole hlength

theorem isCut_iff (h : Drawn s path t v) : t.IsCut ↔ v.RepeatsIn s path [] := by
  rw [Value.repeatsIn_here]
  cases h with
  | leaf h =>
    refine iff_of_false h.not_isCut ?_
    rintro ⟨c, -, rfl⟩
    exact h.not_container
  | cut hc => exact iff_of_true Container.isCut_cut ⟨_, hc, rfl⟩
  | whole hnew =>
    refine iff_of_false Container.not_isCut_whole ?_
    rintro ⟨d, hd, hcd⟩
    exact hnew (Container.value_inj.1 hcd ▸ hd)

theorem cases_value (h : Drawn s path t c.value) : c ∈ path ∧ t = c.cut ∨
    c ∉ path ∧ ∃ ts : List Sketch, t = c.whole s ts ∧ ts.length = (c.value.parts s).length ∧
      ∀ (i : Nat) (t : Sketch) (w : Value), ts[i]? = some t → (c.value.parts s)[i]? = some w →
        Drawn s (c :: path) t w := by
  generalize hv : c.value = v at h
  cases h with
  | leaf h => exact (hv ▸ h).not_container.elim
  | cut hc =>
    obtain rfl := Container.value_inj.1 hv
    exact .inl ⟨hc, rfl⟩
  | whole hnew hlength hparts =>
    obtain rfl := Container.value_inj.1 hv
    exact .inr ⟨hnew, _, rfl, hlength, hparts⟩

/-- What is drawn at a place that is not below a cut. -/
theorem at_place (h : Drawn s path t v) (hclear : v.Clear s path place)
    (hw : v.at? s place = some w) :
    ∃ u, t.at? place = some u ∧ u.Heads s w ∧ (u.IsCut ↔ v.RepeatsIn s path place) := by
  induction place generalizing path t v with
  | nil =>
    cases hw
    exact ⟨t, rfl, h.heads, h.isCut_iff⟩
  | cons i place ih =>
    obtain ⟨x, hx, hxw⟩ := Option.bind_eq_some_iff.1 hw
    obtain ⟨c, rfl⟩ := Value.exists_container hx
    obtain ⟨hnew, hrest⟩ := (Value.clear_cons hx).1 hclear
    obtain ⟨hc, -⟩ | ⟨-, ts, rfl, hlength, hparts⟩ := h.cases_value
    · exact absurd hc hnew
    · obtain ⟨hi, -⟩ := List.getElem?_eq_some_iff.1 hx
      have ht : ts[i]? = some ts[i] := List.getElem?_eq_getElem (hlength ▸ hi)
      obtain ⟨u, hu, hheads, hcut⟩ := ih (hparts i _ x ht hx) hrest hxw
      refine ⟨u, ?_, hheads, hcut.trans (Value.repeatsIn_cons hx).symm⟩
      rw [Sketch.at?, Container.items_whole, ht, Option.bind_some, hu]

/-- Nothing is drawn but what is in the value, and nothing below a cut. -/
theorem place_clear (h : Drawn s path t v) (hu : t.at? place = some u) :
    v.Clear s path place ∧ ∃ w, v.at? s place = some w := by
  induction place generalizing path t v with
  | nil => exact ⟨Value.clear_here, v, rfl⟩
  | cons i place ih =>
    obtain ⟨t', ht', htu⟩ := Option.bind_eq_some_iff.1 hu
    cases h with
    | leaf h =>
      rw [h.items_eq] at ht'
      cases ht'
    | cut =>
      rw [Container.items_cut] at ht'
      cases ht'
    | @whole _ c ts hnew hlength hparts =>
      rw [Container.items_whole] at ht'
      obtain ⟨hi, -⟩ := List.getElem?_eq_some_iff.1 ht'
      have hx : (c.value.parts s)[i]? = some (c.value.parts s)[i] :=
        List.getElem?_eq_getElem (hlength ▸ hi)
      obtain ⟨hclear, w, hw⟩ := ih (hparts i t' _ ht' hx) htu
      refine ⟨(Value.clear_cons hx).2 ⟨hnew, hclear⟩, w, ?_⟩
      rw [Value.at?, hx, Option.bind_some, hw]

/-- What is drawn inside of nothing is the unfolding. -/
theorem unfolds (h : Drawn s [] t v) : t.Unfolds s v where
  place_iff place := by
    have hclear : v.Clear s [] place ↔
        ∀ outer, outer <+: place → outer ≠ place → ¬ v.RepeatsAt s outer := by
      simp only [Value.Clear, Value.repeatsIn_nil]
    rw [← hclear]
    constructor
    · intro hu
      obtain ⟨u, hu⟩ := Option.isSome_iff_exists.1 hu
      obtain ⟨hclear, w, hw⟩ := h.place_clear hu
      exact ⟨Option.isSome_iff_exists.2 ⟨w, hw⟩, hclear⟩
    · rintro ⟨hw, hclear⟩
      obtain ⟨w, hw⟩ := Option.isSome_iff_exists.1 hw
      obtain ⟨u, hu, -⟩ := h.at_place hclear hw
      exact Option.isSome_iff_exists.2 ⟨u, hu⟩
  cut_iff hu := by
    obtain ⟨hclear, w, hw⟩ := h.place_clear hu
    obtain ⟨u', hu', -, hcut⟩ := h.at_place hclear hw
    obtain rfl := Option.some.inj (hu.symm.trans hu')
    rw [hcut, Value.repeatsIn_nil]
  heads hu hw := by
    obtain ⟨u', hu', hheads, -⟩ := h.at_place (h.place_clear hu).1 hw
    obtain rfl := Option.some.inj (hu.symm.trans hu')
    exact hheads

end Drawn

end

/-! ### There is one tree -/

section

variable {s : Heap} {t u : Sketch} {v w : Value}

namespace Sketch

theorem Heads.cases_value {c : Container} (h : t.Heads s c.value) :
    t = c.cut ∨ ∃ ts : List Sketch, t = c.whole s ts ∧ ts.length = (c.value.parts s).length := by
  generalize hv : c.value = v at h
  cases h with
  | leaf h => exact (hv ▸ h).not_container.elim
  | cut =>
    obtain rfl := Container.value_inj.1 hv
    exact .inl rfl
  | whole hlength =>
    obtain rfl := Container.value_inj.1 hv
    exact .inr ⟨_, rfl, hlength⟩

/-- Trees that start as the same value, both of them cut or none, have the same form. -/
theorem Heads.alike (ht : t.Heads s v) (hu : u.Heads s v) (hcut : t.IsCut ↔ u.IsCut) :
    t = u ∨ ∃ (c : Container) (ts us : List Sketch), t = c.whole s ts ∧ u = c.whole s us ∧
      ts.length = us.length := by
  cases ht with
  | leaf ht =>
    cases hu with
    | leaf hu => exact .inl (ht.unique hu)
    | whole | cut => exact ht.not_container.elim
  | @cut c =>
    obtain rfl | ⟨us, rfl, -⟩ := hu.cases_value
    · exact .inl rfl
    · exact absurd (hcut.1 Container.isCut_cut) Container.not_isCut_whole
  | @whole c ts hts =>
    obtain rfl | ⟨us, rfl, hus⟩ := hu.cases_value
    · exact absurd (hcut.2 Container.isCut_cut) Container.not_isCut_whole
    · exact .inr ⟨c, ts, us, rfl, rfl, hts.trans hus.symm⟩

/-- Trees with the same places, which start as the same values there, are the same. -/
theorem eq_of_heads (t : Sketch) {u : Sketch}
    (hplaces : ∀ place, (t.at? place).isSome ↔ (u.at? place).isSome)
    (hheads : ∀ place t' u', t.at? place = some t' → u.at? place = some u' →
      ∃ w, t'.Heads s w ∧ u'.Heads s w ∧ (t'.IsCut ↔ u'.IsCut)) : t = u := by
  obtain ⟨w, ht, hu, hcut⟩ := hheads [] t u rfl rfl
  obtain h | ⟨c, ts, us, hts, rfl, hlength⟩ := ht.alike hu hcut
  · exact h
  have hat (ts : List Sketch) {i : Nat} (hi : i < ts.length) (place : List Nat) :
      (c.whole s ts).at? (i :: place) = ts[i].at? place := by
    rw [at?, Container.items_whole, List.getElem?_eq_getElem hi, Option.bind_some]
  have hitems : ts = us := by
    refine List.ext_getElem hlength fun i hi hi' => eq_of_heads ts[i] ?_ ?_
    · intro place
      rw [← hat ts hi, ← hat us hi', ← hts]
      exact hplaces (i :: place)
    · intro place t' u' ht' hu'
      refine hheads (i :: place) t' u' ?_ ?_
      · rwa [hts, hat ts hi]
      · rwa [hat us hi']
  rw [hts, hitems]
termination_by sizeOf t
decreasing_by
  exact hts ▸ Container.sizeOf_lt_whole (List.getElem_mem hi)

/-- A value has no other unfolding. -/
theorem Unfolds.unique (ht : t.Unfolds s v) (hu : u.Unfolds s v) : t = u := by
  have hplaces (place : List Nat) : (t.at? place).isSome ↔ (u.at? place).isSome := by
    rw [ht.place_iff, hu.place_iff]
  refine t.eq_of_heads (s := s) hplaces fun place t' u' ht' hu' => ?_
  obtain ⟨hw, -⟩ := (ht.place_iff place).1 (Option.isSome_iff_exists.2 ⟨t', ht'⟩)
  obtain ⟨w, hw⟩ := Option.isSome_iff_exists.1 hw
  exact ⟨w, ht.heads ht' hw, hu.heads hu' hw, (ht.cut_iff ht').trans (hu.cut_iff hu').symm⟩

end Sketch

end

/-! ### Every value is drawn -/

/-- The list or object is one of the heap. -/
def Container.IsIn (s : Heap) : Container → Prop
  | .list id => id < s.lists.size
  | .object id => id < s.objects.size

/-- How many lists and objects there are. -/
def Heap.containerCount (s : Heap) : Nat := s.lists.size + s.objects.size

section

variable {s : Heap} {path : List Container} {t : Sketch} {v w : Value} {c : Container}
  {ts : List Sketch}

theorem Container.isIn_of_part (h : w ∈ c.value.parts s) : c.IsIn s := by
  cases c with
  | list id =>
    by_contra hid
    have hnone : s.list id = #[] := dif_neg hid
    simp [Container.value, Value.parts, hnone] at h
  | object id =>
    by_contra hid
    have hnone : s.object id = [] := dif_neg hid
    simp [Container.value, Value.parts, hnone] at h

/-- Different lists and objects of the heap are no more than there are. -/
theorem length_path_le (hnodup : path.Nodup) (hin : ∀ c ∈ path, c.IsIn s) :
    path.length ≤ s.containerCount := by
  let all := (List.range s.lists.size).map Container.list ++
    (List.range s.objects.size).map Container.object
  have hsub : path ⊆ all := by
    intro c hc
    have hc := hin c hc
    cases c with
    | list id => simpa [all, Container.IsIn] using hc
    | object id => simpa [all, Container.IsIn] using hc
  have hle : path.length ≤ all.length := (hnodup.subperm hsub).length_le
  simpa [all, Heap.containerCount] using hle

/-- What belongs to each value of a list, as a list. -/
theorem exists_forall₂ {α β : Type} {R : α → β → Prop} {bs : List β}
    (h : ∀ b ∈ bs, ∃ a, R a b) : ∃ as, List.Forall₂ R as bs := by
  induction bs with
  | nil => exact ⟨[], .nil⟩
  | cons b bs ih =>
    obtain ⟨a, ha⟩ := h b List.mem_cons_self
    obtain ⟨as, has⟩ := ih fun c hc => h c (List.mem_cons_of_mem b hc)
    exact ⟨a :: as, .cons ha has⟩

variable [Host] {fuel : Nat}

theorem Sketch.IsLeaf.literal (h : t.IsLeaf v) : v.literal s (fuel + 1) path = t.text := by
  cases h <;> rfl

theorem Container.literal_cut (h : c ∈ path) :
    c.value.literal s (fuel + 1) path = c.cut.text := by
  cases c with
  | list id =>
    rw [Container.value, Value.literal, if_pos (List.contains_iff_mem.2 h)]
    rfl
  | object id =>
    rw [Container.value, Value.literal, if_pos (List.contains_iff_mem.2 h)]
    rfl

theorem Container.literal_whole (h : c ∉ path)
    (hts : (c.value.parts s).map (Value.literal s fuel (c :: path)) = Sketch.texts ts) :
    c.value.literal s (fuel + 1) path = (c.whole s ts).text := by
  have hnew : ¬ path.contains c = true := mt List.contains_iff_mem.1 h
  cases c with
  | list id =>
    have hitems : (s.list id).toList.map (Value.literal s fuel (.list id :: path)) =
        Sketch.texts ts := hts
    rw [value, Value.literal, if_neg hnew, hitems]
    rfl
  | object id =>
    have hfields : (s.object id).map (fun field =>
          field.1 ++ ": " ++ Value.literal s fuel (.object id :: path) field.2) =
        List.zipWith (fun (name text : Bytes) => name ++ ": " ++ text)
          ((s.object id).map (·.1)) (Sketch.texts ts) := by
      rw [← hts, value, Value.parts, List.map_map, List.zipWith_map, List.zipWith_self]
      rfl
    rw [value, Value.literal, if_neg hnew]
    exact congrArg (fun items => Bytes.ofString "\x7b" ++ Bytes.join ", " items ++ "\x7d") hfields

/-- The tree is drawn for the value, and it takes no more fuel than the room to write it. -/
def DrawnWithin (s : Heap) (path : List Container) (room : Nat) (t : Sketch) (v : Value) : Prop :=
  Drawn s path t v ∧ ∀ fuel, room ≤ fuel → v.literal s fuel path = t.text

theorem map_literal_eq_texts {vs : List Value}
    (h : List.Forall₂ (fun (t : Sketch) v => v.literal s fuel path = t.text) ts vs) :
    vs.map (Value.literal s fuel path) = Sketch.texts ts := by
  induction h with
  | nil => rfl
  | cons ht _ ih => rw [List.map_cons, ht, ih, Sketch.texts]

/-- A list or object is drawn if its parts are. -/
theorem DrawnWithin.whole {room : Nat} (hnew : c ∉ path)
    (h : List.Forall₂ (DrawnWithin s (c :: path) room) ts (c.value.parts s)) :
    DrawnWithin s path (room + 1) (c.whole s ts) c.value := by
  constructor
  · refine .whole hnew h.length_eq fun i t w ht hw => ?_
    obtain ⟨hi, rfl⟩ := List.getElem?_eq_some_iff.1 ht
    obtain ⟨hi', rfl⟩ := List.getElem?_eq_some_iff.1 hw
    exact (h.get hi hi').1
  · intro fuel hfuel
    obtain ⟨fuel, rfl⟩ : ∃ n, fuel = n + 1 := ⟨fuel - 1, by omega⟩
    refine Container.literal_whole hnew (map_literal_eq_texts ?_)
    exact h.imp fun t v htv => htv.2 fuel (Nat.le_of_succ_le_succ hfuel)

/-- Inside of some lists and objects, a value is drawn. The induction is on the number of lists and
objects that are left to go into. -/
theorem exists_drawn {room : Nat} (hnodup : path.Nodup) (hin : ∀ c ∈ path, c.IsIn s)
    (hv : v.IsGraph s) (hroom : s.containerCount < path.length + room) :
    ∃ t, DrawnWithin s path room t v := by
  induction room generalizing path v with
  | zero => exact absurd (length_path_le hnodup hin) (Nat.not_le.2 hroom)
  | succ room ih =>
    have container (c : Container) (hc : c.value.IsGraph s) :
        ∃ t, DrawnWithin s path (room + 1) t c.value := by
      by_cases hnew : c ∈ path
      · refine ⟨c.cut, .cut hnew, fun fuel hfuel => ?_⟩
        obtain ⟨fuel, rfl⟩ : ∃ n, fuel = n + 1 := ⟨fuel - 1, by omega⟩
        exact Container.literal_cut hnew
      · have hparts : ∀ w ∈ c.value.parts s, ∃ t, DrawnWithin s (c :: path) room t w := by
          intro w hw
          refine ih (List.nodup_cons.2 ⟨hnew, hnodup⟩) ?_ (hc.part hw) ?_
          · exact List.forall_mem_cons.2 ⟨Container.isIn_of_part hw, hin⟩
          · rw [List.length_cons]
            omega
        obtain ⟨ts, hts⟩ := exists_forall₂ hparts
        exact ⟨c.whole s ts, .whole hnew hts⟩
    have leaf {t : Sketch} (h : t.IsLeaf v) : ∃ t, DrawnWithin s path (room + 1) t v := by
      refine ⟨t, .leaf h, fun fuel hfuel => ?_⟩
      obtain ⟨fuel, rfl⟩ : ∃ n, fuel = n + 1 := ⟨fuel - 1, by omega⟩
      exact h.literal
    cases hv 0 v .self with
    | null => exact leaf .null
    | bool b => exact leaf (.bool b)
    | int n => exact leaf (.int n)
    | string b => exact leaf (.string b)
    | list id => exact container (.list id) hv
    | object id => exact container (.object id) hv

/-- The text of a value made of null, truth values, ints, strings, lists and objects, which may be
shared and may contain themselves. There is exactly one tree that is the unfolding of the value in
which a list or object is cut wherever it is inside itself, and nowhere else, and the written form
of the value is the text of this tree, however much deeper the writing might go. If nothing contains
itself, nothing is cut. -/
theorem repr_unfolding (h : v.IsGraph s) :
    ∃ t : Sketch, t.Unfolds s v ∧ (∀ u : Sketch, u.Unfolds s v → u = t) ∧ v.repr s = t.text ∧
      (∀ fuel, s.depthBound ≤ fuel → v.literal s fuel [] = t.text) ∧
      (v.IsAcyclic s → ∀ place u, t.at? place = some u → ¬ u.IsCut) := by
  have hroom : s.containerCount < ([] : List Container).length + (s.containerCount + 1) := by simp
  obtain ⟨t, ht, htext⟩ := exists_drawn List.nodup_nil (by simp) h hroom
  have hbound : s.containerCount + 1 ≤ s.depthBound := by
    unfold Heap.containerCount Heap.depthBound
    omega
  refine ⟨t, ht.unfolds, fun u hu => hu.unique ht.unfolds, htext _ hbound,
    fun fuel hfuel => htext _ (hbound.trans hfuel), fun hacyclic place u hu hcut => ?_⟩
  exact hacyclic.not_repeatsAt ((ht.unfolds.cut_iff hu).1 hcut)

end

/-- A list that is shared is written twice, and a list that is in one of its objects is cut there.
The shared list alone is written without a cut. -/
theorem repr_unfolding_shared :
    let s : Heap := {
      lists := #[#[.list 1, .list 1, .object 0], #[.int 1]]
      objects := #[[([97], .list 0)]] }
    (Value.list 0).IsGraph s ∧
      (∃ t : Sketch, t.Unfolds s (.list 0) ∧ t.text = "[[1], [1], \x7ba: [...]\x7d]") ∧
      (Value.list 1).IsAcyclic s ∧
      ∃ t : Sketch, t.Unfolds s (.list 1) ∧ ∀ place u, t.at? place = some u → ¬ u.IsCut := by
  intro s
  have hlists : s.IsOrdinary := by
    rintro (_ | _ | id) v hv
    · obtain rfl | rfl : v = .list 1 ∨ v = .object 0 := by simpa [s, Heap.list] using hv
      · exact .list 1
      · exact .object 0
    · obtain rfl : v = .int 1 := by simpa [s, Heap.list] using hv
      exact .int 1
    · simp [s, Heap.list] at hv
  have hobjects : ∀ id, ∀ f ∈ s.object id, f.2.IsOrdinary := by
    rintro (_ | id) f hf
    · obtain rfl : f = ([97], .list 0) := by simpa [s, Heap.object] using hf
      exact .list 0
    · simp [s, Heap.object] at hf
  have hgraph (id : Nat) : (Value.list id).IsGraph s := hlists.isGraph hobjects (.list id)
  have hint {n : Nat} {w : Value} (h : Part s n (.int 1) w) : n = 0 ∧ w = .int 1 := by
    cases h
    exact ⟨rfl, rfl⟩
  have hacyclic : (Value.list 1).IsAcyclic s := by
    intro n w hw m hm
    cases hw with
    | self =>
      cases hm with
      | item hv hm =>
        obtain rfl : _ = Value.int 1 := by simpa [s, Heap.list] using hv
        cases (hint hm).2
    | item hv hw =>
      obtain rfl : _ = Value.int 1 := by simpa [s, Heap.list] using hv
      obtain ⟨-, rfl⟩ := hint hw
      cases (hint hm).1
  obtain ⟨t, ht, -, htext, -⟩ := @repr_unfolding s (.list 0) standalone.toHost (hgraph 0)
  obtain ⟨u, hu, -, -, -, hwhole⟩ := @repr_unfolding s (.list 1) standalone.toHost (hgraph 1)
  refine ⟨hgraph 0, ⟨t, ht, ?_⟩, hacyclic, u, hu, hwhole hacyclic⟩
  rw [← htext]
  decide_cbv

end Stencil
