import Mathlib
import Stencil.Host.Basic
import Stencil.Library.Module
import Stencil.Proofs.Dispatch.Transparency
import Stencil.Proofs.Equality.Comparison
import Stencil.Proofs.Json.Values
import Stencil.Proofs.Literal.Plain

/-!
# Equality of trees

Values made of null, truth values, ints, strings and lists that do not contain themselves show
trees (`isTree_iff_shows`), and are compared as trees, down to the bound on the depth: if they share
no list, they are equal if they show the same tree, and lists are nested in it no deeper than the
bound allows. That is what the operators, the cases of a switch, the search of a list and the
assertion of equality go by: `equal_iff_same_tree`.

Deeper trees are not looked into to the end. They are different even if they are the same:
`equal_deep_lists`.
-/

namespace Stencil

/-! ### Values without a list in common -/

/-- No list is in both values. -/
def Value.Apart (s : Heap) (x y : Value) : Prop :=
  ∀ id n m, Part s n x (.list id) → ¬ Part s m y (.list id)

namespace Value.Apart

variable {s : Heap} {x y v : Value} {i j : Nat}

theorem symm (h : x.Apart s y) : y.Apart s x := fun id n m hy hx => h id m n hx hy

theorem ne (h : (list i).Apart s (.list j)) : i ≠ j := by
  rintro rfl
  exact h i 0 0 .self .self

theorem item (h : (list i).Apart s y) (hv : v ∈ (s.list i).toList) : v.Apart s y :=
  fun id n m hx => h id (n + 1) m (.item hv hx)

end Value.Apart

/-! ### Values without cycles -/

section

variable {s : Heap} {u v w : Value} {n m id : Nat} {ids : List Nat} {d : Plain}

theorem Part.trans (h : Part s n u v) (h' : Part s m v w) : Part s (n + m) u w := by
  induction h with
  | self => rwa [Nat.zero_add]
  | item hv _ ih =>
    rw [Nat.add_right_comm]
    exact .item hv (ih h')
  | field hv _ ih =>
    rw [Nat.add_right_comm]
    exact .field hv (ih h')

/-- The value is made of null, truth values, ints, strings and lists of the heap, and no list in it
contains itself. -/
structure Value.IsTree (s : Heap) (v : Value) : Prop where
  ordinary : ∀ n w, Part s n v w → w.IsOrdinary
  noObject : ∀ n id, ¬ Part s n v (.object id)
  within : ∀ n id, Part s n v (.list id) → id < s.lists.size
  acyclic : ∀ n id, Part s n v (.list id) → ∀ m, ¬ Part s (m + 1) (.list id) (.list id)

theorem Value.IsTree.item (h : (Value.list id).IsTree s) (hv : v ∈ (s.list id).toList) :
    v.IsTree s where
  ordinary n w hw := h.ordinary (n + 1) w (.item hv hw)
  noObject n i hi := h.noObject (n + 1) i (.item hv hi)
  within n i hi := h.within (n + 1) i (.item hv hi)
  acyclic n i hi := h.acyclic (n + 1) i (.item hv hi)

/-- The lists around a value: they differ, and the value is in each of them. -/
structure Around (s : Heap) (ids : List Nat) (v : Value) : Prop where
  nodup : ids.Nodup
  within : ∀ id ∈ ids, id < s.lists.size
  part : ∀ id ∈ ids, ∃ m, Part s (m + 1) (.list id) v

namespace Around

/-- A list without cycles is around its elements too. -/
theorem item (h : Around s ids (.list id)) (htree : (Value.list id).IsTree s)
    (hv : v ∈ (s.list id).toList) : Around s (id :: ids) v := by
  have hnew : id ∉ ids := by
    intro hid
    obtain ⟨m, hm⟩ := h.part id hid
    exact htree.acyclic 0 id .self m hm
  refine ⟨List.nodup_cons.2 ⟨hnew, h.nodup⟩, ?_, ?_⟩
  · exact List.forall_mem_cons.2 ⟨htree.within 0 id .self, h.within⟩
  · refine List.forall_mem_cons.2 ⟨⟨0, .item hv .self⟩, fun i hi => ?_⟩
    obtain ⟨m, hm⟩ := h.part i hi
    exact ⟨m + 1, hm.trans (.item hv .self)⟩

end Around

theorem Plain.Shows.isOrdinary (h : d.Shows s v) : v.IsOrdinary := by
  cases h with
  | null => exact .null
  | bool b => exact .bool b
  | int n => exact .int n
  | string b => exact .string b
  | @list _ id => exact .list id

theorem Plain.ShowAll.exists_mem {ds : List Plain} {vs : List Value} (h : ShowAll s ds vs)
    (hv : v ∈ vs) : ∃ d ∈ ds, d.Shows s v := by
  induction vs generalizing ds with
  | nil => cases hv
  | cons w vs ih =>
    cases h with
    | cons hw hvs =>
      obtain rfl | hv := List.mem_cons.1 hv
      · exact ⟨_, List.mem_cons_self, hw⟩
      · obtain ⟨d, hd, hshows⟩ := ih hvs hv
        exact ⟨d, List.mem_cons_of_mem _ hd, hshows⟩

theorem exists_showAll {vs : List Value} (h : ∀ v ∈ vs, ∃ d : Plain, d.Shows s v) :
    ∃ ds, Plain.ShowAll s ds vs := by
  induction vs with
  | nil => exact ⟨[], .nil⟩
  | cons v vs ih =>
    obtain ⟨d, hd⟩ := h v List.mem_cons_self
    obtain ⟨ds, hds⟩ := ih fun w hw => h w (List.mem_cons_of_mem v hw)
    exact ⟨d :: ds, .cons hd hds⟩

/-- Inside of some lists, a value without cycles shows a tree. The induction is on the number of
lists that are left to go into. -/
theorem Around.exists_shows {room : Nat} (h : Around s ids v) (htree : v.IsTree s)
    (hroom : s.lists.size < ids.length + room) : ∃ d : Plain, d.Shows s v := by
  induction room generalizing ids v with
  | zero => exact absurd (Plain.length_le_of_nodup h.nodup h.within) (Nat.not_le.2 hroom)
  | succ room ih =>
    cases htree.ordinary 0 v .self with
    | null => exact ⟨_, .null⟩
    | bool b => exact ⟨_, .bool b⟩
    | int n => exact ⟨_, .int n⟩
    | string b => exact ⟨_, .string b⟩
    | object id => exact absurd .self (htree.noObject 0 id)
    | list id =>
      have hitems : ∀ w ∈ (s.list id).toList, ∃ d : Plain, d.Shows s w := fun w hw =>
        ih (h.item htree hw) (htree.item hw) (by rw [List.length_cons]; omega)
      obtain ⟨ds, hds⟩ := exists_showAll hitems
      exact ⟨.list ds, .list (htree.within 0 id .self) hds⟩

/-- What is in a value that shows a tree shows a smaller tree. -/
theorem Plain.Shows.part (hd : d.Shows s v) (h : Part s n v w) :
    ∃ e : Plain, e.Shows s w ∧ sizeOf e + n ≤ sizeOf d := by
  induction h generalizing d with
  | self => exact ⟨d, hd, le_rfl⟩
  | item hv _ ih =>
    cases hd with
    | @list ds _ _ hitems =>
      obtain ⟨d', hmem, hd'⟩ := hitems.exists_mem hv
      obtain ⟨e, he, hsize⟩ := ih hd'
      have hlt := List.sizeOf_lt_of_mem hmem
      refine ⟨e, he, ?_⟩
      rw [Plain.list.sizeOf_spec]
      omega
  | field => cases hd

/-- The values without cycles are those that show a tree. -/
theorem isTree_iff_shows : v.IsTree s ↔ ∃ d : Plain, d.Shows s v := by
  constructor
  · intro h
    have haround : Around s [] v := ⟨.nil, nofun, nofun⟩
    have hroom : s.lists.size < ([] : List Nat).length + (s.lists.size + 1) := by simp
    exact haround.exists_shows h hroom
  · rintro ⟨d, hd⟩
    refine ⟨fun n w hw => ?_, fun n id hw => ?_, fun n id hw => ?_, fun n id hw m hm => ?_⟩
    · obtain ⟨e, he, -⟩ := hd.part hw
      exact he.isOrdinary
    · obtain ⟨e, he, -⟩ := hd.part hw
      cases he
    · obtain ⟨e, he, -⟩ := hd.part hw
      cases he
      assumption
    · obtain ⟨e, he, -⟩ := hd.part hw
      obtain ⟨e', he', hsize⟩ := he.part hm
      obtain rfl := he.unique he'
      omega

end

namespace Plain

mutual

/-- How deep lists are nested in a tree. -/
def nesting : Plain → Nat
  | .null | .bool _ | .int _ | .string _ => 0
  | .list ds => nestings ds + 1

/-- How deep lists are nested in some trees. -/
def nestings : List Plain → Nat
  | [] => 0
  | d :: ds => max d.nesting (nestings ds)

end

/-! ### Comparing trees -/

section

variable {s : Heap} {d e : Plain} {ds es : List Plain} {x y : Value} {xs ys : List Value}
  {fuel : Nat}

/-- Lists are compared as trees if their elements are. -/
theorem ShowAll.forall₂_iff {R : Value → Value → Prop} (hxs : ShowAll s ds xs)
    (hys : ShowAll s es ys)
    (h : ∀ x ∈ xs, ∀ y ∈ ys, ∀ d e : Plain, d.Shows s x → e.Shows s y →
      (R x y ↔ d = e ∧ d.nesting ≤ fuel)) :
    List.Forall₂ R xs ys ↔ ds = es ∧ nestings ds ≤ fuel := by
  induction xs generalizing ds es ys with
  | nil =>
    cases hxs
    cases hys with
    | nil => simp [nestings]
    | cons => simp
  | cons x xs ih =>
    cases hxs with
    | cons hx hxs =>
      cases hys with
      | nil => simp
      | cons hy hys =>
        have hfirst := h _ List.mem_cons_self _ List.mem_cons_self _ _ hx hy
        have hrest := ih hxs hys fun a ha b hb =>
          h a (List.mem_cons_of_mem _ ha) b (List.mem_cons_of_mem _ hb)
        rw [List.forall₂_cons, hfirst, hrest, List.cons.injEq, nestings, max_le_iff]
        exact and_and_and_comm

variable [Host]

/-- Leaves are compared as trees. -/
theorem Shows.equalWithin_iff_of_not_lists (hx : d.Shows s x) (hy : e.Shows s y)
    (h : ¬ x.AreLists y) : x.equalWithin s fuel y = true ↔ d = e ∧ d.nesting ≤ fuel := by
  rw [Value.equalWithin_of_not_lists hx.isOrdinary hy.isOrdinary h]
  constructor
  · rintro rfl
    refine ⟨hx.unique hy, ?_⟩
    cases hx with
    | null | bool | int | string => exact Nat.zero_le fuel
    | list => exact absurd ⟨_, _, rfl, rfl⟩ h
  · rintro ⟨rfl, -⟩
    cases hx with
    | null | bool | int | string =>
      cases hy
      rfl
    | list =>
      cases hy
      exact absurd ⟨_, _, rfl, rfl⟩ h

/-- Trees without a list in common are equal if they are the same and the depth is enough. -/
theorem Shows.equalWithin_iff (hx : d.Shows s x) (hy : e.Shows s y) (h : x.Apart s y) :
    x.equalWithin s fuel y = true ↔ d = e ∧ d.nesting ≤ fuel := by
  induction fuel generalizing d e x y with
  | zero =>
    by_cases hlists : x.AreLists y
    · obtain ⟨i, j, rfl, rfl⟩ := hlists
      cases hx
      simp [Value.equalWithin_zero h.ne, nesting]
    · exact hx.equalWithin_iff_of_not_lists hy hlists
  | succ fuel ih =>
    by_cases hlists : x.AreLists y
    · obtain ⟨i, j, rfl, rfl⟩ := hlists
      cases hx with
      | list _ hxs =>
        cases hy with
        | list _ hys =>
          have hitems := hxs.forall₂_iff hys fun a ha b hb d e hd he =>
            ih hd he ((h.item ha).symm.item hb).symm
          rw [list.injEq, nesting, Nat.add_le_add_iff_right, ← hitems,
            Value.equalWithin_iff (.list i) (.list j)]
          simp [h.ne]
    · exact hx.equalWithin_iff_of_not_lists hy hlists

/-- A list has an element that is equal to a value if one of its trees is that of the value. -/
theorem ShowAll.any_equal_iff (hxs : ShowAll s ds xs) (hy : e.Shows s y)
    (h : ∀ x ∈ xs, x.Apart s y) :
    (xs.any fun x => x.equal s y) = true ↔ e ∈ ds ∧ e.nesting ≤ equalityDepth := by
  induction xs generalizing ds with
  | nil =>
    cases hxs
    simp
  | cons x xs ih =>
    cases hxs with
    | @cons d _ ds _ hx hxs =>
      have hfirst : x.equal s y = true ↔ e = d ∧ e.nesting ≤ equalityDepth := by
        rw [Value.equal, hx.equalWithin_iff hy (h x List.mem_cons_self), @eq_comm _ e d]
        exact and_congr_right fun heq => by rw [heq]
      have hrest := ih hxs fun a ha => h a (List.mem_cons_of_mem _ ha)
      rw [List.any_cons, Bool.or_eq_true, hfirst, hrest, List.mem_cons, or_and_right]

end

end Plain

/-! ### What compares values -/

/-- A call site in the code of the unit applies the operator to two operands. -/
structure Applies (s : Store) (unit : Nat) (site : CallSite) (op : BinaryOp) : Prop where
  mem : site ∈ sitesIn (s.units.getD unit [])
  kind : site.kind = .binary
  op : site.op = .binary op

theorem Value.IsOrdinary.isDisguised {x : Value} (hx : x.IsOrdinary) : x.isDisguised = false := by
  cases hx <;> rfl

theorem Value.IsOrdinary.isMissingFunction {x : Value} (hx : x.IsOrdinary) :
    x.isMissingFunction = false := by
  cases hx <;> rfl

/-- The call site does what the operator does. -/
theorem Applies.dispatch [Host] {s : Store} {x y : Value} {call : Callback} {fuel ctx unit : Nat}
    {site : CallSite} {op : BinaryOp} (h : Applies s unit site op) (hu : Compiled s.units)
    (hs : s.caches.Touched s.units) (hx : x.IsOrdinary) (hy : y.IsOrdinary) :
    ∃ c, c.Touched s.units ∧ dispatch call fuel ctx unit site [x, y] s =
      (applyBinary (.binary op) x y).run call (s.withCaches c) := by
  have hstray : site.isStray x y = false := by
    simp [CallSite.isStray, hx.isDisguised, hy.isDisguised, hx.isMissingFunction]
  have hon : Stencil.dispatch call fuel ctx unit site [x, y] s =
      dispatchOn call fuel ctx unit site [x, y] x y s := by
    rw [Stencil.dispatch]
    simp only [h.kind, if_true]
    rfl
  obtain ⟨c, hc, hresolve⟩ :=
    dispatchOn_touched call fuel ctx [x, y] hu.distinctSites hs h.mem hstray
  exact ⟨c, hc, by rw [hon, hresolve, resolveOn_binary h.kind, h.op]⟩

/-- What is reported in a context with a reporter is kept, after the calls that led to it. -/
theorem report_run (call : Callback) {s : Store} {ctx : Nat} (msg : Bytes)
    (h : (s.contexts.getD ctx {}).hasReporter = true) :
    ∃ calls s', (report ctx msg).run call s = .ok () s' ∧
      s'.reports = (calls ++ Bytes.ofString "Error: " ++ msg) :: s.reports := by
  have hstack : ∃ frames s', (Job.callStack ctx).run call s = .ok frames s' ∧
      s'.toHeap = s.toHeap ∧ s'.contexts = s.contexts := ⟨_, _, rfl, rfl, rfl⟩
  obtain ⟨frames, s', hstack, hheap, hcontexts⟩ := hstack
  have hcontext : (Job.context ctx).run call s' = .ok (s.contexts.getD ctx {}) s' := by
    rw [← hcontexts]
    rfl
  rw [report, Job.run_bind, bind_apply, hstack]
  dsimp only
  rw [Job.run_bind, bind_apply, hcontext]
  dsimp only
  rw [if_pos h, ← hheap]
  exact ⟨_, _, rfl, rfl⟩

/-- Whatever compares `x` with `y` in the store comes to the answer `b`. -/
structure ComparesTo [Application] (s : Store) (x y : Value) (b : Bool) : Prop where
  equal : x.equal s.toHeap y = b
  /-- The operator for equality, in the code of any unit. -/
  operator (call : Callback) (fuel ctx unit : Nat) (site : CallSite) :
    Applies s unit site .equal → ∃ c, c.Touched s.units ∧
      dispatch call fuel ctx unit site [x, y] s = .ok (.bool b) (s.withCaches c)
  /-- The operator for the contrary. -/
  contrary (call : Callback) (fuel ctx unit : Nat) (site : CallSite) :
    Applies s unit site .notEqual → ∃ c, c.Touched s.units ∧
      dispatch call fuel ctx unit site [x, y] s = .ok (.bool !b) (s.withCaches c)
  /-- A switch over `x` that comes to a case `y`, where it takes the clause or looks on. -/
  switch (call : Callback) (fuel : Nat) (act : Activation) (site : CallSite) (case : Code)
    (cases : List Code) (start : Store) : Applies s act.unit site .equal →
    (case.eval call fuel act).run start = .ok (.ok y) s → ∃ c, c.Touched s.units ∧
      (evalMatch call fuel act site x (case :: cases)).run start =
        if b then .ok (.ok true) (s.withCaches c)
        else (evalMatch call fuel act site x cases).run (s.withCaches c)
  /-- The assertion of equality, which goes on and reports values that differ. -/
  assertion (call : Callback) (fuel ctx : Nat) (recv : Value) :
    (s.contexts.getD ctx {}).hasReporter = true → ∃ calls s',
      (Native.run fuel ctx (.check .assertEq) recv [x, y]).run call s = .ok .null s' ∧
        s'.reports = if b then s.reports else
          (calls ++ Bytes.ofString "Error: " ++
            (x.repr s.toHeap ++ " != " ++ y.repr s.toHeap)) :: s.reports

section

variable [Application] {s : Store} {x y : Value}

/-- All of them ask whether the values are equal. -/
theorem comparesTo_equal (hu : Compiled s.units) (hs : s.caches.Touched s.units)
    (hx : x.IsOrdinary) (hy : y.IsOrdinary) : ComparesTo s x y (x.equal s.toHeap y) where
  equal := rfl
  operator call fuel ctx unit site h := h.dispatch hu hs hx hy
  contrary call fuel ctx unit site h := h.dispatch hu hs hx hy
  switch call fuel act site case cases start h heval := by
    have hdispatch : ∃ c, c.Touched s.units ∧ dispatch call fuel act.ctx act.unit site [x, y] s =
        .ok (.bool (x.equal s.toHeap y)) (s.withCaches c) := h.dispatch hu hs hx hy
    obtain ⟨c, hc, hdispatch⟩ := hdispatch
    refine ⟨c, hc, ?_⟩
    rw [evalMatch, run_bind_apply, heval]
    dsimp only
    rw [run_bind_apply, run_lift_apply, hdispatch]
    cases x.equal s.toHeap y <;> rfl
  assertion call fuel ctx recv h := by
    let msg := x.repr s.toHeap ++ " != " ++ y.repr s.toHeap
    have hrun : (Native.run fuel ctx (.check .assertEq) recv [x, y]).run call s =
        (do
          if !x.equal s.toHeap y then report ctx msg
          return .null : Job Value).run call s := rfl
    rw [hrun]
    cases x.equal s.toHeap y with
    | true => exact ⟨[], s, rfl, rfl⟩
    | false =>
      obtain ⟨calls, s', hreport, hreports⟩ := report_run call msg h
      refine ⟨calls, s', ?_, hreports⟩
      show (report ctx msg >>= fun _ => pure .null : Job Value).run call s = _
      rw [Job.run_bind, bind_apply, hreport]
      rfl

/-- Equality of trees: values without cycles show trees. If they share no list, they are equal if
their trees are the same and lists are nested in them no deeper than the bound on the depth;
operators, switches and assertions go by that. And a list contains a value if one of its trees is
that of the value, with the same bound. -/
theorem equal_iff_same_tree (hu : Compiled s.units) (hs : s.caches.Touched s.units)
    (hx : x.IsTree s.toHeap) (hy : y.IsTree s.toHeap) (hxy : x.Apart s.toHeap y) :
    ∃ d e : Plain, d.Shows s.toHeap x ∧ e.Shows s.toHeap y ∧
      (∃ b, (b = true ↔ d = e ∧ d.nesting ≤ equalityDepth) ∧ ComparesTo s x y b) ∧
      ∀ ds, d = .list ds → ∃ b, (b = true ↔ e ∈ ds ∧ e.nesting ≤ equalityDepth) ∧
        ∀ (call : Callback) (fuel ctx : Nat),
          (Native.run fuel ctx (.list .contains) x [y]).run call s = .ok (.bool b) s := by
  obtain ⟨d, hd⟩ := isTree_iff_shows.1 hx
  obtain ⟨e, he⟩ := isTree_iff_shows.1 hy
  have hcompares := comparesTo_equal hu hs hd.isOrdinary he.isOrdinary
  refine ⟨d, e, hd, he, ⟨_, hd.equalWithin_iff he hxy, hcompares⟩, ?_⟩
  rintro ds rfl
  cases hd with
  | @list _ id _ hitems =>
    refine ⟨_, hitems.any_equal_iff he fun v hv => hxy.item hv, fun call fuel ctx => ?_⟩
    rw [Array.any_toList]
    rfl

end

/-! ### Towers -/

/-- A list with a list in it, and so on, with so many lists around the innermost one. -/
def Plain.tower : Nat → Plain
  | 0 => .list []
  | n + 1 => .list [tower n]

/-- The lists from 0 to 11, each with the next in it, and the same from 12 to 23. -/
def twoTowers : Heap where
  lists := Array.ofFn fun i : Fin 24 => if i.val % 12 = 11 then #[] else #[.list (i.val + 1)]

variable {i n : Nat} {v : Value}

theorem list_twoTowers (h : i < 24) :
    twoTowers.list i = if i % 12 = 11 then #[] else #[.list (i + 1)] := by
  simp [Heap.list, twoTowers, h]

theorem size_twoTowers : twoTowers.lists.size = 24 := Array.size_ofFn

theorem shows_twoTowers (hi : i < 24) (hn : i % 12 + n = 11) :
    (Plain.tower n).Shows twoTowers (.list i) := by
  induction n generalizing i with
  | zero =>
    refine .list (size_twoTowers ▸ hi) ?_
    rw [list_twoTowers hi, if_pos (by omega)]
    exact .nil
  | succ n ih =>
    refine .list (size_twoTowers ▸ hi) ?_
    rw [list_twoTowers hi, if_neg (by omega)]
    exact .cons (ih (by omega) (by omega)) .nil

/-- Nothing in one tower is in the other. -/
theorem part_twoTowers (h : Part twoTowers n (.list i) v) (hi : i < 24) :
    ∃ j < 24, v = .list j ∧ j / 12 = i / 12 := by
  induction n generalizing i with
  | zero =>
    cases h
    exact ⟨i, hi, rfl, rfl⟩
  | succ n ih =>
    cases h with
    | item hv h =>
      rw [list_twoTowers hi] at hv
      split at hv
      · cases hv
      · obtain rfl := List.mem_singleton.1 hv
        obtain ⟨j, hj, rfl, hside⟩ := ih h (by omega)
        exact ⟨j, hj, rfl, by omega⟩

theorem apart_twoTowers (hi : i < 12) : (Value.list i).Apart twoTowers (.list (i + 12)) := by
  intro id n m hx hy
  obtain ⟨j, -, hj, hlow⟩ := part_twoTowers hx (by omega)
  obtain ⟨k, -, hk, hhigh⟩ := part_twoTowers hy (by omega)
  cases hj
  cases hk
  omega

/-- Trees of the same form, 11 lists deep, compared by the operator in a store in which its code
alone is linked. -/
theorem equal_iff_same_tree_tower :
    let site : CallSite :=
      { id := 0, kind := .binary, op := .binary .equal, pos := ⟨some [], 1, 7⟩ }
    ∃ f, compile [] (Bytes.ofString "out 1 == 2;") {} 0 = .ok f ∧
      let s : Store := {
        toHeap := twoTowers, units := #[f.lambdas], caches.entries := #[#[{}]], contexts := #[{}] }
      Applies s 0 site .equal ∧ ∀ call fuel, ∃ c,
        @dispatch standalone.toHost call fuel 0 0 site [.list 1, .list 13] s =
          .ok (.bool true) (s.withCaches c) := by
  intro site
  have h : (match compile [] (Bytes.ofString "out 1 == 2;") {} 0 with
      | .ok f => decide (site ∈ sitesIn f.lambdas)
      | .error _ => false) = true := by
    decide +kernel
  split at h
  · rename_i f hf
    refine ⟨f, hf, ?_⟩
    intro s
    have happlies : Applies s 0 site .equal := ⟨of_decide_eq_true h, rfl, rfl⟩
    have hu : Compiled s.units := compiled_empty.push hf
    have hs : @Caches.Touched standalone.toHost s.caches s.units :=
      @Caches.Touched.push standalone.toHost #[] {} (@Caches.touched_empty standalone.toHost #[])
        rfl f.lambdas 1
    have hx : (Plain.tower 10).Shows s.toHeap (.list 1) := shows_twoTowers (by decide) rfl
    have hy : (Plain.tower 10).Shows s.toHeap (.list 13) := shows_twoTowers (by decide) rfl
    obtain ⟨d, e, hd, he, ⟨b, hb, hcompares⟩, -⟩ :=
      @equal_iff_same_tree standalone s _ _ hu hs (isTree_iff_shows.2 ⟨_, hx⟩)
        (isTree_iff_shows.2 ⟨_, hy⟩) (apart_twoTowers (by decide))
    obtain rfl := hx.unique hd
    obtain rfl := hy.unique he
    obtain rfl : b = true := hb.2 ⟨rfl, by decide⟩
    refine ⟨happlies, fun call fuel => ?_⟩
    obtain ⟨c, -, hdispatch⟩ :=
      @ComparesTo.operator standalone _ _ _ _ hcompares call fuel 0 0 site happlies
    exact ⟨c, hdispatch⟩
  · cases h

/-- Trees of the same form, 12 lists deep, with no list in common, are not equal. -/
theorem equal_deep_lists :
    (Plain.tower 11).Shows twoTowers (.list 0) ∧ (Plain.tower 11).Shows twoTowers (.list 12) ∧
      (Value.list 0).Apart twoTowers (.list 12) ∧
      @Value.equal standalone.toHost twoTowers (.list 0) (.list 12) = false := by
  have hx : (Plain.tower 11).Shows twoTowers (.list 0) := shows_twoTowers (by decide) rfl
  have hy : (Plain.tower 11).Shows twoTowers (.list 12) := shows_twoTowers (by decide) rfl
  have hxy : (Value.list 0).Apart twoTowers (.list 12) := apart_twoTowers (by decide)
  refine ⟨hx, hy, hxy, Bool.eq_false_iff.2 fun heq => ?_⟩
  exact absurd ((@Plain.Shows.equalWithin_iff _ _ _ _ _ _ standalone.toHost hx hy hxy).1 heq).2
    (by decide)

end Stencil
