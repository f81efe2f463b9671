import Stencil.Code.Lowering

/-!
# What is gathered from the nodes of code

The lambdas and the call sites of code are picked from its nodes. Whatever is picked, that of
a node stands before that of its parts, and the parts follow each other in order.
-/

namespace Stencil

variable {β : Type} (pick : Code → Option β)

/-- What is picked from the nodes of code. -/
def Code.gather (c : Code) : List β := c.nodes.filterMap pick

/-- What is picked from the nodes of several pieces of code. -/
def gatherAll (cs : List Code) : List β := cs.flatMap (Code.gather pick)

@[simp] theorem gatherAll_nil : gatherAll pick [] = [] := rfl

@[simp] theorem gatherAll_cons (c : Code) (cs : List Code) :
    gatherAll pick (c :: cs) = c.gather pick ++ gatherAll pick cs := rfl

@[simp] theorem gatherAll_append (xs ys : List Code) :
    gatherAll pick (xs ++ ys) = gatherAll pick xs ++ gatherAll pick ys := List.flatMap_append

theorem filterMap_nodesOf (cs : List Code) : (nodesOf cs).filterMap pick = gatherAll pick cs := by
  induction cs with
  | nil => rfl
  | cons c cs ih => rw [nodesOf, List.filterMap_append, ih]; rfl

theorem filterMap_cons_toList (c : Code) (cs : List Code) :
    (c :: cs).filterMap pick = (pick c).toList ++ cs.filterMap pick := by
  cases h : pick c <;> simp [h]

theorem filterMap_single (c : Code) : [c].filterMap pick = (pick c).toList :=
  (filterMap_cons_toList ..).trans (List.append_nil _)

theorem filterMap_cons_append (c : Code) (cs ds : List Code) :
    (c :: (cs ++ ds)).filterMap pick =
      (pick c).toList ++ (cs.filterMap pick ++ ds.filterMap pick) :=
  (filterMap_cons_toList ..).trans (congrArg _ List.filterMap_append)

namespace Code

variable (c d e : Code) (cs ds : List Code) (v : Variable)

@[simp] theorem gather_absent : absent.gather pick = [] := rfl

@[simp] theorem gather_constant (v : Value) :
    (constant v).gather pick = (pick (.constant v)).toList :=
  filterMap_single ..

@[simp] theorem gather_empty : empty.gather pick = (pick .empty).toList :=
  filterMap_single ..

@[simp] theorem gather_var : (var v).gather pick = (pick (.var v)).toList :=
  filterMap_single ..

@[simp] theorem gather_assign :
    (assign v c).gather pick = (pick (.assign v c)).toList ++ c.gather pick :=
  filterMap_cons_toList ..

@[simp] theorem gather_lambda (id : Nat) (name : Bytes) (params : List Variable) (slots : Nat) :
    (lambda id name params slots c).gather pick =
      (pick (.lambda id name params slots c)).toList ++ c.gather pick :=
  filterMap_cons_toList ..

@[simp] theorem gather_not : (not c).gather pick = (pick (.not c)).toList ++ c.gather pick :=
  filterMap_cons_toList ..

@[simp] theorem gather_toBool :
    (toBool c).gather pick = (pick (.toBool c)).toList ++ c.gather pick :=
  filterMap_cons_toList ..

@[simp] theorem gather_loop (t : Target) (u : Option Target) :
    (loop t u c).gather pick = (pick (.loop t u c)).toList ++ c.gather pick :=
  filterMap_cons_toList ..

@[simp] theorem gather_label (t : Target) :
    (label t c).gather pick = (pick (.label t c)).toList ++ c.gather pick :=
  filterMap_cons_toList ..

@[simp] theorem gather_goto (t : Target) :
    (goto t c).gather pick = (pick (.goto t c)).toList ++ c.gather pick :=
  filterMap_cons_toList ..

@[simp] theorem gather_iterate :
    (iterate c).gather pick = (pick (.iterate c)).toList ++ c.gather pick :=
  filterMap_cons_toList ..

@[simp] theorem gather_moveNext :
    (moveNext c).gather pick = (pick (.moveNext c)).toList ++ c.gather pick :=
  filterMap_cons_toList ..

@[simp] theorem gather_current :
    (current c).gather pick = (pick (.current c)).toList ++ c.gather pick :=
  filterMap_cons_toList ..

@[simp] theorem gather_debug (p : Position) :
    (debug p c).gather pick = (pick (.debug p c)).toList ++ c.gather pick :=
  filterMap_cons_toList ..

@[simp] theorem gather_block (vars : List Variable) :
    (block vars cs).gather pick = (pick (.block vars cs)).toList ++ gatherAll pick cs :=
  (filterMap_cons_toList ..).trans (congrArg _ (filterMap_nodesOf ..))

@[simp] theorem gather_list :
    (list cs).gather pick = (pick (.list cs)).toList ++ gatherAll pick cs :=
  (filterMap_cons_toList ..).trans (congrArg _ (filterMap_nodesOf ..))

@[simp] theorem gather_dynamic (site : CallSite) :
    (dynamic site cs).gather pick = (pick (.dynamic site cs)).toList ++ gatherAll pick cs :=
  (filterMap_cons_toList ..).trans (congrArg _ (filterMap_nodesOf ..))

@[simp] theorem gather_andAlso :
    (andAlso c d).gather pick = (pick (.andAlso c d)).toList ++ (c.gather pick ++ d.gather pick) :=
  filterMap_cons_append ..

@[simp] theorem gather_orElse :
    (orElse c d).gather pick = (pick (.orElse c d)).toList ++ (c.gather pick ++ d.gather pick) :=
  filterMap_cons_append ..

@[simp] theorem gather_tryFinally :
    (tryFinally c d).gather pick =
      (pick (.tryFinally c d)).toList ++ (c.gather pick ++ d.gather pick) :=
  filterMap_cons_append ..

@[simp] theorem gather_filter :
    (filter c d).gather pick = (pick (.filter c d)).toList ++ (c.gather pick ++ d.gather pick) :=
  filterMap_cons_append ..

@[simp] theorem gather_cond :
    (cond c d e).gather pick =
      (pick (.cond c d e)).toList ++ (c.gather pick ++ d.gather pick ++ e.gather pick) := by
  refine (filterMap_cons_append ..).trans ?_
  rw [List.filterMap_append]
  rfl

@[simp] theorem gather_switch (equal : CallSite) :
    (switch c cs d equal).gather pick = (pick (.switch c cs d equal)).toList ++
      (c.gather pick ++ gatherAll pick cs ++ d.gather pick) := by
  refine (filterMap_cons_append ..).trans ?_
  rw [List.filterMap_append, filterMap_nodesOf]
  rfl

@[simp] theorem gather_case :
    (case cs c).gather pick = (pick (.case cs c)).toList ++ (gatherAll pick cs ++ c.gather pick) := by
  refine (filterMap_cons_append ..).trans ?_
  rw [filterMap_nodesOf]
  rfl

@[simp] theorem gather_contextCall (m : ContextMethod) :
    (contextCall m c cs).gather pick = (pick (.contextCall m c cs)).toList ++
      (c.gather pick ++ gatherAll pick cs) := by
  refine (filterMap_cons_append ..).trans ?_
  rw [filterMap_nodesOf]
  rfl

end Code

/-! ### Parts of parts -/

theorem mem_nodesOf {x : Code} {cs : List Code} : x ∈ nodesOf cs ↔ ∃ c ∈ cs, x ∈ c.nodes := by
  induction cs with
  | nil => simp [nodesOf]
  | cons c cs ih => simp [nodesOf, ih]

theorem forall_nodesOf {cs : List Code} {p : Code → Prop} :
    (∀ x ∈ nodesOf cs, p x) ↔ ∀ c ∈ cs, ∀ x ∈ c.nodes, p x := by
  simp only [mem_nodesOf]
  constructor
  · intro h c hc x hx
    exact h x ⟨c, hc, hx⟩
  · rintro h x ⟨c, hc, hx⟩
    exact h c hc x hx

mutual

/-- The nodes of a node of code are nodes of the code. -/
theorem Code.nodes_trans {d e : Code} : (c : Code) → d ∈ c.nodes → e ∈ d.nodes → e ∈ c.nodes
  | .absent, hd, _ => absurd hd List.not_mem_nil
  | .constant _, hd, he | .empty, hd, he | .var _, hd, he => List.mem_singleton.1 hd ▸ he
  | .block _ items, hd, he | .list items, hd, he | .dynamic _ items, hd, he => by
    rcases List.mem_cons.1 hd with rfl | hd
    · exact he
    · exact List.mem_cons_of_mem _ (nodesOf_trans items hd he)
  | .assign _ x, hd, he | .lambda _ _ _ _ x, hd, he | .not x, hd, he | .toBool x, hd, he
  | .loop _ _ x, hd, he | .label _ x, hd, he | .goto _ x, hd, he | .iterate x, hd, he
  | .moveNext x, hd, he | .current x, hd, he | .debug _ x, hd, he => by
    rcases List.mem_cons.1 hd with rfl | hd
    · exact he
    · exact List.mem_cons_of_mem _ (Code.nodes_trans x hd he)
  | .andAlso x y, hd, he | .orElse x y, hd, he | .tryFinally x y, hd, he | .filter x y, hd, he => by
    rcases List.mem_cons.1 hd with rfl | hd
    · exact he
    · refine List.mem_cons_of_mem _ (List.mem_append.2 ?_)
      exact (List.mem_append.1 hd).imp (Code.nodes_trans x · he) (Code.nodes_trans y · he)
  | .cond x y z, hd, he => by
    rcases List.mem_cons.1 hd with rfl | hd
    · exact he
    · simp only [Code.nodes, List.mem_cons, List.mem_append] at hd ⊢
      exact .inr (hd.imp (Or.imp (Code.nodes_trans x · he) (Code.nodes_trans y · he)) (Code.nodes_trans z · he))
  | .switch x cases d _, hd, he => by
    rcases List.mem_cons.1 hd with rfl | hd
    · exact he
    · simp only [Code.nodes, List.mem_cons, List.mem_append] at hd ⊢
      exact .inr (hd.imp (Or.imp (Code.nodes_trans x · he) (nodesOf_trans cases · he))
        (Code.nodes_trans d · he))
  | .case cs x, hd, he => by
    rcases List.mem_cons.1 hd with rfl | hd
    · exact he
    · refine List.mem_cons_of_mem _ (List.mem_append.2 ?_)
      exact (List.mem_append.1 hd).imp (nodesOf_trans cs · he) (Code.nodes_trans x · he)
  | .contextCall _ x cs, hd, he => by
    rcases List.mem_cons.1 hd with rfl | hd
    · exact he
    · refine List.mem_cons_of_mem _ (List.mem_append.2 ?_)
      exact (List.mem_append.1 hd).imp (Code.nodes_trans x · he) (nodesOf_trans cs · he)

theorem nodesOf_trans {d e : Code} : (cs : List Code) → d ∈ nodesOf cs → e ∈ d.nodes →
    e ∈ nodesOf cs
  | [], hd, _ => absurd hd List.not_mem_nil
  | c :: cs, hd, he =>
    List.mem_append.2 ((List.mem_append.1 hd).imp (Code.nodes_trans c · he) (nodesOf_trans cs · he))

end

/-- The nodes of the body of a lambda in code are nodes of the code. -/
theorem Code.nodes_of_mem_lambdas {c d : Code} {f : Lambda} (hf : f ∈ c.lambdas)
    (hd : d ∈ f.body.nodes) : d ∈ c.nodes := by
  obtain ⟨e, he, hfe⟩ := List.mem_filterMap.1 hf
  cases e with
  | lambda id name params slots body =>
    cases hfe
    exact Code.nodes_trans c he (List.mem_cons_of_mem _ hd)
  | _ => cases hfe

end Stencil
