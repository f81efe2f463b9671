import Stencil.Proofs.Generation.Acceptance
import Stencil.Proofs.Marks

/-!
# The numbers in the code of a module

Each construct has just the numbers that its `after` says are given out while it is lowered.
-/

namespace Stencil

/-- What is numbered in items. -/
def itemMarks (is : List Item) : List Mark := marksOf (is.map (·.code))

theorem marksOf_noted (debug : Bool) (is : List Item) :
    marksOf (is.map (·.noted debug)) = itemMarks is := by
  induction is with
  | nil => rfl
  | cons i is ih => simp_all [itemMarks, Item.noted]

theorem marksOf_outputs (debug : Bool) (is : List Item) :
    marksOf (is.map fun i => outputCode (i.noted debug)) = itemMarks is := by
  induction is with
  | nil => rfl
  | cons i is ih => simp_all [itemMarks, marks_outputCode, Item.noted]

/-! ### Forms -/

section

variable {owner : Nat} {n m : Numbering} {c : Code} {cs : List Code}

theorem Counted.dynamic {site : CallSite} (h : Counted owner n m (marksOf cs))
    (hs : site.id = m.sites) : Counted owner n m.nextSite (Code.dynamic site cs).marks := by
  rw [Code.marks, Code.gather_dynamic]
  show Counted owner n m.nextSite (.site site.id :: marksOf cs)
  rw [hs]
  exact h.site

/-- A block with slots of its own. -/
theorem Counted.blockCode {ownerName : Bytes} {names : List Bytes}
    (h : Counted owner (n.declare names.length) m (marksOf cs))
    (hs : cs.head?.bind Code.state? = none) (ho : owner < n.lambdas) :
    Counted owner n m (Code.block (slotsFrom owner ownerName n.slots names) cs).marks := by
  rw [Code.marks, Code.gather_block]
  cases names with
  | nil => exact h.widen ((Numbering.Le.refl n).declare 0) (.refl m)
  | cons name names =>
    have mark : (Code.block (slotsFrom owner ownerName n.slots (name :: names)) cs).mark? =
        some (.block (slotsFrom owner ownerName n.slots (name :: names))) := by
      simp [slotsFrom, Code.mark?, hs]
    rw [mark]
    exact h.block (fun v hv => mem_slotsFrom hv) ho

theorem counted_load (env : LowerEnv) (p : Position) (name : Bytes) (n : Numbering) :
    Counted owner n n.nextSite (env.load p name n.sites).marks := by
  have none : Counted owner n n.nextSite [] := .nil (Numbering.Le.refl n).nextSite
  unfold LowerEnv.load
  split
  · exact none
  · exact Counted.dynamic (.nil (.refl n)) rfl
  · exact none
  · exact none

theorem counted_store (env : LowerEnv) (p : Position) (name : Bytes)
    (h : Counted owner n m c.marks) :
    Counted owner n m.nextSite (env.store p name c m.sites).marks := by
  unfold LowerEnv.store
  split
  · exact h.noSite
  · exact Counted.dynamic (by simpa [globalsCode, contextCode, Code.mark?] using h) rfl
  · exact .nil h.le.nextSite

theorem counted_return (env : LowerEnv) (h : Counted owner n m c.marks) :
    Counted owner n m (env.return_ c).marks := by
  unfold LowerEnv.return_
  split
  · exact h
  · exact .nil h.le

theorem counted_jump (env : LowerEnv) (target : LoopTargets → Target) (n : Numbering) :
    Counted owner n n (env.jump target).marks := by
  unfold LowerEnv.jump
  split <;> exact .nil (.refl n)

theorem counted_switchCode (p : Position) {dflt : Option Code}
    (h : Counted owner n m (c.marks ++ marksOf cs ++ marksOf dflt.toList)) :
    Counted owner n m.nextSite (switchCode p c cs dflt m.sites).marks := by
  unfold switchCode
  split
  · rename_i he
    obtain rfl : cs = [] := by simpa using he
    simpa [Code.mark?] using h.noSite
  · cases dflt <;> simpa [Code.mark?, List.append_assoc] using h.site

/-- The code of a lambda that starts here, counted from `n'` on. -/
theorem Counted.lambdaCode {n' : Numbering} {name : Bytes} {names : List Bytes} {slots : Nat}
    (hle : (n.enter names.length).Le n')
    (hn : n'.lambdas = n.lambdas + 1 ∧ n'.slots = names.length)
    (h : Counted n.lambdas n' m c.marks) :
    Counted owner n (m.leave n.slots)
      (Code.lambda n.lambdas name (slotsFrom n.lambdas name 0 names) slots c).marks := by
  rw [Code.marks, Code.gather_lambda]
  refine Counted.lambda hle hn h fun v hv => ?_
  have := mem_slotsFrom hv
  omega

end

/-! ### Constructs -/

mutual

theorem counted_expr (env : LowerEnv) : (x : Expr) → (n : Numbering) →
    env.owner < n.lambdas → Counted env.owner n (x.after n) (x.lower env n).marks
  | .literal .., n | .null _, n => fun _ => .nil (.refl n)
  | .name p name, n => fun _ => counted_load env p name n
  | .unary p op x, n => fun ho => by
    rw [Expr.lower, Expr.after]
    have hx := counted_expr env x n ho
    cases op with
    | not => simpa [unaryCode, Code.mark?] using hx.noSite
    | negate => exact Counted.dynamic (by simpa using hx) rfl
  | .binary x p op y, n => fun ho => by
    rw [Expr.lower, Expr.after]
    have hx := counted_expr env x n ho
    have h := hx.append (counted_expr env y _ (hx.owner_lt ho)) ho
    cases op
    case logicalAnd | logicalOr => simpa [binaryCode, Code.mark?] using h.noSite
    all_goals exact Counted.dynamic (by simpa using h) rfl
  | .assign target p y, n => fun ho => by
    by_cases ht : target.isName
    · cases target <;> cases ht
      exact counted_store env p _ ((marks_noteAt env.debug y.start _).symm ▸ counted_expr env y n ho)
    · have hx := counted_expr env target n ho
      have h := hx.append (counted_expr env y _ (hx.owner_lt ho)) ho
      rw [Expr.lower_assign ht, Expr.after, if_neg ht]
      rcases marks_assignCode p (target.lower env n)
          (noteAt env.debug y.start (y.lower env (target.after n))) (y.after (target.after n)).sites
        with hnone | ⟨ms, hsub, hms⟩
      · exact hnone ▸ .nil h.le.nextSite
      · rw [hms, marks_noteAt]
        exact (h.sublist (hsub.append (List.Sublist.refl _))).site
  | .index x l args r, n => fun ho => by
    have hx := counted_expr env x n ho
    have h := hx.append (counted_exprs env args _ (hx.owner_lt ho)) ho
    rw [Expr.lower, Expr.after]
    exact Counted.dynamic (by simpa [marksOf_noted] using h) rfl
  | .method x _ _ name l args r, n => fun ho => by
    have hx := counted_expr env x n ho
    have h := hx.append (counted_exprs env args _ (hx.owner_lt ho)) ho
    rw [Expr.lower, Expr.after]
    exact Counted.dynamic (by simpa [marksOf_noted] using h) rfl
  | .new l x _ args r, n => fun ho => by
    have hx := counted_expr env x n ho
    have h := hx.append (counted_exprs env args _ (hx.owner_lt ho)) ho
    rw [Expr.lower, Expr.after]
    exact Counted.dynamic (by simpa [marksOf_noted] using h) rfl
  | .member x _ p name, n => fun ho => by
    rw [Expr.lower, Expr.after]
    exact Counted.dynamic (by simpa using counted_expr env x n ho) rfl
  | .call p name l args r, n => fun ho => by
    have h := (counted_exprs env args n ho).site
    rw [Expr.lower, Expr.after]
    exact Counted.dynamic
      (by simpa [marksOf_noted, globalCode, globalsCode, contextCode, Code.mark?] using h) rfl
  | .list _ items _, n => fun ho => by
    rw [Expr.lower, Expr.after]
    simpa [marksOf_noted, Code.mark?] using counted_exprs env items n ho
  | .template b, n => fun ho => by
    rw [Expr.lower, Expr.after, marks_templateCode, marks_noteAt]
    exact (counted_block env b n ho).template rfl ho

theorem counted_exprs (env : LowerEnv) : (xs : List Expr) → (n : Numbering) →
    env.owner < n.lambdas → Counted env.owner n (exprsAfter xs n) (itemMarks (exprItems env xs n))
  | [], n => fun _ => .nil (.refl n)
  | x :: xs, n => fun ho =>
    have hx := counted_expr env x n ho
    hx.append (counted_exprs env xs _ (hx.owner_lt ho)) ho

theorem counted_block (env : LowerEnv) : (b : Block) → (n : Numbering) →
    env.owner < n.lambdas → Counted env.owner n (b.after n) (b.lower env n).marks
  | .mk l stmts r t, n => fun ho => by
    let names := (Block.mk l stmts r t).names
    have h := counted_stmts (env.within (env.newSlots n names)) stmts (n.declare names.length) ho
    rw [Block.lower, Block.after]
    refine @Counted.blockCode _ _ _ _ _ names ?_
      (head?_stmtItems (env.within (env.newSlots n names)) stmts _) ho
    rw [marksOf_noted]
    exact h

theorem counted_stmts (env : LowerEnv) : (sts : List Stmt) → (n : Numbering) →
    env.owner < n.lambdas → Counted env.owner n (stmtsAfter sts n) (itemMarks (stmtItems env sts n))
  | [], n => fun _ => .nil (.refl n)
  | st :: sts, n => fun ho =>
    have hst := counted_stmt env st n ho
    hst.append (counted_stmts env sts _ (hst.owner_lt ho)) ho

theorem counted_body (env : LowerEnv) : (b : Block) → (n : Numbering) →
    env.owner < n.lambdas → Counted env.owner n (b.afterBody n) (b.lowerBody env n).marks
  | .mk l stmts r t, n => fun ho => by
    rw [Block.lowerBody, Block.afterBody]
    simpa [marksOf_noted, Code.mark?] using counted_stmts env stmts n ho

theorem counted_varDefs (env : LowerEnv) : (vs : List VarDef) → (n : Numbering) →
    env.owner < n.lambdas →
      Counted env.owner n (varDefsAfter vs n) (itemMarks (varDefItems env vs n))
  | [], n => fun _ => .nil (.refl n)
  | .mk _ _ none :: vs, n => fun ho => counted_varDefs env vs n ho
  | .mk p name (some x) :: vs, n => fun ho =>
    have hx := counted_store env p name
      ((marks_noteAt env.debug x.start (x.lower env n)).symm ▸ counted_expr env x n ho)
    hx.append (counted_varDefs env vs _ (hx.owner_lt ho)) ho

theorem counted_cases (env : LowerEnv) : (cs : List SwitchCase) → (n : Numbering) →
    env.owner < n.lambdas → Counted env.owner n (casesAfter cs n) (itemMarks (caseItems env cs n))
  | [], n => fun _ => .nil (.refl n)
  | .mk p values body :: cs, n => fun ho => by
    have hv := counted_exprs env values n ho
    have hb := hv.append (counted_block env body _ (hv.owner_lt ho)) ho
    have h := hb.append (counted_cases env cs _ (hb.owner_lt ho)) ho
    rw [casesAfter, SwitchCase.after]
    simpa [caseItems, SwitchCase.lower, SwitchCase.after, itemMarks, marksOf_noted, Code.mark?] using h

theorem counted_optBlock (env : LowerEnv) : (b : Option Block) → (n : Numbering) →
    env.owner < n.lambdas →
      Counted env.owner n (optBlockAfter b n) (marksOf (optBlockCode env b n).toList)
  | none, n => fun _ => .nil (.refl n)
  | some b, n => fun ho => by
    rw [optBlockAfter]
    simpa [optBlockCode] using counted_block env b n ho

theorem counted_optWhere (env : LowerEnv) (var : Bytes) : (w : Option WhereClause) →
    (n : Numbering) → env.owner < n.lambdas →
      Counted env.owner n (optWhereAfter w n) (marksOf (optWhereCode env var w n).toList)
  | none, n => fun _ => .nil (.refl n)
  | some (.mk p x), n => fun ho => by
    have hx := counted_expr (env.inLambda n (Bytes.ofString "where") [var] none) x (n.enter 1)
      (Nat.lt_succ_self _)
    have h := @Counted.lambdaCode env.owner n _ _ _ "where" [var] (x.after (n.enter 1)).slots
      (.refl _) ⟨rfl, rfl⟩ ((marks_noteAt env.debug x.start _).symm ▸ hx)
    rw [optWhereAfter, WhereClause.after]
    simpa [optWhereCode, WhereClause.lower] using h

theorem counted_stmt (env : LowerEnv) : (st : Stmt) → (n : Numbering) →
    env.owner < n.lambdas → Counted env.owner n (st.after n) (st.lower env n).marks
  | .block b, n => fun ho => counted_block env b n ho
  | .text .., n => fun _ => .nil (.refl n)
  | .define p vars, n => fun ho => by
    rw [Stmt.lower, marks_sequenceCode, marksOf_noted]
    exact counted_varDefs env vars n ho
  | .output p xs, n => fun ho => by
    rw [Stmt.lower, marks_sequenceCode, marksOf_outputs]
    exact counted_exprs env xs n ho
  | .expr x, n => fun ho => counted_expr env x n ho
  | .ret _ none, n => fun _ => counted_return env (.nil (.refl n))
  | .ret p (some x), n => fun ho => by
    rw [Stmt.after]
    exact counted_return env (by simpa using counted_expr env x n ho)
  | .cond p test yes no, n => fun ho => by
    have ht := counted_expr env test n ho
    have hy := ht.append (counted_block env yes _ (ht.owner_lt ho)) ho
    have h := hy.append (counted_optBlock env no _ (hy.owner_lt ho)) ho
    rw [← marks_getD (c := .absent) rfl] at h
    rw [Stmt.lower, Stmt.after]
    simpa [Code.mark?] using h
  | .loop p test body, n => fun ho => by
    have ht := counted_expr (env.inLoop n.loop) test n.nextLoop ho
    have h := ht.append (counted_block (env.inLoop n.loop) body _ (ht.owner_lt ho)) ho
    have h := h.widen (Numbering.Le.refl n).nextLoop (.refl _)
    change Counted env.owner n _ _ at h
    rw [Stmt.lower, Stmt.after, marks_whileCode]
    simpa using h
  | .each p vp var x filter body between, n => fun ho => by
    let names := loopNames var body
    let inner := (env.inLoop n.loop).within (env.newSlots n names)
    have hx := counted_expr (env.inLoop n.loop) x (n.declare (names.length + 1)).nextLoop ho
    have hw := hx.append (counted_optWhere (env.inLoop n.loop) var filter _ (hx.owner_lt ho)) ho
    have hb := hw.append (counted_body inner body _ (hw.owner_lt ho)) ho
    have h := hb.append (counted_optBlock inner between _ (hb.owner_lt ho)) ho
    have hlen : (env.newSlots n names).length = names.length := length_slotsFrom ..
    rw [Stmt.lower, Stmt.after, marks_forCode, marks_filterCode, marks_noteAt, marks_noteAt,
      marks_getD (c := .empty) rfl]
    refine Counted.loop (hlen.symm ▸ h.widen (Numbering.Le.refl _).nextLoop (.refl _))
      (fun v hv => ?_) ⟨rfl, by rw [hlen]⟩ ho
    rw [hlen]
    exact mem_slotsFrom hv
  | .leave _, n => fun _ => counted_jump env _ n
  | .again _, n => fun _ => counted_jump env _ n
  | .switch p x cases dflt r, n => fun ho => by
    have hx := counted_expr env x n ho
    have hc := hx.append (counted_cases env cases _ (hx.owner_lt ho)) ho
    have h := hc.append (counted_optBlock env dflt _ (hc.owner_lt ho)) ho
    rw [Stmt.lower, Stmt.after]
    exact counted_switchCode p (by simpa [itemMarks] using h)

end

/-! ### Modules -/

theorem counted_function (env : LowerEnv) (f : FunctionDecl) (n : Numbering) :
    Counted env.owner n (f.after n) (f.lower env n).marks := by
  let names := f.params.map (·.name)
  let inner := n.nextTarget.enter f.params.length
  have hb := counted_block (env.inLambda n f.name names (some ⟨n.targets, "return"⟩)) f.body inner
    (Nat.lt_succ_self _)
  have hlen : names.length = f.params.length := List.length_map ..
  have hle : (n.enter names.length).Le inner :=
    hlen ▸ ⟨Nat.le_refl _, Nat.le_succ _, Nat.le_refl _, Nat.le_refl _⟩
  have h : Counted env.owner n ((f.body.after inner).leave n.slots) (f.lambda env n).code.marks := by
    refine @Counted.lambdaCode _ _ _ _ _ _ names _ hle ⟨rfl, hlen.symm⟩ ?_
    change Counted n.lambdas inner _ _ at hb
    simpa [FunctionDecl.lambda, functionBody, Code.mark?] using hb
  refine Counted.dynamic ?_ rfl
  simpa [globalsCode, contextCode, Code.mark?] using h

theorem counted_functions (env : LowerEnv) (fs : List FunctionDecl) (n : Numbering)
    (ho : env.owner < n.lambdas) :
    Counted env.owner n (functionsAfter fs n) (itemMarks (functionItems env fs n)) := by
  induction fs generalizing n with
  | nil => exact .nil (.refl n)
  | cons f fs ih =>
    have hf := counted_function env f n
    exact hf.append (ih _ (hf.owner_lt ho)) ho

theorem counted_defs (env : LowerEnv) (ds : List GlobalDef) (n : Numbering)
    (ho : env.owner < n.lambdas) :
    Counted env.owner n (defsAfter ds n) (itemMarks (defItems env ds n)) := by
  induction ds generalizing n with
  | nil => exact .nil (.refl n)
  | cons d ds ih =>
    have hd := counted_varDefs env d.vars n ho
    rw [← marksOf_noted env.debug, ← marks_sequenceCode] at hd
    exact hd.append (ih _ (hd.owner_lt ho)) ho

/-- The surroundings of the functions, definitions and statements of a module. -/
def LowerEnv.atTop (env : LowerEnv) : LowerEnv :=
  { env with owner := 0, ownerName := contextVariable.ownerName }

theorem Module.counted_items (m : Module) (env : LowerEnv) :
    Counted 0 .start m.after (itemMarks (m.items env.atTop)) := by
  have hf := counted_functions env.atTop m.functions .start (Nat.lt_succ_self 0)
  have hd := hf.append (counted_defs env.atTop m.defs _ (hf.owner_lt (Nat.lt_succ_self 0)))
    (Nat.lt_succ_self 0)
  have h := hd.append (counted_stmts env.atTop m.stmts _ (hd.owner_lt (Nat.lt_succ_self 0)))
    (Nat.lt_succ_self 0)
  change Counted 0 .start m.after _ at h
  rw [Module.items]
  simpa [itemMarks] using h

/-- The numbers in the code of a module are all different. The slot of the context is its own. -/
theorem Module.counted (m : Module) (env : LowerEnv) :
    Counted 0 {} (m.after.leave 0) (m.lower env).code.marks := by
  have hmarks : (m.lower env).code.marks =
      .lambda 0 [contextVariable] :: itemMarks (m.items env.atTop) := by
    simp [Module.lower, Lambda.code, marksOf_noted, Code.mark?, LowerEnv.atTop]
  rw [hmarks]
  refine @Counted.lambda _ {} .start _ _ _ 1 (.refl _) ⟨rfl, rfl⟩
    (m.counted_items env) ?_
  simp [contextVariable]

section

variable (m : Module) (env : LowerEnv)

theorem map_id_sites (c : Code) : c.sites.map (·.id) = c.marks.filterMap Mark.site? := by
  rw [Code.sites, List.map_filterMap, Code.marks, Code.gather, List.filterMap_filterMap]
  congr 1
  funext d
  cases d with
  | block vars items =>
    cases vars with
    | nil => rfl
    | cons v vs =>
      simp only [Code.site?, Code.mark?, Option.map_none]
      cases items.head?.bind Code.state? <;> rfl
  | _ => rfl

theorem map_id_lambdas (c : Code) : c.lambdas.map (·.id) = c.marks.filterMap Mark.lambda? := by
  rw [Code.lambdas, List.map_filterMap, Code.marks, Code.gather, List.filterMap_filterMap]
  congr 1
  funext d
  cases d with
  | block vars items =>
    cases vars with
    | nil => rfl
    | cons v vs =>
      simp only [Code.lambda?, Code.mark?, Option.map_none]
      cases items.head?.bind Code.state? <;> rfl
  | _ => rfl

/-- Two call sites of a module with the same number are one. -/
theorem Module.eq_of_siteId_eq {x y : CallSite} (hx : x ∈ (m.lower env).code.sites)
    (hy : y ∈ (m.lower env).code.sites) (h : x.id = y.id) : x = y := by
  have hids := (m.counted env).sites.nodup
  rw [← map_id_sites] at hids
  exact List.inj_on_of_nodup_map hids hx hy h

/-- The lambda of a module with a number is found by it. -/
theorem Module.find?_lambdas {f : Lambda} (hf : f ∈ (m.lower env).lambdas) :
    (m.lower env).lambdas.find? (·.id = f.id) = some f := by
  have hids : ((m.lower env).lambdas.map (·.id)).Nodup := by
    rw [Lambda.lambdas, map_id_lambdas]
    exact (m.counted env).lambdas.nodup
  cases hfind : (m.lower env).lambdas.find? (·.id = f.id) with
  | none => simpa using List.find?_eq_none.1 hfind f hf
  | some g =>
    have hid : g.id = f.id := by simpa using List.find?_some hfind
    rw [List.inj_on_of_nodup_map hids (List.mem_of_find?_eq_some hfind) hf hid]

end

end Stencil
