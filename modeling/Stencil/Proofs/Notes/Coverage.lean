import Stencil.Proofs.Nodes
import Stencil.Proofs.Source.Progress
import Stencil.Proofs.Syntax.Derivation.Statements
import Stencil.Proofs.Typing.Lowering

/-!
# Notes cover what may fail

Code that is compiled with debug information notes the places that it came from. The notes stand
where a construct is made part of another one, so it takes a look at all constructs to see that
nothing is left out: the body of each lambda is covered by notes, down to what cannot fail.

A place is noted only if it is known. That all of them are is read off the grammar, as each lexeme
has its position in the file and no construct has any other.
-/

namespace Stencil

/-! ### Covered code -/

/-- Code in which all that may fail is under a note of its place. -/
inductive Code.Covered : Code → Prop where
  | note (pos : Position) (x : Code) : Covered (.debug pos x)
  | empty : Covered .empty
  | label (t : Target) (v : Value) : Covered (.label t (.constant v))
  | block {items : List Code} (h : ∀ c ∈ items, c.Covered) : Covered (.block [] items)

/-- Notes tell places that are known, and the bodies of lambdas are covered. -/
def Code.Annotated : Code → Prop
  | .debug pos _ => pos.isValid = true
  | .lambda _ _ _ _ body => body.Covered
  | _ => True

/-- Code all of whose nodes are annotated. -/
def Code.WellNoted (c : Code) : Prop := ∀ d ∈ c.nodes, d.Annotated

section

variable {env : LowerEnv} {c d e : Code} {cs : List Code}

/-! ### Nodes -/

/-- Of a node of no concern its parts are looked at. -/
theorem annotated_cons (c : Code) (hc : c.Annotated) :
    (∀ d ∈ c :: cs, d.Annotated) ↔ ∀ d ∈ cs, d.Annotated :=
  List.forall_mem_cons.trans (and_iff_right hc)

namespace Code

@[simp] theorem wellNoted_absent : absent.WellNoted := fun _ h => absurd h List.not_mem_nil

@[simp] theorem wellNoted_constant (v : Value) : (constant v).WellNoted :=
  List.forall_mem_singleton.2 trivial

@[simp] theorem wellNoted_empty : empty.WellNoted := List.forall_mem_singleton.2 trivial

@[simp] theorem wellNoted_var (v : Variable) : (var v).WellNoted :=
  List.forall_mem_singleton.2 trivial

@[simp] theorem wellNoted_assign (v : Variable) : (assign v c).WellNoted ↔ c.WellNoted :=
  annotated_cons _ trivial

@[simp] theorem wellNoted_not : (not c).WellNoted ↔ c.WellNoted := annotated_cons _ trivial

@[simp] theorem wellNoted_toBool : (toBool c).WellNoted ↔ c.WellNoted := annotated_cons _ trivial

@[simp] theorem wellNoted_loop (brk : Target) (cont : Option Target) :
    (loop brk cont c).WellNoted ↔ c.WellNoted := annotated_cons _ trivial

@[simp] theorem wellNoted_label (t : Target) : (label t c).WellNoted ↔ c.WellNoted :=
  annotated_cons _ trivial

@[simp] theorem wellNoted_goto (t : Target) : (goto t c).WellNoted ↔ c.WellNoted :=
  annotated_cons _ trivial

@[simp] theorem wellNoted_iterate : (iterate c).WellNoted ↔ c.WellNoted := annotated_cons _ trivial

@[simp] theorem wellNoted_moveNext : (moveNext c).WellNoted ↔ c.WellNoted := annotated_cons _ trivial

@[simp] theorem wellNoted_current : (current c).WellNoted ↔ c.WellNoted := annotated_cons _ trivial

theorem wellNoted_debug (pos : Position) :
    (debug pos c).WellNoted ↔ pos.isValid = true ∧ c.WellNoted := List.forall_mem_cons

theorem wellNoted_lambda (id : Nat) (name : Bytes) (params : List Variable) (slots : Nat) :
    (lambda id name params slots c).WellNoted ↔ c.Covered ∧ c.WellNoted := List.forall_mem_cons

@[simp] theorem wellNoted_block (vars : List Variable) :
    (block vars cs).WellNoted ↔ ∀ c ∈ cs, c.WellNoted :=
  (annotated_cons (block vars cs) trivial).trans forall_nodesOf

theorem wellNoted_list : (list cs).WellNoted ↔ ∀ c ∈ cs, c.WellNoted :=
  (annotated_cons (list cs) trivial).trans forall_nodesOf

@[simp] theorem wellNoted_dynamic (site : CallSite) :
    (dynamic site cs).WellNoted ↔ ∀ c ∈ cs, c.WellNoted :=
  (annotated_cons (dynamic site cs) trivial).trans forall_nodesOf

@[simp] theorem wellNoted_andAlso : (andAlso c d).WellNoted ↔ c.WellNoted ∧ d.WellNoted :=
  (annotated_cons (andAlso c d) trivial).trans List.forall_mem_append

@[simp] theorem wellNoted_orElse : (orElse c d).WellNoted ↔ c.WellNoted ∧ d.WellNoted :=
  (annotated_cons (orElse c d) trivial).trans List.forall_mem_append

@[simp] theorem wellNoted_tryFinally : (tryFinally c d).WellNoted ↔ c.WellNoted ∧ d.WellNoted :=
  (annotated_cons (tryFinally c d) trivial).trans List.forall_mem_append

theorem wellNoted_filter : (filter c d).WellNoted ↔ c.WellNoted ∧ d.WellNoted :=
  (annotated_cons (filter c d) trivial).trans List.forall_mem_append

@[simp] theorem wellNoted_cond :
    (cond c d e).WellNoted ↔ (c.WellNoted ∧ d.WellNoted) ∧ e.WellNoted :=
  (annotated_cons (cond c d e) trivial).trans (List.forall_mem_append.trans
    (and_congr_left fun _ => List.forall_mem_append))

theorem wellNoted_switch (equal : CallSite) :
    (switch c cs d equal).WellNoted ↔ (c.WellNoted ∧ ∀ c ∈ cs, c.WellNoted) ∧ d.WellNoted :=
  (annotated_cons (switch c cs d equal) trivial).trans (List.forall_mem_append.trans
    (and_congr_left fun _ => List.forall_mem_append.trans (and_congr_right fun _ => forall_nodesOf)))

theorem wellNoted_case : (case cs c).WellNoted ↔ (∀ c ∈ cs, c.WellNoted) ∧ c.WellNoted :=
  (annotated_cons (case cs c) trivial).trans (List.forall_mem_append.trans
    (and_congr_left fun _ => forall_nodesOf))

@[simp] theorem wellNoted_contextCall (m : ContextMethod) :
    (contextCall m c cs).WellNoted ↔ c.WellNoted ∧ ∀ c ∈ cs, c.WellNoted :=
  (annotated_cons (contextCall m c cs) trivial).trans (List.forall_mem_append.trans
    (and_congr_right fun _ => forall_nodesOf))

theorem WellNoted.unwrap (h : c.WellNoted) : c.unwrap.WellNoted := by
  induction c using Code.unwrap.induct with
  | case1 pos x ih => exact ih (wellNoted_debug pos |>.1 h).2
  | case2 c hc =>
    cases c with
    | debug pos x => exact absurd rfl (hc pos x)
    | _ => exact h

end Code

/-- Only places that are known are noted. -/
theorem Code.WellNoted.noteAt (h : c.WellNoted) (debug : Bool) (pos : Position) :
    (noteAt debug pos c).WellNoted := by
  unfold Stencil.noteAt
  split
  · exact h
  · rename_i hd
    split
    · exact h
    · simp only [Bool.or_eq_true, Bool.not_eq_true', not_or, Bool.not_eq_false] at hd
      exact Code.wellNoted_debug pos |>.2 ⟨hd.2, h⟩

/-- What is noted is covered, if its place is known. -/
theorem covered_noteAt {debug : Bool} {pos : Position} (hd : debug = true)
    (hp : pos.isValid = true) (c : Code) : (noteAt debug pos c).Covered := by
  unfold noteAt
  rw [if_neg (by simp [hd, hp])]
  split <;> exact .note _ _

/-! ### The code of constructs, put together from that of its parts -/

@[simp] theorem wellNoted_globals : globalsCode.WellNoted := by simp [globalsCode, contextCode]

theorem wellNoted_load (pos : Position) (name : Bytes) (site : Nat) :
    (env.load pos name site).WellNoted := by
  unfold LowerEnv.load
  split <;> simp [globalCode]

theorem wellNoted_store (pos : Position) (name : Bytes) (hc : c.WellNoted) (site : Nat) :
    (env.store pos name c site).WellNoted := by
  unfold LowerEnv.store
  split <;> simp [setGlobalCode, hc]

theorem wellNoted_jump (target : LoopTargets → Target) : (env.jump target).WellNoted := by
  unfold LowerEnv.jump
  split <;> simp

theorem wellNoted_return (hc : c.WellNoted) : (env.return_ c).WellNoted := by
  unfold LowerEnv.return_
  split <;> simp [hc]

theorem wellNoted_sequenceCode (h : ∀ c ∈ cs, c.WellNoted) : (sequenceCode cs).WellNoted := by
  match cs with
  | [] => exact Code.wellNoted_empty
  | [c] => exact h c List.mem_cons_self
  | _ :: _ :: _ => exact Code.wellNoted_block [] |>.2 h

theorem wellNoted_outputCode (hc : c.WellNoted) : (outputCode c).WellNoted := by
  unfold outputCode
  split
  · split <;> simp [contextCode, hc]
  · simp [contextCode, hc]

theorem wellNoted_unaryCode (pos : Position) (op : UnaryOp) (hc : c.WellNoted) (site : Nat) :
    (unaryCode pos op c site).WellNoted := by
  cases op <;> simp [unaryCode, hc]

theorem wellNoted_binaryCode (pos : Position) (op : BinaryOp) (hc : c.WellNoted) (hd : d.WellNoted)
    (site : Nat) : (binaryCode pos op c d site).WellNoted := by
  cases op <;> simp [binaryCode, hc, hd]

/-- What an assignment makes of its target, which has been lowered as if it were read. -/
theorem wellNoted_assignCode (pos : Position) (hc : c.WellNoted) (hd : d.WellNoted) (site : Nat) :
    (assignCode pos c d site).WellNoted := by
  have target := hc.unwrap
  unfold assignCode
  split
  · rename_i read args hread
    rw [hread, Code.wellNoted_dynamic] at target
    have operands : ∀ x ∈ args ++ [d], x.WellNoted :=
      List.forall_mem_append.2 ⟨target, List.forall_mem_singleton.2 hd⟩
    split
    · exact Code.wellNoted_dynamic _ |>.2 operands
    · exact Code.wellNoted_dynamic _ |>.2 operands
    · exact Code.wellNoted_absent
  · exact Code.wellNoted_absent

theorem wellNoted_forCode (t : LoopTargets) (vars : List Variable) (enum : Variable)
    (hsource : c.WellNoted) (hbody : d.WellNoted) (hbetween : e.WellNoted) :
    (forCode t vars enum c d e).WellNoted := by
  have assigned {x : Code} (hx : x.WellNoted) (vs : List Variable) :
      ∀ y ∈ vs.map (Code.assign · x), y.WellNoted := by
    intro y hy
    obtain ⟨v, -, rfl⟩ := List.mem_map.1 hy
    exact Code.wellNoted_assign v |>.2 hx
  have round : (Code.block [] (((vars.drop 1).map fun v => Code.assign v (.constant .null)) ++
      ((vars.take 1).map fun v => Code.assign v (.current (.var enum))) ++
      [d, .label t.cont .absent,
        .cond (.moveNext (.var enum)) e (.goto t.brk .absent)])).WellNoted := by
    refine Code.wellNoted_block _ |>.2 (List.forall_mem_append.2 ⟨List.forall_mem_append.2
      ⟨assigned (by simp) _, assigned (by simp) _⟩, ?_⟩)
    simp [hbody, hbetween]
  refine Code.wellNoted_block _ |>.2 (List.forall_mem_cons.2 ⟨by simp [hsource], ?_⟩)
  exact List.forall_mem_singleton.2 (Code.wellNoted_cond.2 ⟨⟨by simp,
    Code.wellNoted_loop _ _ |>.2 round⟩, Code.wellNoted_absent⟩)

theorem wellNoted_filterCode {pred : Option Code} (hc : c.WellNoted)
    (hp : ∀ p, pred = some p → p.WellNoted) : (filterCode c pred).WellNoted := by
  cases pred with
  | none => exact hc
  | some p => exact Code.wellNoted_filter.2 ⟨hc, hp p rfl⟩

theorem wellNoted_whileCode (t : LoopTargets) (hc : c.WellNoted) (hd : d.WellNoted) :
    (whileCode t c d).WellNoted := by
  simp [whileCode, hc, hd]

theorem wellNoted_templateCode (tmp : Variable) (hc : c.WellNoted) :
    (templateCode tmp c).WellNoted := by
  simp [templateCode, contextCode, hc]

theorem wellNoted_getD {o : Option Code} (ho : ∀ c, o = some c → c.WellNoted) (hd : d.WellNoted) :
    (o.getD d).WellNoted := by
  cases o with
  | none => exact hd
  | some c => exact ho c rfl

theorem wellNoted_switchCode (pos : Position) {dflt : Option Code} (hc : c.WellNoted)
    (harms : ∀ c ∈ cs, c.WellNoted) (hdflt : ∀ d, dflt = some d → d.WellNoted) (site : Nat) :
    (switchCode pos c cs dflt site).WellNoted := by
  unfold switchCode
  split
  · cases dflt with
    | none => simp [hc]
    | some d => simp [hc, hdflt d rfl]
  · exact Code.wellNoted_switch _ |>.2 ⟨⟨hc, harms⟩, wellNoted_getD hdflt Code.wellNoted_absent⟩

end

/-- Items whose code is well noted stay so with the notes of their places. -/
theorem wellNoted_noted {is : List Item} (h : ∀ i ∈ is, i.code.WellNoted) (debug : Bool) :
    ∀ c ∈ is.map (·.noted debug), c.WellNoted := by
  intro c hc
  obtain ⟨i, hi, rfl⟩ := List.mem_map.1 hc
  exact (h i hi).noteAt debug i.pos

/-! ### Constructs -/

/-- An expression that starts somewhere, and whose code is well noted wherever it stands. -/
structure Expr.Sited (x : Expr) : Prop where
  start : x.start.isValid = true
  lower : ∀ env n, env.debug = true → (x.lower env n).WellNoted

/-- A block that starts somewhere, and whose code is well noted wherever it stands. -/
structure Block.Sited (b : Block) : Prop where
  first : b.span.first.isValid = true
  stmts : ∀ env n, env.debug = true → ∀ i ∈ stmtItems env b.stmts n, i.code.WellNoted

/-- A statement that starts somewhere, and whose code is well noted wherever it stands. -/
structure Stmt.Sited (st : Stmt) : Prop where
  first : st.span.first.isValid = true
  lower : ∀ env n, env.debug = true → (st.lower env n).WellNoted

/-- A definition whose code is well noted wherever it stands. -/
def VarDef.Sited (v : VarDef) : Prop :=
  ∀ env n, env.debug = true → ∀ i ∈ v.items env n, i.code.WellNoted

/-- A condition on elements whose code is well noted wherever it stands. -/
def WhereClause.Sited (w : WhereClause) : Prop :=
  ∀ env var n, env.debug = true → (w.lower env var n).WellNoted

/-- An arm of a switch whose code is well noted wherever it stands. -/
def SwitchCase.Sited (c : SwitchCase) : Prop :=
  ∀ env n, env.debug = true → (c.lower env n).WellNoted

section

variable {env : LowerEnv}

theorem wellNoted_exprItems {xs : List Expr} (h : ∀ x ∈ xs, x.Sited) (hd : env.debug = true)
    (n : Numbering) : ∀ i ∈ exprItems env xs n, i.code.WellNoted := by
  induction xs generalizing n with
  | nil => exact fun _ hi => absurd hi List.not_mem_nil
  | cons x xs ih =>
    exact List.forall_mem_cons.2 ⟨(h x List.mem_cons_self).lower env n hd,
      ih (fun y hy => h y (List.mem_cons_of_mem _ hy)) _⟩

theorem wellNoted_stmtItems {sts : List Stmt} (h : ∀ st ∈ sts, st.Sited) (hd : env.debug = true)
    (n : Numbering) : ∀ i ∈ stmtItems env sts n, i.code.WellNoted := by
  induction sts generalizing n with
  | nil => exact fun _ hi => absurd hi List.not_mem_nil
  | cons st sts ih =>
    exact List.forall_mem_cons.2 ⟨(h st List.mem_cons_self).lower env n hd,
      ih (fun y hy => h y (List.mem_cons_of_mem _ hy)) _⟩

theorem wellNoted_varDefItems {vs : List VarDef} (h : ∀ v ∈ vs, v.Sited) (hd : env.debug = true)
    (n : Numbering) : ∀ i ∈ varDefItems env vs n, i.code.WellNoted := by
  induction vs generalizing n with
  | nil => exact fun _ hi => absurd hi List.not_mem_nil
  | cons v vs ih =>
    exact List.forall_mem_append.2 ⟨h v List.mem_cons_self env n hd,
      ih (fun w hw => h w (List.mem_cons_of_mem _ hw)) _⟩

theorem wellNoted_caseItems {cs : List SwitchCase} (h : ∀ c ∈ cs, c.Sited) (hd : env.debug = true)
    (n : Numbering) : ∀ i ∈ caseItems env cs n, i.code.WellNoted := by
  induction cs generalizing n with
  | nil => exact fun _ hi => absurd hi List.not_mem_nil
  | cons c cs ih =>
    exact List.forall_mem_cons.2 ⟨h c List.mem_cons_self env n hd,
      ih (fun w hw => h w (List.mem_cons_of_mem _ hw)) _⟩

theorem Expr.Sited.noted {x : Expr} (h : x.Sited) (hd : env.debug = true) (n : Numbering) :
    (noteAt env.debug x.start (x.lower env n)).WellNoted := (h.lower env n hd).noteAt _ _

theorem Block.Sited.lower {b : Block} (h : b.Sited) (hd : env.debug = true) (n : Numbering) :
    (b.lower env n).WellNoted := by
  obtain ⟨l, sts, r, t⟩ := b
  exact Code.wellNoted_block _ |>.2 (wellNoted_noted (h.stmts (env.within _) _ hd) _)

theorem Block.Sited.noted {b : Block} (h : b.Sited) (hd : env.debug = true) (n : Numbering) :
    (noteAt env.debug b.span.first (b.lower env n)).WellNoted := (h.lower hd n).noteAt _ _

theorem Block.Sited.body {b : Block} (h : b.Sited) (hd : env.debug = true) (n : Numbering) :
    (noteAt env.debug b.span.first (b.lowerBody env n)).WellNoted := by
  obtain ⟨l, sts, r, t⟩ := b
  exact (Code.wellNoted_block _ |>.2 (wellNoted_noted (h.stmts env n hd) _)).noteAt _ _

theorem wellNoted_optBlock {b : Option Block} (h : ∀ c, b = some c → c.Sited)
    (hd : env.debug = true) (n : Numbering) : ∀ c, optBlockCode env b n = some c → c.WellNoted := by
  cases b with
  | none => exact fun _ hc => by cases hc
  | some b =>
    rintro _ ⟨⟩
    exact (h b rfl).noted hd n

theorem wellNoted_optWhere {w : Option WhereClause} (h : ∀ x, w = some x → x.Sited)
    (hd : env.debug = true) (var : Bytes) (n : Numbering) :
    ∀ c, optWhereCode env var w n = some c → c.WellNoted := by
  cases w with
  | none => exact fun _ hc => by cases hc
  | some w =>
    rintro _ ⟨⟩
    exact (h w rfl env var n hd).noteAt _ _

/-- A condition on elements is a lambda of its own, whose body is noted. -/
theorem WhereClause.Sited.sited {x : Expr} (h : x.Sited) (pos : Position) :
    (WhereClause.mk pos x).Sited := by
  intro env var n hd
  exact Code.wellNoted_lambda _ _ _ _ |>.2 ⟨covered_noteAt hd h.start _,
    (h.lower (env.inLambda ..) _ hd).noteAt _ _⟩

theorem SwitchCase.Sited.sited {values : List Expr} {body : Block} (hv : ∀ x ∈ values, x.Sited)
    (hb : body.Sited) (pos : Position) : (SwitchCase.mk pos values body).Sited := by
  intro env n hd
  exact Code.wellNoted_case.2 ⟨wellNoted_noted (wellNoted_exprItems hv hd n) _, hb.noted hd _⟩

theorem Stmt.Sited.conditional {p : Position} {x : Expr} {b : Block} {o : Option Block}
    (hp : p.isValid = true) (hx : x.Sited) (hb : b.Sited) (ho : ∀ c, o = some c → c.Sited) :
    (Stmt.cond p x b o).Sited := by
  refine ⟨hp, fun env n hd => ?_⟩
  rw [Stmt.lower]
  exact Code.wellNoted_cond.2 ⟨⟨Code.wellNoted_toBool.2 (hx.noted hd n), hb.noted hd _⟩,
    wellNoted_getD (wellNoted_optBlock ho hd _) Code.wellNoted_absent⟩

theorem Block.Sited.sited {l r : Position} {sts : List Stmt} {t : Bool} (hl : l.isValid = true)
    (h : ∀ st ∈ sts, st.Sited) : (Block.mk l sts r t).Sited :=
  ⟨hl, fun _ n hd => wellNoted_stmtItems h hd n⟩

end

/-! ### Phrases -/

/-- Lexemes at places that are known. -/
def Known (ls : List Lexeme) : Prop := ∀ l ∈ ls, l.pos.isValid = true

namespace Known

variable {l : Lexeme} {ls ms : List Lexeme}

theorem left (h : Known (ls ++ ms)) : Known ls := fun l hl => h l (List.mem_append_left _ hl)

theorem right (h : Known (ls ++ ms)) : Known ms := fun l hl => h l (List.mem_append_right _ hl)

theorem head (h : Known (l :: ls)) : l.pos.isValid = true := h l List.mem_cons_self

theorem tail (h : Known (l :: ls)) : Known ls := fun m hm => h m (List.mem_cons_of_mem _ hm)

end Known

section

variable {d : Dialect}

theorem IsTypeName.sited : ∀ {ts : List Lexeme} {t : Expr}, IsTypeName ts t → Known ts → t.Sited
  | _, _, .name _, hk => ⟨hk.head, fun _ _ _ => wellNoted_load _ _ _⟩
  | _, _, .member ht _ _, hk => by
    have ht := ht.sited hk.left
    refine ⟨ht.start, fun env n hd => ?_⟩
    rw [Expr.lower]
    exact Code.wellNoted_dynamic _ |>.2 (List.forall_mem_singleton.2 (ht.noted hd n))

/-- The operands of an operation on an expression and further ones. -/
theorem Expr.Sited.operands {x : Expr} {xs : List Expr} {env : LowerEnv} (hx : x.Sited)
    (hxs : ∀ y ∈ xs, y.Sited) (hd : env.debug = true) (n m : Numbering) (kind : SiteKind)
    (pos : Position) (name : Bytes) (arity site : Nat) :
    (dynamicCode kind pos name arity (noteAt env.debug x.start (x.lower env n) ::
      (exprItems env xs m).map (·.noted env.debug)) site).WellNoted :=
  Code.wellNoted_dynamic _ |>.2 (List.forall_mem_cons.2 ⟨hx.noted hd n,
    wellNoted_noted (wellNoted_exprItems hxs hd m) _⟩)

mutual

theorem expr_sited : ∀ {ls : List Lexeme} {x : Expr}, IsExpr d ls x → Known ls → x.Sited
  | _, _, .level h => fun hk => level_sited h hk
  | _, _, .assign hx _ hy => fun hk => by
    have hx := level_sited hx hk.left
    have hy := expr_sited hy hk.right.tail
    refine ⟨hx.start, fun env n hd => ?_⟩
    rw [Expr.lower.eq_def]
    dsimp only
    split
    · exact wellNoted_store _ _ (hy.noted hd _) _
    · exact wellNoted_assignCode _ (hx.lower env n hd) (hy.noted hd _) _

theorem level_sited : ∀ {k : Nat} {ls : List Lexeme} {x : Expr}, IsLevel d k ls x → Known ls → x.Sited
  | _, _, _, .unary h => fun hk => unary_sited h hk
  | _, _, _, .up h => fun hk => level_sited h hk
  | _, _, _, .binary hx _ hy => fun hk => by
    have hx := level_sited hx hk.left
    have hy := level_sited hy hk.right.tail
    refine ⟨hx.start, fun env n hd => ?_⟩
    rw [Expr.lower]
    exact wellNoted_binaryCode _ _ (hx.noted hd _) (hy.noted hd _) _

theorem unary_sited : ∀ {ls : List Lexeme} {x : Expr}, IsUnary d ls x → Known ls → x.Sited
  | _, _, .not _ hx | _, _, .negate _ hx => fun hk => by
    refine ⟨hk.head, fun env n hd => ?_⟩
    rw [Expr.lower]
    exact wellNoted_unaryCode _ _ ((unary_sited hx hk.tail).noted hd _) _
  | _, _, .operand hx => fun hk => postfix_sited hx hk

theorem postfix_sited : ∀ {ls : List Lexeme} {x : Expr}, IsPostfix d ls x → Known ls → x.Sited
  | _, _, .primary hx => fun hk => primary_sited hx hk
  | _, _, .member hx _ _ => fun hk => by
    have hx := postfix_sited hx hk.left
    refine ⟨hx.start, fun env n hd => ?_⟩
    rw [Expr.lower]
    exact Code.wellNoted_dynamic _ |>.2 (List.forall_mem_singleton.2 (hx.noted hd n))
  | _, _, .method hx _ _ _ has _ => fun hk => by
    have hx := postfix_sited hx hk.left.left
    have hxs := args_sited has hk.left.right.tail.tail.tail
    refine ⟨hx.start, fun env n hd => ?_⟩
    rw [Expr.lower]
    exact hx.operands hxs hd _ _ _ _ _ _ _
  | _, _, .index hx _ has _ _ => fun hk => by
    have hx := postfix_sited hx hk.left.left
    have hxs := args_sited has hk.left.right.tail
    refine ⟨hx.start, fun env n hd => ?_⟩
    rw [Expr.lower]
    exact hx.operands hxs hd _ _ _ _ _ _ _

theorem primary_sited : ∀ {ls : List Lexeme} {x : Expr}, IsPrimary d ls x → Known ls → x.Sited
  | _, _, .literal _ | _, _, .null _ => fun hk => ⟨hk.head, fun _ _ _ => Code.wellNoted_constant _⟩
  | _, _, .name _ => fun hk => ⟨hk.head, fun _ _ _ => wellNoted_load _ _ _⟩
  | _, _, .call _ _ has _ => fun hk => by
    have hxs := args_sited has hk.left.tail.tail
    refine ⟨hk.left.head, fun env n hd => ?_⟩
    rw [Expr.lower]
    exact Code.wellNoted_dynamic _ |>.2 (List.forall_mem_cons.2 ⟨by simp [globalCode],
      wellNoted_noted (wellNoted_exprItems hxs hd n) _⟩)
  | _, _, .new _ ht _ has _ => fun hk => by
    have ht := ht.sited hk.left.left.tail
    have hxs := args_sited has hk.left.right.tail
    refine ⟨hk.left.left.head, fun env n hd => ?_⟩
    rw [Expr.lower]
    exact ht.operands hxs hd _ _ _ _ _ _ _
  | _, _, .paren _ hx _ => fun hk => expr_sited hx hk.left.tail
  | _, _, .list _ has _ => fun hk => by
    have hxs := args_sited has hk.left.tail
    refine ⟨hk.left.head, fun env n hd => ?_⟩
    rw [Expr.lower]
    exact Code.wellNoted_list.2 (wellNoted_noted (wellNoted_exprItems hxs hd n) _)
  | _, _, .template hb => fun hk => by
    have hb := template_sited hb hk
    refine ⟨hb.first, fun env n hd => ?_⟩
    rw [Expr.lower]
    exact wellNoted_templateCode _ (hb.noted hd n)

theorem args_sited : ∀ {ls : List Lexeme} {xs : List Expr}, IsArgs d ls xs → Known ls →
    ∀ x ∈ xs, x.Sited
  | _, _, .none => fun _ _ hx => absurd hx List.not_mem_nil
  | _, _, .some h => fun hk => exprs_sited h hk

theorem exprs_sited : ∀ {ls : List Lexeme} {xs : List Expr}, IsExprs d ls xs → Known ls →
    ∀ x ∈ xs, x.Sited
  | _, _, .one hx => fun hk => List.forall_mem_singleton.2 (expr_sited hx hk)
  | _, _, .more hx _ hxs => fun hk =>
    List.forall_mem_cons.2 ⟨expr_sited hx hk.left, exprs_sited hxs hk.right.tail⟩

theorem template_sited : ∀ {ls : List Lexeme} {b : Block}, IsTemplate d ls b → Known ls → b.Sited
  | _, _, .mk _ h _ => fun hk => .sited hk.left.head (templateBody_sited h hk.left.tail)

theorem templateBody_sited : ∀ {ls : List Lexeme} {sts : List Stmt}, IsTemplateBody d ls sts →
    Known ls → ∀ st ∈ sts, st.Sited
  | _, _, .nil => fun _ _ hst => absurd hst List.not_mem_nil
  | _, _, .text _ h => fun hk => List.forall_mem_cons.2
    ⟨⟨hk.head, fun _ _ _ => by simp [Stmt.lower, contextCode]⟩, templateBody_sited h hk.tail⟩
  | _, _, .island _ hi _ _ h => fun hk => List.forall_mem_append.2
    ⟨island_sited hi hk.left.tail, templateBody_sited h hk.right.tail⟩

theorem island_sited : ∀ {ls : List Lexeme} {sts : List Stmt}, IsIsland d ls sts → Known ls →
    ∀ st ∈ sts, st.Sited
  | _, _, .nil => fun _ _ hst => absurd hst List.not_mem_nil
  | _, _, .output hx _ h => fun hk => by
    have hx := expr_sited hx hk.left
    refine List.forall_mem_cons.2 ⟨⟨hx.start, fun env n hd => ?_⟩, island_sited h hk.right⟩
    rw [Stmt.lower]
    exact wellNoted_sequenceCode (List.forall_mem_singleton.2 (wellNoted_outputCode (hx.noted hd n)))
  | _, _, .expr hx _ h => fun hk => by
    have hx := expr_sited hx hk.left
    exact List.forall_mem_cons.2 ⟨⟨hx.start, hx.lower⟩, island_sited h hk.right.tail⟩
  | _, _, .stmt _ hst h => fun hk =>
    List.forall_mem_cons.2 ⟨stmt_sited hst hk.left, island_sited h hk.right⟩
  | _, _, .last _ _ hst => fun hk => List.forall_mem_singleton.2 (stmt_sited hst hk)

theorem block_sited : ∀ {ls : List Lexeme} {b : Block}, IsBlock d ls b → Known ls → b.Sited
  | _, _, .braces _ h _ => fun hk => .sited hk.left.head (stmts_sited h hk.left.tail)
  | _, _, .template h => fun hk => template_sited h hk

theorem stmts_sited : ∀ {ls : List Lexeme} {sts : List Stmt}, IsStmts d ls sts → Known ls →
    ∀ st ∈ sts, st.Sited
  | _, _, .nil => fun _ _ hst => absurd hst List.not_mem_nil
  | _, _, .cons hst h => fun hk =>
    List.forall_mem_cons.2 ⟨stmt_sited hst hk.left, stmts_sited h hk.right⟩

theorem stmt_sited : ∀ {last : Bool} {ls : List Lexeme} {st : Stmt}, IsStmt d last ls st → Known ls →
    st.Sited
  | _, _, _, .define _ hvs _ => fun hk => by
    have hvs := varDefs_sited hvs hk.left.tail
    refine ⟨hk.left.head, fun env n hd => ?_⟩
    rw [Stmt.lower]
    exact wellNoted_sequenceCode (wellNoted_noted (wellNoted_varDefItems hvs hd n) _)
  | _, _, _, .output _ hxs _ => fun hk => by
    have hxs := exprs_sited hxs hk.left.tail
    refine ⟨hk.left.head, fun env n hd => ?_⟩
    rw [Stmt.lower]
    refine wellNoted_sequenceCode fun c hc => ?_
    obtain ⟨i, hi, rfl⟩ := List.mem_map.1 hc
    exact wellNoted_outputCode ((wellNoted_exprItems hxs hd n i hi).noteAt _ _)
  | _, _, _, .ret _ _ => fun hk =>
    ⟨hk.head, fun _ _ _ => wellNoted_return (Code.wellNoted_constant _)⟩
  | _, _, _, .retValue _ hx _ => fun hk => by
    have hx := expr_sited hx hk.left.tail
    refine ⟨hk.left.head, fun env n hd => ?_⟩
    rw [Stmt.lower]
    exact wellNoted_return (hx.noted hd n)
  | _, _, _, .cond h => fun hk => conditional_sited h hk
  | _, _, _, .loop _ _ hx _ hb => fun hk => by
    have hx := expr_sited hx hk.left.tail.tail
    have hb := block_sited hb hk.right.tail
    refine ⟨hk.left.head, fun env n hd => ?_⟩
    have hd' : (env.inLoop n.loop).debug = true := hd
    rw [Stmt.lower]
    exact wellNoted_whileCode _ (hx.noted hd' _) (hb.noted hd' _)
  | _, _, _, .each _ _ _ _ hx hf _ hb hw => fun hk => by
    have hx := expr_sited hx hk.left.left.left.tail.tail.tail.tail
    have hf := filter_sited hf hk.left.left.right
    have hb := block_sited hb hk.left.right.tail
    have hw := between_sited hw hk.right
    refine ⟨hk.left.left.left.head, fun env n hd => ?_⟩
    have hd' : (env.inLoop n.loop).debug = true := hd
    rw [Stmt.lower]
    refine wellNoted_forCode _ _ _ (wellNoted_filterCode (hx.noted hd' _)
      (wellNoted_optWhere hf hd' _ _)) ?_ (wellNoted_getD (wellNoted_optBlock hw ?_ _)
        Code.wellNoted_empty)
    · exact hb.body (show ((env.inLoop n.loop).within _).debug = true from hd') _
    · exact hd'
  | _, _, _, .switch _ _ hx _ _ harms _ => fun hk => by
    have hx := expr_sited hx hk.left.left.tail.tail
    have harms := arms_sited harms hk.left.right.tail.tail
    refine ⟨hk.left.left.head, fun env n hd => ?_⟩
    rw [Stmt.lower]
    refine wellNoted_switchCode _ (hx.noted hd _) (fun c hc => ?_)
      (wellNoted_optBlock harms.2 hd _) _
    obtain ⟨i, hi, rfl⟩ := List.mem_map.1 hc
    exact wellNoted_caseItems harms.1 hd _ i hi
  | _, _, _, .leave _ _ | _, _, _, .again _ _ => fun hk => ⟨hk.head, fun _ _ _ => wellNoted_jump _⟩
  | _, _, _, .block hb => fun hk => by
    have hb := block_sited hb hk
    exact ⟨hb.first, fun _ n hd => hb.lower hd n⟩
  | _, _, _, .expr _ hx _ => fun hk => by
    have hx := expr_sited hx hk.left
    exact ⟨hx.start, hx.lower⟩

theorem varDefs_sited : ∀ {ls : List Lexeme} {vs : List VarDef}, IsVarDefs d ls vs → Known ls →
    ∀ v ∈ vs, v.Sited
  | _, _, .one hv => fun hk => List.forall_mem_singleton.2 (varDef_sited hv hk)
  | _, _, .more hv _ hvs => fun hk =>
    List.forall_mem_cons.2 ⟨varDef_sited hv hk.left, varDefs_sited hvs hk.right.tail⟩

theorem varDef_sited : ∀ {ls : List Lexeme} {v : VarDef}, IsVarDef d ls v → Known ls → v.Sited
  | _, _, .bare _ => fun _ _ _ _ _ hi => absurd hi List.not_mem_nil
  | _, _, .init _ _ hx => fun hk _ n hd => List.forall_mem_singleton.2
    (wellNoted_store _ _ ((expr_sited hx hk.tail.tail).noted hd n) _)

theorem conditional_sited : ∀ {ls : List Lexeme} {st : Stmt}, IsConditional d ls st → Known ls →
    st.Sited
  | _, _, .one _ _ hx _ hb => fun hk => by
    have hx := expr_sited hx hk.left.tail.tail
    have hb := block_sited hb hk.right.tail
    exact .conditional hk.left.head hx hb nofun
  | _, _, .two _ _ hx _ hb _ hc => fun hk => by
    have hx := expr_sited hx hk.left.left.tail.tail
    have hb := block_sited hb hk.left.right.tail
    have hc := block_sited hc hk.right.tail
    exact .conditional hk.left.left.head hx hb fun _ h => Option.some.inj h ▸ hc
  | _, _, .chain _ _ hx _ hb _ hst => fun hk => by
    have hx := expr_sited hx hk.left.left.tail.tail
    have hb := block_sited hb hk.left.right.tail
    have hst := conditional_sited hst hk.right.tail
    exact .conditional hk.left.left.head hx hb fun _ h => Option.some.inj h ▸
      .sited hk.right.head (List.forall_mem_singleton.2 hst)

theorem filter_sited : ∀ {ls : List Lexeme} {w : Option WhereClause}, IsFilter d ls w → Known ls →
    ∀ x, w = some x → x.Sited
  | _, _, .none => fun _ => nofun
  | _, _, .some _ hx => fun hk _ h => Option.some.inj h ▸ .sited (expr_sited hx hk.tail) _

theorem between_sited : ∀ {ls : List Lexeme} {b : Option Block}, IsBetween d ls b → Known ls →
    ∀ c, b = some c → c.Sited
  | _, _, .none => fun _ => nofun
  | _, _, .some _ hb => fun hk _ h => Option.some.inj h ▸ block_sited hb hk.tail

theorem arms_sited : ∀ {r : Lexeme} {ls : List Lexeme} {cs : List SwitchCase} {dflt : Option Block},
    IsArms d r ls cs dflt → Known ls → (∀ c ∈ cs, c.Sited) ∧ ∀ b, dflt = some b → b.Sited
  | _, _, _, _, .nil => fun _ => ⟨fun _ hc => absurd hc List.not_mem_nil, nofun⟩
  | _, _, _, _, .dflt _ _ hsts => fun hk => ⟨fun _ hc => absurd hc List.not_mem_nil, fun _ h =>
    Option.some.inj h ▸ .sited hk.tail.head (stmts_sited hsts hk.tail.tail)⟩
  | _, _, _, _, .case _ hxs _ hsts harms => fun hk => by
    have hxs := exprs_sited hxs hk.left.left.tail
    have hsts := stmts_sited hsts hk.left.right.tail
    have harms := arms_sited harms hk.right
    exact ⟨List.forall_mem_cons.2 ⟨.sited hxs (.sited hk.left.right.head hsts) _, harms.1⟩, harms.2⟩

end

end

/-! ### Modules -/

/-- A function that starts somewhere and has a sited body. -/
structure FunctionDecl.Sited (f : FunctionDecl) : Prop where
  pos : f.pos.isValid = true
  body : f.body.Sited

/-- A definition of global variables that starts somewhere and has sited initial values. -/
structure GlobalDef.Sited (g : GlobalDef) : Prop where
  pos : g.pos.isValid = true
  vars : ∀ v ∈ g.vars, v.Sited

/-- A module whose constructs are sited. -/
structure Module.Sited (m : Module) : Prop where
  functions : ∀ f ∈ m.functions, f.Sited
  defs : ∀ g ∈ m.defs, g.Sited
  stmts : ∀ st ∈ m.stmts, st.Sited

theorem IsModule.sited {d : Dialect} {file : Bytes} {e : Position} {ls : List Lexeme} {m : Module}
    (h : IsModule d file e ls m) (hk : Known ls) : m.Sited := by
  induction h with
  | nil => exact ⟨nofun, nofun, nofun⟩
  | load _ _ ih => exact ⟨(ih hk.right).functions, (ih hk.right).defs, (ih hk.right).stmts⟩
  | function hf _ ih =>
    have rest := ih hk.right
    refine ⟨List.forall_mem_cons.2 ⟨?_, rest.functions⟩, rest.defs, rest.stmts⟩
    cases hf with
    | mk _ _ _ _ _ hb => exact ⟨hk.left.left.head, block_sited hb hk.left.right.tail⟩
  | define _ hvs _ _ ih =>
    have rest := ih hk.right.tail
    exact ⟨rest.functions, List.forall_mem_cons.2
      ⟨⟨hk.left.head, varDefs_sited hvs hk.left.tail⟩, rest.defs⟩, rest.stmts⟩
  | stmt _ hst _ ih =>
    have rest := ih hk.right
    exact ⟨rest.functions, rest.defs, List.forall_mem_cons.2 ⟨stmt_sited hst hk.left, rest.stmts⟩⟩

/-- All constructs of a text that is read are sited. -/
theorem sited_of_parseModule {file src : Bytes} {m : Module} (h : parseModule file src = .ok m) :
    m.Sited := by
  obtain ⟨ls, e, hscan, -, hm⟩ := isProgram_of_parseModule h
  refine hm.sited fun l hl => ?_
  have placed := (scan_placed file src).lexemes l (by rw [hscan]; exact List.mem_append_left _ hl)
  simp only [Position.isValid, placed.file, Option.isSome_some, Bool.true_and, decide_eq_true_eq]
  exact placed.line

section

variable {env : LowerEnv}

/-- The body of a function is noted, and what comes after it cannot fail. -/
theorem FunctionDecl.Sited.lambda {f : FunctionDecl} (h : f.Sited) (hd : env.debug = true)
    (n : Numbering) : (f.lambda env n).body.Covered ∧ (f.lambda env n).body.WellNoted := by
  let inner := env.inLambda n f.name (f.params.map (·.name)) (some ⟨n.targets, "return"⟩)
  have hinner : inner.debug = true := hd
  constructor
  · refine .block (List.forall_mem_cons.2 ⟨covered_noteAt hd h.body.first _, ?_⟩)
    exact List.forall_mem_singleton.2 (.label _ _)
  · refine Code.wellNoted_block _ |>.2 (List.forall_mem_cons.2 ⟨?_, by simp⟩)
    have noted (k : Numbering) := h.body.noted hinner k
    exact noted _

theorem wellNoted_functionItems {fs : List FunctionDecl} (h : ∀ f ∈ fs, f.Sited)
    (hd : env.debug = true) (n : Numbering) :
    ∀ i ∈ functionItems env fs n, i.pos.isValid = true ∧ i.code.WellNoted := by
  induction fs generalizing n with
  | nil => exact fun _ hi => absurd hi List.not_mem_nil
  | cons f fs ih =>
    have hf := h f List.mem_cons_self
    have lambda : (f.lambda env n).code.WellNoted := by
      exact Code.wellNoted_lambda _ _ _ _ |>.2 (hf.lambda hd n)
    refine List.forall_mem_cons.2 ⟨⟨hf.pos, Code.wellNoted_dynamic _ |>.2 ?_⟩,
      ih (fun g hg => h g (List.mem_cons_of_mem _ hg)) _⟩
    exact List.forall_mem_cons.2 ⟨wellNoted_globals, List.forall_mem_singleton.2 lambda⟩

theorem wellNoted_defItems {ds : List GlobalDef} (h : ∀ g ∈ ds, g.Sited) (hd : env.debug = true)
    (n : Numbering) : ∀ i ∈ defItems env ds n, i.pos.isValid = true ∧ i.code.WellNoted := by
  induction ds generalizing n with
  | nil => exact fun _ hi => absurd hi List.not_mem_nil
  | cons g ds ih =>
    have hg := h g List.mem_cons_self
    refine List.forall_mem_cons.2 ⟨⟨hg.pos, wellNoted_sequenceCode ?_⟩,
      ih (fun g hg => h g (List.mem_cons_of_mem _ hg)) _⟩
    exact wellNoted_noted (wellNoted_varDefItems hg.vars hd n) _

theorem first_stmtItems {sts : List Stmt} (h : ∀ st ∈ sts, st.Sited) (n : Numbering) :
    ∀ i ∈ stmtItems env sts n, i.pos.isValid = true := by
  induction sts generalizing n with
  | nil => exact fun _ hi => absurd hi List.not_mem_nil
  | cons st sts ih =>
    exact List.forall_mem_cons.2 ⟨(h st List.mem_cons_self).first,
      ih (fun y hy => h y (List.mem_cons_of_mem _ hy)) _⟩

/-- The code of a module is covered, and annotated throughout. -/
theorem Module.Sited.lower {m : Module} (h : m.Sited) (hd : env.debug = true) :
    (m.lower env).body.Covered ∧ (m.lower env).body.WellNoted := by
  have hd' : env.atTop.debug = true := hd
  have items : ∀ i ∈ m.items env.atTop, i.pos.isValid = true ∧ i.code.WellNoted := by
    refine List.forall_mem_append.2 ⟨List.forall_mem_append.2
      ⟨wellNoted_functionItems h.functions hd' _, wellNoted_defItems h.defs hd' _⟩, fun i hi => ?_⟩
    exact ⟨first_stmtItems h.stmts _ i hi, wellNoted_stmtItems h.stmts hd' _ i hi⟩
  constructor
  · refine .block (List.forall_mem_append.2 ⟨fun c hc => ?_, List.forall_mem_singleton.2 .empty⟩)
    obtain ⟨i, hi, rfl⟩ := List.mem_map.1 hc
    exact covered_noteAt hd (items i hi).1 _
  · refine Code.wellNoted_block _ |>.2 (List.forall_mem_append.2
      ⟨wellNoted_noted (fun i hi => (items i hi).2) _, by simp⟩)

end

/-- The body of each lambda of code that was compiled with debug information is covered by notes,
and all its notes tell places that are known. -/
theorem covered_of_compile {file src : Bytes} {opts : Options} {stamp : Nat} {f : Lambda}
    (h : compile file src opts stamp = .ok f) (hd : opts.debugInfo = true) :
    ∀ g ∈ f.lambdas, g.body.Covered ∧ g.body.WellNoted := by
  obtain ⟨m, hm, -, rfl⟩ := compile_ok h
  have hd' : (m.compileEnv opts stamp).debug = true := hd
  obtain ⟨hcovered, hnoted⟩ := (sited_of_parseModule hm).lower hd'
  intro g hg
  rw [Lambda.lambdas_eq] at hg
  rcases List.mem_cons.1 hg with rfl | hg
  · exact ⟨hcovered, hnoted⟩
  · have hnode : g.code.Annotated := hnoted _ (Lambda.code_mem_nodes hg)
    exact ⟨hnode, fun d hd => hnoted d (Code.nodes_of_mem_lambdas hg hd)⟩

end Stencil
