import Stencil.Proofs.Machine.Notes
import Stencil.Proofs.Typing.Lowering

/-!
# Lowering without notes

A module lowered without notes of places has the code it has with them, less the notes. Lowering
looks at code it has made in two places, where it writes a value and where it assigns to one, and
both look through the notes.

The notes of compiled code can be left out: none stands in front of an arm of a switch, or where
code is missing.
-/

namespace Stencil

/-! ### Pieces of code -/

section

variable {keep : Bool}

@[simp]
theorem listWithNotes_nil : listWithNotes keep [] = [] := rfl

@[simp]
theorem listWithNotes_cons (c : Code) (cs : List Code) :
    listWithNotes keep (c :: cs) = c.withNotes keep :: listWithNotes keep cs := rfl

@[simp]
theorem listWithNotes_append (cs ds : List Code) :
    listWithNotes keep (cs ++ ds) = listWithNotes keep cs ++ listWithNotes keep ds := by
  simp only [listWithNotes_eq_map, List.map_append]

theorem withNotes_sequenceCode (cs : List Code) :
    (sequenceCode cs).withNotes keep = sequenceCode (listWithNotes keep cs) := by
  match cs with
  | [] | [_] | _ :: _ :: _ => rfl

theorem withNotes_outputCode (c : Code) :
    (outputCode c).withNotes keep = outputCode (c.withNotes keep) := by
  unfold outputCode
  rw [c.unwrap_withNotes keep]
  cases h : c.unwrap with
  | constant v =>
    simp only [Code.withNotes]
    split <;> rfl
  | debug pos x => exact absurd h (c.unwrap_ne_debug pos x)
  | _ => rfl

theorem withNotes_unaryCode (p : Position) (op : UnaryOp) (c : Code) (site : Nat) :
    (unaryCode p op c site).withNotes keep = unaryCode p op (c.withNotes keep) site := by
  cases op <;> rfl

theorem withNotes_binaryCode (p : Position) (op : BinaryOp) (c d : Code) (site : Nat) :
    (binaryCode p op c d site).withNotes keep =
      binaryCode p op (c.withNotes keep) (d.withNotes keep) site := by
  cases op <;> rfl

theorem withNotes_assignCode (p : Position) (c d : Code) (site : Nat) :
    (assignCode p c d site).withNotes keep =
      assignCode p (c.withNotes keep) (d.withNotes keep) site := by
  unfold assignCode
  rw [c.unwrap_withNotes keep]
  cases h : c.unwrap with
  | dynamic read args =>
    simp only [Code.withNotes]
    split <;> simp [Code.withNotes]
  | debug pos x => exact absurd h (c.unwrap_ne_debug pos x)
  | _ => rfl

theorem withNotes_forCode (t : LoopTargets) (vars : List Variable) (enum : Variable)
    (source body between : Code) :
    (forCode t vars enum source body between).withNotes keep =
      forCode t vars enum (source.withNotes keep) (body.withNotes keep)
        (between.withNotes keep) := by
  simp [forCode, Code.withNotes, listWithNotes_eq_map, Function.comp_def]

theorem withNotes_filterCode (source : Code) (pred : Option Code) :
    (filterCode source pred).withNotes keep =
      filterCode (source.withNotes keep) (pred.map (Code.withNotes keep)) := by
  cases pred <;> rfl

theorem withNotes_switchCode (p : Position) (c : Code) (arms : List Code) (dflt : Option Code)
    (site : Nat) :
    (switchCode p c arms dflt site).withNotes keep =
      switchCode p (c.withNotes keep) (listWithNotes keep arms)
        (dflt.map (Code.withNotes keep)) site := by
  unfold switchCode
  cases arms <;> cases dflt <;> rfl

theorem withNotes_getD (o : Option Code) (d : Code) :
    (o.getD d).withNotes keep = (o.map (Code.withNotes keep)).getD (d.withNotes keep) := by
  cases o <;> rfl

theorem withNotes_noteAt (debug : Bool) (p : Position) (c : Code) :
    (noteAt debug p c).withNotes false = c.withNotes false := by
  unfold noteAt
  split
  · rfl
  · split <;> rfl

end

/-! ### Surroundings and items -/

/-- The same surroundings, where places are not noted. -/
def LowerEnv.unnoted (env : LowerEnv) : LowerEnv := { env with debug := false }

/-- An item whose code has no notes. -/
def Item.unnoted (i : Item) : Item := ⟨i.pos, i.code.withNotes false⟩

section

variable (env : LowerEnv)

@[simp]
theorem LowerEnv.within_unnoted (vars : List Variable) :
    env.unnoted.within vars = (env.within vars).unnoted := rfl

@[simp]
theorem LowerEnv.inLoop_unnoted (t : LoopTargets) :
    env.unnoted.inLoop t = (env.inLoop t).unnoted := rfl

@[simp]
theorem LowerEnv.inLambda_unnoted (n : Numbering) (name : Bytes) (params : List Bytes)
    (ret : Option Target) :
    env.unnoted.inLambda n name params ret = (env.inLambda n name params ret).unnoted := rfl

@[simp]
theorem noteAt_unnoted (p : Position) (c : Code) : noteAt env.unnoted.debug p c = c := rfl

theorem withNotes_load (p : Position) (name : Bytes) (site : Nat) :
    (env.load p name site).withNotes false = env.unnoted.load p name site := by
  have h : env.unnoted.meaning? name = env.meaning? name := rfl
  unfold LowerEnv.load
  rw [h]
  split <;> rfl

theorem withNotes_store (p : Position) (name : Bytes) (c : Code) (site : Nat) :
    (env.store p name c site).withNotes false =
      env.unnoted.store p name (c.withNotes false) site := by
  have h : env.unnoted.meaning? name = env.meaning? name := rfl
  unfold LowerEnv.store
  rw [h]
  split <;> rfl

theorem withNotes_return (c : Code) :
    (env.return_ c).withNotes false = env.unnoted.return_ (c.withNotes false) := by
  have h : env.unnoted.ret = env.ret := rfl
  unfold LowerEnv.return_
  rw [h]
  split <;> rfl

theorem withNotes_jump (target : LoopTargets → Target) :
    (env.jump target).withNotes false = env.unnoted.jump target := by
  have h : env.unnoted.loops = env.loops := rfl
  unfold LowerEnv.jump
  rw [h]
  split <;> rfl

/-- The code of items lowered without notes is the noted code of the items, less the notes. -/
theorem listWithNotes_noted (debug : Bool) (is : List Item) :
    listWithNotes false (is.map (·.noted debug)) =
      (is.map Item.unnoted).map (·.noted env.unnoted.debug) := by
  simp only [listWithNotes_eq_map, List.map_map]
  exact List.map_congr_left fun i _ => withNotes_noteAt debug i.pos i.code

theorem listWithNotes_output (debug : Bool) (is : List Item) :
    listWithNotes false (is.map fun i => outputCode (i.noted debug)) =
      (is.map Item.unnoted).map fun i => outputCode (i.noted env.unnoted.debug) := by
  simp only [listWithNotes_eq_map, List.map_map]
  refine List.map_congr_left fun i _ => ?_
  rw [Function.comp, withNotes_outputCode, Item.noted, withNotes_noteAt]
  rfl

end

/-! ### Constructs -/

mutual

theorem expr_unnoted (env : LowerEnv) : (x : Expr) → ∀ n,
    x.lower env.unnoted n = (x.lower env n).withNotes false
  | .literal .., _ | .null _, _ => rfl
  | .name p name, n => (withNotes_load env p name n.sites).symm
  | .unary p op x, n => by
    rw [Expr.lower, Expr.lower, withNotes_unaryCode, withNotes_noteAt, noteAt_unnoted,
      expr_unnoted env x]
  | .binary x p op y, n => by
    rw [Expr.lower, Expr.lower, withNotes_binaryCode, withNotes_noteAt, withNotes_noteAt,
      noteAt_unnoted, noteAt_unnoted, expr_unnoted env x, expr_unnoted env y]
  | .assign target p y, n => by
    have hx := expr_unnoted env target n
    have hy := expr_unnoted env y
    rw [Expr.lower.eq_def, Expr.lower.eq_def]
    dsimp only
    split
    · rw [withNotes_store, withNotes_noteAt, noteAt_unnoted, hy]
    · rw [withNotes_assignCode, withNotes_noteAt, noteAt_unnoted, hx, hy]
  | .index x l args _, n => by
    rw [Expr.lower, Expr.lower, dynamicCode, dynamicCode, Code.withNotes, listWithNotes_cons,
      withNotes_noteAt, noteAt_unnoted, expr_unnoted env x, exprs_unnoted env args,
      listWithNotes_noted env]
  | .member x _ p name, n => by
    rw [Expr.lower, Expr.lower, memberCode, memberCode, Code.withNotes, listWithNotes_cons,
      withNotes_noteAt, noteAt_unnoted, expr_unnoted env x, listWithNotes_nil]
  | .method x _ _ name l args _, n => by
    rw [Expr.lower, Expr.lower, dynamicCode, dynamicCode, Code.withNotes, listWithNotes_cons,
      withNotes_noteAt, noteAt_unnoted, expr_unnoted env x, exprs_unnoted env args,
      listWithNotes_noted env]
  | .call p name l args _, n => by
    rw [Expr.lower, Expr.lower, dynamicCode, dynamicCode, Code.withNotes, listWithNotes_cons,
      exprs_unnoted env args, listWithNotes_noted env]
    rfl
  | .new p type _ args _, n => by
    rw [Expr.lower, Expr.lower, dynamicCode, dynamicCode, Code.withNotes, listWithNotes_cons,
      withNotes_noteAt, noteAt_unnoted, expr_unnoted env type, exprs_unnoted env args,
      listWithNotes_noted env]
  | .list _ items _, n => by
    rw [Expr.lower, Expr.lower, Code.withNotes, exprs_unnoted env items, listWithNotes_noted env]
  | .template b, n => by
    have h := withNotes_noteAt env.debug b.span.first (b.lower env n)
    rw [Expr.lower, Expr.lower, noteAt_unnoted, block_unnoted env b, ← h]
    rfl

theorem exprs_unnoted (env : LowerEnv) : (xs : List Expr) → ∀ n,
    exprItems env.unnoted xs n = (exprItems env xs n).map Item.unnoted
  | [], _ => rfl
  | x :: xs, n => by
    rw [exprItems, exprItems, List.map_cons, Item.unnoted, expr_unnoted env x,
      exprs_unnoted env xs]

theorem block_unnoted (env : LowerEnv) : (b : Block) → ∀ n,
    b.lower env.unnoted n = (b.lower env n).withNotes false
  | .mk l stmts r t, n => by
    rw [Block.lower, Block.lower, Code.withNotes, LowerEnv.within_unnoted,
      stmts_unnoted (env.within _) stmts, listWithNotes_noted env]
    rfl

theorem body_unnoted (env : LowerEnv) : (b : Block) → ∀ n,
    b.lowerBody env.unnoted n = (b.lowerBody env n).withNotes false
  | .mk l stmts r t, n => by
    rw [Block.lowerBody, Block.lowerBody, Code.withNotes, stmts_unnoted env stmts,
      listWithNotes_noted env]

theorem stmts_unnoted (env : LowerEnv) : (sts : List Stmt) → ∀ n,
    stmtItems env.unnoted sts n = (stmtItems env sts n).map Item.unnoted
  | [], _ => rfl
  | st :: sts, n => by
    rw [stmtItems, stmtItems, List.map_cons, Item.unnoted, stmt_unnoted env st,
      stmts_unnoted env sts]

theorem varDefs_unnoted (env : LowerEnv) : (vs : List VarDef) → ∀ n,
    varDefItems env.unnoted vs n = (varDefItems env vs n).map Item.unnoted
  | [], _ => rfl
  | .mk p name none :: vs, n => varDefs_unnoted env vs _
  | .mk p name (some x) :: vs, n => by
    rw [varDefItems, varDefItems, List.map_append, varDefs_unnoted env vs, VarDef.items,
      VarDef.items, noteAt_unnoted, expr_unnoted env x, List.map_singleton, Item.unnoted,
      withNotes_store, withNotes_noteAt]

theorem cases_unnoted (env : LowerEnv) : (cs : List SwitchCase) → ∀ n,
    (caseItems env.unnoted cs n).map (·.code) =
      listWithNotes false ((caseItems env cs n).map (·.code))
  | [], _ => rfl
  | .mk p values body :: cs, n => by
    rw [caseItems, caseItems, List.map_cons, List.map_cons, listWithNotes_cons,
      cases_unnoted env cs, SwitchCase.lower, SwitchCase.lower, Code.withNotes, withNotes_noteAt,
      noteAt_unnoted, exprs_unnoted env values, block_unnoted env body, listWithNotes_noted env]

theorem optBlock_unnoted (env : LowerEnv) : (b : Option Block) → ∀ n,
    optBlockCode env.unnoted b n = (optBlockCode env b n).map (Code.withNotes false)
  | none, _ => rfl
  | some b, n => by
    rw [optBlockCode, optBlockCode, noteAt_unnoted, Option.map_some, withNotes_noteAt,
      block_unnoted env b]

theorem optWhere_unnoted (env : LowerEnv) (var : Bytes) : (w : Option WhereClause) → ∀ n,
    optWhereCode env.unnoted var w n = (optWhereCode env var w n).map (Code.withNotes false)
  | none, _ => rfl
  | some (.mk p x), n => by
    rw [optWhereCode, optWhereCode, noteAt_unnoted, Option.map_some, withNotes_noteAt,
      WhereClause.lower, WhereClause.lower, Code.withNotes, withNotes_noteAt, noteAt_unnoted,
      LowerEnv.inLambda_unnoted, expr_unnoted (env.inLambda ..) x]

theorem stmt_unnoted (env : LowerEnv) : (st : Stmt) → ∀ n,
    st.lower env.unnoted n = (st.lower env n).withNotes false
  | .block b, n => block_unnoted env b n
  | .text .., _ => rfl
  | .define _ vars, n => by
    rw [Stmt.lower, Stmt.lower, withNotes_sequenceCode, varDefs_unnoted env vars,
      listWithNotes_noted env]
  | .output _ xs, n => by
    rw [Stmt.lower, Stmt.lower, withNotes_sequenceCode, exprs_unnoted env xs,
      listWithNotes_output env]
  | .expr x, n => expr_unnoted env x n
  | .ret _ none, _ => (withNotes_return env (.constant .null)).symm
  | .ret _ (some x), n => by
    rw [Stmt.lower, Stmt.lower, withNotes_return, withNotes_noteAt, noteAt_unnoted,
      expr_unnoted env x]
  | .cond _ test yes no, n => by
    rw [Stmt.lower, Stmt.lower, Code.withNotes, Code.withNotes, withNotes_noteAt, withNotes_noteAt,
      noteAt_unnoted, noteAt_unnoted, expr_unnoted env test, block_unnoted env yes,
      optBlock_unnoted env no, withNotes_getD]
    rfl
  | .loop _ test body, n => by
    have ht := withNotes_noteAt env.debug test.start (test.lower (env.inLoop n.loop) n.nextLoop)
    have hb := withNotes_noteAt env.debug body.span.first
      (body.lower (env.inLoop n.loop) (test.after n.nextLoop))
    rw [Stmt.lower, Stmt.lower]
    rw [LowerEnv.inLoop_unnoted, noteAt_unnoted, noteAt_unnoted, expr_unnoted (env.inLoop _) test,
      block_unnoted (env.inLoop _) body, ← ht, ← hb]
    rfl
  | .each _ _ var x filter body between, n => by
    rw [Stmt.lower, Stmt.lower]
    rw [withNotes_forCode, withNotes_filterCode, withNotes_noteAt, withNotes_noteAt]
    simp only [LowerEnv.inLoop_unnoted, LowerEnv.within_unnoted, noteAt_unnoted,
      expr_unnoted (env.inLoop _) x, optWhere_unnoted (env.inLoop _) var filter,
      body_unnoted ((env.inLoop _).within _) body,
      optBlock_unnoted ((env.inLoop _).within _) between, withNotes_getD]
    rfl
  | .leave _, _ => (withNotes_jump env (·.brk)).symm
  | .again _, _ => (withNotes_jump env (·.cont)).symm
  | .switch p x cases dflt _, n => by
    rw [Stmt.lower, Stmt.lower]
    rw [withNotes_switchCode, withNotes_noteAt, noteAt_unnoted, expr_unnoted env x,
      cases_unnoted env cases, optBlock_unnoted env dflt]

end

/-! ### Modules -/

theorem functions_unnoted (env : LowerEnv) (fs : List FunctionDecl) (n : Numbering) :
    functionItems env.unnoted fs n = (functionItems env fs n).map Item.unnoted := by
  induction fs generalizing n with
  | nil => rfl
  | cons f fs ih =>
    have hb (env : LowerEnv) (inner : Numbering) := withNotes_noteAt env.debug f.body.span.first
      (f.body.lower env inner)
    rw [functionItems, functionItems, List.map_cons, Item.unnoted, ih, FunctionDecl.lower,
      FunctionDecl.lower, FunctionDecl.lambda, FunctionDecl.lambda]
    dsimp only
    rw [LowerEnv.inLambda_unnoted, noteAt_unnoted, block_unnoted (env.inLambda ..) f.body, ← hb]
    rfl

theorem defs_unnoted (env : LowerEnv) (ds : List GlobalDef) (n : Numbering) :
    defItems env.unnoted ds n = (defItems env ds n).map Item.unnoted := by
  induction ds generalizing n with
  | nil => rfl
  | cons d ds ih =>
    rw [defItems, defItems, List.map_cons, Item.unnoted, ih, withNotes_sequenceCode,
      varDefs_unnoted env d.vars, listWithNotes_noted env]

/-- A module lowered without notes has the code it has with them, less the notes. -/
theorem Module.lower_unnoted (m : Module) (env : LowerEnv) :
    m.lower env.unnoted = (m.lower env).withNotes false := by
  have items : m.items env.atTop.unnoted = (m.items env.atTop).map Item.unnoted := by
    simp only [Module.items, List.map_append, functions_unnoted, defs_unnoted, stmts_unnoted]
  have code : (m.lower env).body.withNotes false =
      .block [] ((m.items env.atTop.unnoted).map (·.noted env.unnoted.debug) ++ [Code.empty]) := by
    rw [items, ← listWithNotes_noted env env.debug]
    exact congrArg (Code.block []) (listWithNotes_append ..)
  rw [Lambda.withNotes, code]
  rfl

/-- Compiled without debug information, a text has the code it has with it, less the notes. A text
that is rejected is rejected with the same problems. -/
theorem compile_unnoted (file src : Bytes) (opts : Options) (stamp : Nat) :
    compile file src { opts with debugInfo := false } stamp =
      (compile file src opts stamp).map (Lambda.withNotes false) := by
  unfold compile
  cases hp : parseModule file src with
  | error e => rfl
  | ok m =>
    have hdef := parseModule_noDefinitions hp
    have hres : Options.resolveEnv { opts with debugInfo := false } = opts.resolveEnv := rfl
    cases hd : m.diagnose opts.resolveEnv with
    | nil =>
      dsimp only
      rw [m.compile_eq_lower hdef hd, m.compile_eq_lower hdef (hres ▸ hd)]
      exact congrArg Except.ok (m.lower_unnoted (m.compileEnv opts stamp))
    | cons d ds =>
      simp only [Module.compile, hres, hd]
      rfl

/-! ### Notes that can be left out -/

section

variable {user : Nat × Nat → Prop} {c : Code}

theorem Code.Typed.isAbsent_unwrap {Γ : Setting} {r : Role} (h : c.Typed user Γ r)
    (hr : r ≠ .part) : c.unwrap.isAbsent = false := by
  induction h with
  | noted _ ih => exact ih (by decide)
  | asValue _ ih => exact ih (by decide)
  | missing | present => exact absurd rfl hr
  | _ => rfl

theorem Code.Typed.unwrap_arm {Γ : Setting} (h : c.Typed user Γ .arm) : c.unwrap = c := by
  cases h
  rfl

theorem Code.Placed.loose (h : c.Placed user) : c.Loose := by
  rcases h with hb | ⟨Γ, r, ht⟩
  · cases hb <;> trivial
  · induction ht with
    | noted hx => exact hx.isAbsent_unwrap (by decide)
    | switch _ hc => exact fun c hm => (hc c hm).unwrap_arm
    | present _ ih | asValue _ ih => exact ih
    | _ => trivial

/-- The notes of compiled code can be left out. -/
theorem Compiled.loose {units : Array (List Lambda)} (h : Compiled units) {unit : Nat} {g : Lambda}
    (hg : g ∈ units.getD unit []) : ∀ d ∈ g.body.nodes, d.Loose := by
  intro d hd
  obtain ⟨user, -, hplaced⟩ := h.placed hg (List.mem_cons_of_mem g.code hd)
  exact hplaced.loose

end

end Stencil
