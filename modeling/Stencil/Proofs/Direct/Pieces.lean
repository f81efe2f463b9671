import Stencil.Proofs.Direct.Lowering
import Stencil.Proofs.Nodes
import Stencil.Program.Run
import Stencil.Host.Basic
import Stencil.Proofs.Machine.Runs
import Stencil.Proofs.Generation

/-!
# Programs run as their modules say

A function value holds the number of a lambda. `Module.pieces` lists the functions of a
module, and those that stand for the conditions of its loops, by these numbers; with it
programs are run without any code.

The lambdas in the code of a well-scoped module, in the order of its nodes, are the pieces
of the module: they have the same numbers, and each of them is called as the function that
it was made from.

So running the code of an accepted module, and running the module directly, change every store
in the same way and end in the same way. Function values are called by their code on one side
and by the pieces of the module on the other; since runs leave the units of code alone, both
sides find the same routines throughout.
-/

namespace Stencil

section

variable [Host]

/-! ### The functions inside a module -/

mutual

/-- The functions inside an expression, by number. -/
def Expr.pieces (env : LowerEnv) : Expr → Numbering → List (Nat × Routine)
  | .literal .., _ | .null _, _ | .name .., _ => []
  | .unary _ _ x, n | .member x _ _ _, n => x.pieces env n
  | .binary x _ _ y, n => x.pieces env n ++ y.pieces env (x.after n)
  | .assign target _ y, n =>
    match target with
    | .name .. => y.pieces env n
    | .member x _ _ _ => x.pieces env n ++ y.pieces env (x.after n).nextSite
    | .index x _ args _ =>
      x.pieces env n ++ exprsPieces env args (x.after n) ++
        y.pieces env (exprsAfter args (x.after n)).nextSite
    | _ => []
  | .index x _ args _, n | .method x _ _ _ _ args _, n | .new _ x _ args _, n =>
    x.pieces env n ++ exprsPieces env args (x.after n)
  | .call _ _ _ args _, n | .list _ args _, n => exprsPieces env args n
  | .template b, n => b.pieces env n

/-- The functions inside several expressions. -/
def exprsPieces (env : LowerEnv) : List Expr → Numbering → List (Nat × Routine)
  | [], _ => []
  | x :: xs, n => x.pieces env n ++ exprsPieces env xs (x.after n)

/-- The functions inside a block. -/
def Block.pieces (env : LowerEnv) : Block → Numbering → List (Nat × Routine)
  | b@(.mk _ stmts _ _), n =>
    stmtsPieces (env.within (env.newSlots n b.names)) stmts (n.declare b.names.length)

/-- The functions inside the body of a loop. -/
def Block.piecesBody (env : LowerEnv) : Block → Numbering → List (Nat × Routine)
  | .mk _ stmts _ _, n => stmtsPieces env stmts n

/-- The functions inside several statements. -/
def stmtsPieces (env : LowerEnv) : List Stmt → Numbering → List (Nat × Routine)
  | [], _ => []
  | st :: sts, n => st.pieces env n ++ stmtsPieces env sts (st.after n)

/-- The functions inside the initial values of variables. -/
def varDefsPieces (env : LowerEnv) : List VarDef → Numbering → List (Nat × Routine)
  | [], _ => []
  | v :: vs, n => v.pieces env n ++ varDefsPieces env vs (v.after n)

/-- The functions inside the initial value of a variable. -/
def VarDef.pieces (env : LowerEnv) : VarDef → Numbering → List (Nat × Routine)
  | .mk _ _ none, _ => []
  | .mk _ _ (some x), n => x.pieces env n

/-- The functions inside the arms of a switch. -/
def casesPieces (env : LowerEnv) : List SwitchCase → Numbering → List (Nat × Routine)
  | [], _ => []
  | c :: cs, n => c.pieces env n ++ casesPieces env cs (c.after n)

/-- The functions inside an arm of a switch. -/
def SwitchCase.pieces (env : LowerEnv) : SwitchCase → Numbering → List (Nat × Routine)
  | .mk _ values body, n => exprsPieces env values n ++ body.pieces env (exprsAfter values n)

/-- The functions inside a block that may be missing. -/
def optBlockPieces (env : LowerEnv) : Option Block → Numbering → List (Nat × Routine)
  | none, _ => []
  | some b, n => b.pieces env n

/-- The condition of a loop and the functions inside it. -/
def WhereClause.pieces (env : LowerEnv) (var : Bytes) :
    WhereClause → Numbering → List (Nat × Routine)
  | w@(.mk _ x), n =>
    (n.lambdas, w.direct env var n) :: x.pieces (env.inLambda n "where" [var] none) (n.enter 1)

/-- The functions inside a condition that may be missing. -/
def optWherePieces (env : LowerEnv) (var : Bytes) :
    Option WhereClause → Numbering → List (Nat × Routine)
  | none, _ => []
  | some w, n => w.pieces env var n

/-- The functions inside a statement. -/
def Stmt.pieces (env : LowerEnv) : Stmt → Numbering → List (Nat × Routine)
  | .block b, n => b.pieces env n
  | .text .., _ | .leave _, _ | .again _, _ | .ret _ none, _ => []
  | .define _ vars, n => varDefsPieces env vars n
  | .output _ xs, n => exprsPieces env xs n
  | .expr x, n | .ret _ (some x), n => x.pieces env n
  | .cond _ test yes no, n =>
    test.pieces env n ++ yes.pieces env (test.after n) ++
      optBlockPieces env no (yes.after (test.after n))
  | .loop _ test body, n =>
    let env := env.inLoop n.loop
    test.pieces env n.nextLoop ++ body.pieces env (test.after n.nextLoop)
  | .each _ _ var x filter body between, n =>
    let vars := env.newSlots n (loopNames var body)
    let env := env.inLoop n.loop
    let n₁ := (n.declare ((loopNames var body).length + 1)).nextLoop
    let n₂ := x.after n₁
    let n₃ := optWhereAfter filter n₂
    x.pieces env n₁ ++ optWherePieces env var filter n₂ ++ body.piecesBody (env.within vars) n₃ ++
      optBlockPieces (env.within vars) between (body.afterBody n₃)
  | .switch _ x cases dflt _, n =>
    x.pieces env n ++ casesPieces env cases (x.after n) ++
      optBlockPieces env dflt (casesAfter cases (x.after n))

end

/-- The functions of a module and those inside them. -/
def functionsPieces (env : LowerEnv) : List FunctionDecl → Numbering → List (Nat × Routine)
  | [], _ => []
  | f :: fs, n =>
    (n.lambdas, f.direct env n) ::
      f.body.pieces (env.inLambda n f.name (f.params.map (·.name)) (some ⟨n.targets, "return"⟩))
        (n.nextTarget.enter f.params.length) ++
      functionsPieces env fs (f.after n)

/-- The functions inside the initial values of the global variables of a module. -/
def defsPieces (env : LowerEnv) : List GlobalDef → Numbering → List (Nat × Routine)
  | [], _ => []
  | d :: ds, n => varDefsPieces env d.vars n ++ defsPieces env ds (varDefsAfter d.vars n)

/-- A module and the functions inside it. -/
def Module.pieces (m : Module) (env : LowerEnv) : List (Nat × Routine) :=
  let inner := { env with owner := 0, ownerName := contextVariable.ownerName }
  let n := functionsAfter m.functions .start
  (0, m.direct env) ::
    (functionsPieces inner m.functions .start ++ defsPieces inner m.defs n ++
      stmtsPieces inner m.stmts (defsAfter m.defs n))

end

/-! ### Programs -/

/-- The modules that units of code were made from, with their surroundings. -/
abbrev Sources := Nat → Option (Module × LowerEnv)

/-- The routines of a unit whose module is known are those of the module. -/
def Sources.linkage [Host] (src : Sources) : Linkage := fun s unit id =>
  match src unit with
  | some (m, env) => (m.pieces env).lookup id
  | none => s.routine? unit id

/-- Run a module as a program in a context. -/
def Module.runDirect [Application] (src : Sources) (fuel : Nat) (m : Module) (env : LowerEnv)
    (p : Program) (ctx : Nat) : Action Unit :=
  p.runAs ctx ((m.direct env).call p.entry (callWith src.linkage fuel) fuel ctx)

section

variable [Host]

/-! ### Functions -/

theorem WhereClause.routine_lower {env : LowerEnv} {var : Bytes} {p : Position} {x : Expr}
    {n : Numbering} (hs : (WhereClause.mk p x).Scoped env var n) :
    Lambda.routine ⟨n.lambdas, "where", slotsFrom n.lambdas "where" 0 [var],
      (x.after (n.enter 1)).slots, noteAt env.debug x.start
        (x.lower (env.inLambda n "where" [var] none) (n.enter 1))⟩ =
      (WhereClause.mk p x).direct env var n := by
  have hr : (env.inLambda n "where" [var] none).RetBelow (n.enter 1) := fun t ht => by cases ht
  have aim : (env.inLambda n "where" [var] none).aim false = fun _ => none := by
    funext e
    cases e <;> rfl
  unfold Lambda.routine WhereClause.direct
  congr 1
  funext call fuel act
  have follows : Follows _ Eq ((noteAt env.debug x.start _).eval call fuel act) _ :=
    (follows_expr x _ hr hs).noted env.debug x.start
  rw [aim] at follows
  exact eq_asValue follows

theorem FunctionDecl.routine_lambda {env : LowerEnv} {f : FunctionDecl} {n : Numbering}
    (hs : f.body.Scoped (env.inLambda n f.name (f.params.map (·.name)) (some ⟨n.targets, "return"⟩))
      false (n.nextTarget.enter f.params.length)) :
    (f.lambda env n).routine = f.direct env n := by
  have hr : (env.inLambda n f.name (f.params.map (·.name))
      (some ⟨n.targets, "return"⟩)).RetBelow (n.nextTarget.enter f.params.length) := by
    intro t ht
    cases ht
    exact Nat.lt_succ_self _
  have aim : ∀ e j, (env.inLambda n f.name (f.params.map (·.name))
      (some ⟨n.targets, "return"⟩)).aim false e = some j →
      ∃ v, e = .ret v ∧ j = ⟨⟨n.targets, "return"⟩, v⟩ := by
    intro e j he
    cases e with
    | ret v =>
      cases he
      exact ⟨v, rfl, rfl⟩
    | _ => cases he
  have params : (slotsFrom n.lambdas f.name 0 (f.params.map (·.name))).length = f.params.length := by
    rw [← List.length_map (f := (·.name)), map_name_slotsFrom, List.length_map]
  unfold Lambda.routine FunctionDecl.direct FunctionDecl.lambda
  dsimp only
  rw [params]
  congr 1
  funext call fuel act
  exact eval_functionBody ((f.body.plain_lower _ _).noted _ _)
    ((follows_block f.body _ hr hs).noted _ _) aim

/-! ### Modules -/

theorem follows_functions {call : Callback} {fuel : Nat} {act : Activation}
    {aim : Exit → Option Jump} (env : LowerEnv) (fs : List FunctionDecl) (n : Numbering) :
    FollowsAll call fuel act aim ((functionItems env fs n).map (·.noted env.debug))
      (functionsExec call fuel act env fs n) := by
  induction fs generalizing n with
  | nil => exact followsAll_nil
  | cons f fs ih =>
    have closure : Follows aim Eq ((f.lambda env n).code.eval call fuel act)
        (newClosure act n.lambdas ⟨f.name, f.params.map (·.name)⟩ : Exec Value) := by
      rw [Lambda.code, Code.eval, FunctionDecl.lambda, map_name_slotsFrom]
      exact follows_lift _
    rw [functionItems, functionsExec]
    refine (ih _).cons ?_ (((closure.writeGlobal f.namePos f.name _).noted _ _).discard)
    exact Code.Plain.noted (by simp [FunctionDecl.lower, setGlobalCode, Code.Plain, Code.unwrap]) _ _

theorem follows_defs {call : Callback} {fuel : Nat} {act : Activation} {env : LowerEnv}
    (ds : List GlobalDef) (n : Numbering) (hr : env.RetBelow n) (hs : defsScoped env ds n) :
    FollowsAll call fuel act (env.aim false) ((defItems env ds n).map (·.noted env.debug))
      (defsExec call fuel act env ds n) := by
  induction ds generalizing n with
  | nil => exact followsAll_nil
  | cons d ds ih =>
    obtain ⟨hd, hds⟩ := hs
    rw [defItems, defsExec]
    refine (ih _ (hr.le (varDefs_le_after n d.vars)) hds).cons ?_
      ((follows_varDefs d.vars n hr hd).sequence.noted _ _)
    exact (plain_sequenceCode (plain_varDefItems env d.vars n)).noted _ _

theorem Module.routine_lower {m : Module} {env : LowerEnv} (hret : env.ret = none)
    (hs : m.Scoped env) : (m.lower env).routine = m.direct env := by
  let inner := { env with owner := 0, ownerName := contextVariable.ownerName }
  have hr : ∀ n, inner.RetBelow n := fun n t ht => by
    rw [hret] at ht
    cases ht
  have aim : inner.aim false = fun _ => none := by
    funext e
    cases e with
    | ret v => simp [LowerEnv.aim, inner, hret]
    | _ => rfl
  obtain ⟨-, hdefs, hstmts⟩ := hs
  unfold Lambda.routine Module.direct Module.lower
  dsimp only
  congr 1
  funext call fuel act
  have defs : FollowsAll call fuel act _ _ _ := follows_defs m.defs _ (hr _) hdefs
  have stmts : FollowsAll call fuel act _ _ _ := follows_stmts m.stmts _ (hr _) hstmts
  rw [aim] at defs stmts
  have all := ((follows_functions inner m.functions .start).append defs).append stmts
  rw [← List.map_append, ← List.map_append, bind_assoc] at all
  exact eval_moduleBody all

/-! ### The lambdas in code -/

/-- The lambda that a node is, as it is called, by number. -/
@[simp]
def Code.routine? : Code → Option (Nat × Routine)
  | .lambda id name params slots body => some (id, Lambda.routine ⟨id, name, params, slots, body⟩)
  | _ => none

/-- The lambdas in code, as they are called, by number. -/
abbrev Code.routines (c : Code) : List (Nat × Routine) := c.gather Code.routine?

/-- The lambdas in several pieces of code. -/
abbrev routinesOf (cs : List Code) : List (Nat × Routine) := gatherAll Code.routine? cs

theorem routinesOf_nil : routinesOf [] = [] := rfl

theorem routinesOf_cons (c : Code) (cs : List Code) :
    routinesOf (c :: cs) = c.routines ++ routinesOf cs := rfl

theorem map_routine_lambdas (c : Code) :
    (c.lambdas.map fun f => (f.id, f.routine)) = c.routines := by
  rw [Code.lambdas, List.map_filterMap, Code.routines, Code.gather]
  congr 1
  funext d
  cases d <;> rfl

theorem Code.routines_block (vars : List Variable) (cs : List Code) :
    (block vars cs).routines = routinesOf cs := by simp

theorem Code.routines_list (cs : List Code) : (list cs).routines = routinesOf cs := by simp

theorem Code.routines_dynamic (site : CallSite) (cs : List Code) :
    (dynamic site cs).routines = routinesOf cs := by simp

theorem Code.routines_case (cs : List Code) (c : Code) :
    (case cs c).routines = routinesOf cs ++ c.routines := by simp

theorem Lambda.routines_code (f : Lambda) :
    f.code.routines = (f.id, f.routine) :: f.body.routines := rfl

/-! ### The forms of code -/

@[simp] theorem routines_noteAt (debug : Bool) (p : Position) (c : Code) :
    (noteAt debug p c).routines = c.routines := by
  unfold noteAt
  split
  · rfl
  · split <;> rfl

@[simp] theorem routines_globalCode (p : Position) (name : Bytes) (site : Nat) :
    (globalCode p name site).routines = [] := by
  simp [globalCode, globalsCode, contextCode]

@[simp] theorem routines_setGlobalCode (p : Position) (name : Bytes) (c : Code) (site : Nat) :
    (setGlobalCode p name c site).routines = c.routines := by
  simp [setGlobalCode, globalsCode, contextCode]

@[simp] theorem routines_contextCode (m : ContextMethod) (cs : List Code) :
    (contextCode m cs).routines = routinesOf cs := by
  simp [contextCode]

theorem routines_load (env : LowerEnv) (p : Position) (name : Bytes) (site : Nat) :
    (env.load p name site).routines = [] := by
  unfold LowerEnv.load
  split <;> rfl

theorem routines_store {env : LowerEnv} {name : Bytes} (h : env.canWrite name = true)
    (p : Position) (c : Code) (site : Nat) : (env.store p name c site).routines = c.routines := by
  unfold LowerEnv.canWrite at h
  unfold LowerEnv.store
  split <;> simp_all

theorem routines_unaryCode (p : Position) (op : UnaryOp) (c : Code) (site : Nat) :
    (unaryCode p op c site).routines = c.routines := by
  cases op <;> simp [unaryCode]

theorem routines_binaryCode (p : Position) (op : BinaryOp) (c d : Code) (site : Nat) :
    (binaryCode p op c d site).routines = c.routines ++ d.routines := by
  cases op <;> simp [binaryCode]

theorem routines_sequenceCode (cs : List Code) : (sequenceCode cs).routines = routinesOf cs := by
  match cs with
  | [] => rfl
  | [c] => simp [sequenceCode]
  | c :: d :: cs => simp [sequenceCode]

theorem routines_outputCode (env : LowerEnv) (debug : Bool) (p : Position) (x : Expr)
    (n : Numbering) : (outputCode (noteAt debug p (x.lower env n))).routines =
      (x.lower env n).routines := by
  rw [outputCode_lower]
  cases h : x.plainText? with
  | none => simp
  | some text =>
    cases x with
    | literal | null => rfl
    | _ => cases h

theorem routinesOf_assigns (vs : List Variable) {c : Code} (h : c.routines = []) :
    routinesOf (vs.map fun v => .assign v c) = [] := by
  induction vs with
  | nil => rfl
  | cons v vs ih => simp [h, ih]

theorem routines_forCode (t : LoopTargets) (vars : List Variable) (enum : Variable)
    (source body between : Code) :
    (forCode t vars enum source body between).routines =
      source.routines ++ body.routines ++ between.routines := by
  have resets : routinesOf ((vars.drop 1).map fun v => Code.assign v (.constant .null)) = [] :=
    routinesOf_assigns _ (by simp)
  have current : routinesOf ((vars.take 1).map fun v => .assign v (.current (.var enum))) = [] :=
    routinesOf_assigns _ (by simp)
  simp [forCode, resets, current, -List.map_drop, -List.map_take, -List.drop_one]

theorem routines_filterCode (c : Code) (pred : Option Code) :
    (filterCode c pred).routines = c.routines ++ routinesOf pred.toList := by
  cases pred <;> simp [filterCode]

theorem routines_whileCode (t : LoopTargets) (test body : Code) :
    (whileCode t test body).routines = test.routines ++ body.routines := by
  simp [whileCode]

theorem routines_templateCode (tmp : Variable) (body : Code) :
    (templateCode tmp body).routines = body.routines := by
  simp [templateCode]

theorem routines_switchCode (p : Position) (c : Code) (arms : List Code) (dflt : Option Code)
    (site : Nat) :
    (switchCode p c arms dflt site).routines =
      c.routines ++ routinesOf arms ++ routinesOf dflt.toList := by
  unfold switchCode
  split
  · cases arms <;> simp_all
  · cases dflt <;> simp

theorem routines_getD {o : Option Code} {c : Code} (h : c.routines = []) :
    (o.getD c).routines = routinesOf o.toList := by
  cases o <;> simp [h]

/-! ### Constructs -/

/-- The lambdas in items. -/
def itemRoutines (is : List Item) : List (Nat × Routine) := routinesOf (is.map (·.code))

theorem routinesOf_noted (debug : Bool) (is : List Item) :
    routinesOf (is.map (·.noted debug)) = itemRoutines is := by
  induction is with
  | nil => rfl
  | cons i is ih => simp [itemRoutines, Item.noted] at ih ⊢; exact ih

theorem routinesOf_outputs (env : LowerEnv) (xs : List Expr) (n : Numbering) :
    routinesOf ((exprItems env xs n).map fun i => outputCode (i.noted env.debug)) =
      itemRoutines (exprItems env xs n) := by
  induction xs generalizing n with
  | nil => rfl
  | cons x xs ih =>
    rw [exprItems, List.map_cons, routinesOf_cons, ih, Item.noted, routines_outputCode]
    rfl

mutual

theorem pieces_expr {env : LowerEnv} : (x : Expr) → (n : Numbering) → x.Scoped env n →
    (x.lower env n).routines = x.pieces env n
  | .literal .., _ | .null _, _ => fun _ => rfl
  | .name p name, n => fun _ => routines_load ..
  | .unary p op x, n => fun hs => by
    rw [Expr.lower, Expr.pieces, routines_unaryCode, routines_noteAt, pieces_expr x n hs]
  | .binary x p op y, n => fun ⟨hx, hy⟩ => by
    rw [Expr.lower, Expr.pieces, routines_binaryCode, routines_noteAt, routines_noteAt,
      pieces_expr x n hx, pieces_expr y _ hy]
  | .assign target p y, n => fun hs => by
    cases target with
    | name q name =>
      obtain ⟨hw, hy⟩ := hs
      rw [Expr.lower, Expr.pieces, routines_store hw, routines_noteAt, pieces_expr y n hy]
    | member x dot q name =>
      obtain ⟨hx, hy⟩ := hs
      have h : ((Expr.assign (.member x dot q name) p y).lower env n).routines =
          routinesOf ([noteAt env.debug x.start (x.lower env n)] ++
            [noteAt env.debug y.start (y.lower env (x.after n).nextSite)]) :=
        Code.routines_dynamic ..
      rw [h, Expr.pieces, ← pieces_expr x n hx, ← pieces_expr y _ hy]
      simp
    | index x l args r =>
      obtain ⟨hx, hargs, hy⟩ := hs
      have h : ((Expr.assign (.index x l args r) p y).lower env n).routines =
          routinesOf (noteAt env.debug x.start (x.lower env n) ::
            (exprItems env args (x.after n)).map (·.noted env.debug) ++
            [noteAt env.debug y.start (y.lower env (exprsAfter args (x.after n)).nextSite)]) :=
        Code.routines_dynamic ..
      rw [h, Expr.pieces, ← pieces_expr x n hx, ← pieces_exprs args _ hargs, ← pieces_expr y _ hy]
      simp [routinesOf_noted]
    | _ => exact hs.elim
  | .index x l args r, n | .method x _ _ name l args r, n
  | .new l x _ args r, n => fun ⟨hx, hargs⟩ => by
    rw [Expr.lower, Expr.pieces, dynamicCode, Code.routines_dynamic, routinesOf_cons,
      routines_noteAt, routinesOf_noted, pieces_expr x n hx, pieces_exprs args _ hargs]
  | .member x dot p name, n => fun hs => by
    rw [Expr.lower, Expr.pieces, memberCode, Code.routines_dynamic, routinesOf_cons,
      routines_noteAt, routinesOf_nil, List.append_nil, pieces_expr x n hs]
  | .call p name l args r, n => fun hs => by
    rw [Expr.lower, Expr.pieces, dynamicCode, Code.routines_dynamic, routinesOf_cons,
      routines_globalCode, List.nil_append, routinesOf_noted, pieces_exprs args n hs]
  | .list l items r, n => fun hs => by
    rw [Expr.lower, Expr.pieces, Code.routines_list, routinesOf_noted, pieces_exprs items n hs]
  | .template b, n => fun hs => by
    rw [Expr.lower, Expr.pieces, routines_templateCode, routines_noteAt, pieces_block b n hs]

theorem pieces_exprs {env : LowerEnv} : (xs : List Expr) → (n : Numbering) →
    exprsScoped env xs n → itemRoutines (exprItems env xs n) = exprsPieces env xs n
  | [], _ => fun _ => rfl
  | x :: xs, n => fun ⟨hx, hxs⟩ => by
    rw [exprsPieces, ← pieces_expr x n hx, ← pieces_exprs xs _ hxs]
    rfl

theorem pieces_block {env : LowerEnv} {inLoop : Bool} : (b : Block) → (n : Numbering) →
    b.Scoped env inLoop n → (b.lower env n).routines = b.pieces env n
  | .mk l stmts r t, n => fun hs => by
    rw [Block.lower, Block.pieces, Code.routines_block, routinesOf_noted, pieces_stmts stmts _ hs]

theorem pieces_stmts {env : LowerEnv} {inLoop : Bool} : (sts : List Stmt) → (n : Numbering) →
    stmtsScoped env inLoop sts n → itemRoutines (stmtItems env sts n) = stmtsPieces env sts n
  | [], _ => fun _ => rfl
  | st :: sts, n => fun ⟨hst, hsts⟩ => by
    rw [stmtsPieces, ← pieces_stmt st n hst, ← pieces_stmts sts _ hsts]
    rfl

theorem pieces_body {env : LowerEnv} {inLoop : Bool} : (b : Block) → (n : Numbering) →
    b.ScopedBody env inLoop n → (b.lowerBody env n).routines = b.piecesBody env n
  | .mk l stmts r t, n => fun hs => by
    rw [Block.lowerBody, Block.piecesBody, Code.routines_block, routinesOf_noted,
      pieces_stmts stmts _ hs]

theorem pieces_varDefs {env : LowerEnv} : (vs : List VarDef) → (n : Numbering) →
    varDefsScoped env vs n → itemRoutines (varDefItems env vs n) = varDefsPieces env vs n
  | [], _ => fun _ => rfl
  | .mk p name none :: vs, n => fun ⟨_, hvs⟩ => by
    rw [varDefsPieces, VarDef.pieces, List.nil_append, ← pieces_varDefs vs _ hvs]
    rfl
  | .mk p name (some x) :: vs, n => fun ⟨⟨hw, hx⟩, hvs⟩ => by
    rw [varDefsPieces, VarDef.pieces, ← pieces_expr x n hx, ← pieces_varDefs vs _ hvs]
    simp [varDefItems, VarDef.items, itemRoutines, routines_store hw]

theorem pieces_cases {env : LowerEnv} {inLoop : Bool} : (cs : List SwitchCase) →
    (n : Numbering) → casesScoped env inLoop cs n →
    itemRoutines (caseItems env cs n) = casesPieces env cs n
  | [], _ => fun _ => rfl
  | .mk p values body :: cs, n => fun ⟨⟨hv, hb⟩, hcs⟩ => by
    rw [casesPieces, SwitchCase.pieces, ← pieces_exprs values n hv, ← pieces_block body _ hb,
      ← pieces_cases cs _ hcs]
    show ((SwitchCase.mk p values body).lower env n).routines ++ itemRoutines (caseItems env cs _) = _
    rw [SwitchCase.lower, Code.routines_case, routinesOf_noted, routines_noteAt]

theorem pieces_optBlock {env : LowerEnv} {inLoop : Bool} : (b : Option Block) →
    (n : Numbering) → optBlockScoped env inLoop b n →
    routinesOf (optBlockCode env b n).toList = optBlockPieces env b n
  | none, _ => fun _ => rfl
  | some b, n => fun hs => by
    rw [optBlockPieces, ← pieces_block b n hs, optBlockCode]
    simp

theorem pieces_optWhere {env : LowerEnv} (var : Bytes) : (w : Option WhereClause) →
    (n : Numbering) → optWhereScoped env var w n →
    routinesOf (optWhereCode env var w n).toList = optWherePieces env var w n
  | none, _ => fun _ => rfl
  | some (.mk p x), n => fun hs => by
    have hx : x.Scoped (env.inLambda n "where" [var] none) (n.enter 1) := hs
    rw [optWherePieces, WhereClause.pieces, ← pieces_expr x _ hx, ← WhereClause.routine_lower hs,
      ← routines_noteAt env.debug x.start, optWhereCode, Option.toList_some, routinesOf_cons,
      routines_noteAt, routinesOf_nil, List.append_nil]
    exact Lambda.routines_code ⟨n.lambdas, "where", _, _, _⟩

theorem pieces_stmt {env : LowerEnv} {inLoop : Bool} : (st : Stmt) → (n : Numbering) →
    st.Scoped env inLoop n → (st.lower env n).routines = st.pieces env n
  | .block b, n => fun hs => by
    rw [Stmt.lower, Stmt.pieces, pieces_block b n hs]
  | .text .., _ => fun _ => rfl
  | .define p vars, n => fun hs => by
    rw [Stmt.lower, Stmt.pieces, routines_sequenceCode, routinesOf_noted, pieces_varDefs vars n hs]
  | .output p xs, n => fun hs => by
    rw [Stmt.lower, Stmt.pieces, routines_sequenceCode, routinesOf_outputs, pieces_exprs xs n hs]
  | .expr x, n => fun hs => by
    rw [Stmt.lower, Stmt.pieces, pieces_expr x n hs]
  | .ret p none, n => fun _ => by
    rw [Stmt.lower, Stmt.pieces, LowerEnv.return_]
    split <;> rfl
  | .ret p (some x), n => fun ⟨ht, hx⟩ => by
    obtain ⟨t, ht⟩ := Option.isSome_iff_exists.1 ht
    rw [Stmt.lower, Stmt.pieces, LowerEnv.return_, ht]
    simp [pieces_expr x n hx]
  | .cond p test yes no, n => fun ⟨ht, hy, hn⟩ => by
    rw [Stmt.lower, Stmt.pieces, ← pieces_expr test n ht, ← pieces_block yes _ hy,
      ← pieces_optBlock no _ hn, ← routines_getD (c := .absent) rfl]
    simp
  | .loop p test body, n => fun ⟨ht, hb⟩ => by
    rw [Stmt.lower, Stmt.pieces, routines_whileCode]
    simp [pieces_expr test _ ht, pieces_block body _ hb]
  | .each p vp var x filter body between, n => fun ⟨hx, hf, hb, hw⟩ => by
    rw [Stmt.lower, Stmt.pieces, routines_forCode, routines_filterCode, routines_noteAt,
      routines_noteAt, routines_getD (c := .empty) rfl, pieces_expr x _ hx,
      pieces_optWhere var filter _ hf, pieces_body body _ hb, pieces_optBlock between _ hw]
  | .leave _, n | .again _, n => fun _ => by
    rw [Stmt.lower, Stmt.pieces, LowerEnv.jump]
    split <;> rfl
  | .switch p x cases dflt r, n => fun ⟨hx, hcs, hd⟩ => by
    rw [Stmt.lower, Stmt.pieces, routines_switchCode, routines_noteAt, pieces_expr x n hx,
      pieces_optBlock dflt _ hd, ← pieces_cases cases _ hcs]
    rfl

end

theorem pieces_functions {env : LowerEnv} (fs : List FunctionDecl) (n : Numbering)
    (hs : functionsScoped env fs n) :
    itemRoutines (functionItems env fs n) = functionsPieces env fs n := by
  induction fs generalizing n with
  | nil => rfl
  | cons f fs ih =>
    obtain ⟨hf, hfs⟩ := hs
    rw [functionsPieces, ← ih _ hfs, ← pieces_block f.body _ hf, ← FunctionDecl.routine_lambda hf]
    show (f.lower env n).routines ++ itemRoutines (functionItems env fs _) = _
    rw [FunctionDecl.lower, routines_setGlobalCode, Lambda.routines_code]
    simp [FunctionDecl.lambda, functionBody]

theorem pieces_defs {env : LowerEnv} (ds : List GlobalDef) (n : Numbering)
    (hs : defsScoped env ds n) : itemRoutines (defItems env ds n) = defsPieces env ds n := by
  induction ds generalizing n with
  | nil => rfl
  | cons d ds ih =>
    obtain ⟨hd, hds⟩ := hs
    rw [defsPieces, ← ih _ hds, ← pieces_varDefs d.vars n hd]
    show (sequenceCode _).routines ++ itemRoutines (defItems env ds _) = _
    rw [routines_sequenceCode, routinesOf_noted]

/-- The lambdas in the code of a module are its pieces. -/
theorem Module.routines_lower {m : Module} {env : LowerEnv} (hret : env.ret = none)
    (hs : m.Scoped env) : (m.lower env).code.routines = m.pieces env := by
  rw [Lambda.routines_code, Module.routine_lower hret hs, Module.pieces]
  obtain ⟨hf, hd, hst⟩ := hs
  rw [← pieces_functions m.functions _ hf, ← pieces_defs m.defs _ hd, ← pieces_stmts m.stmts _ hst]
  simp [Module.lower, Module.items, itemRoutines, routinesOf_noted]

end

/-! ### Equal stores -/

/-- Equal records, for given units of code. -/
def SameRecords (units : Array (List Lambda)) : Likeness where
  placed := true
  units
  units' := units
  Rel c d := c = d
  base := {}
  Allowed _ := True
  allowed_of_le _ h := h
  unseen _ := .inl rfl

theorem twin_same {units : Array (List Lambda)} {s t : Store} :
    Twin (SameRecords units) s t ↔ t = s ∧ s.units = units := by
  constructor
  · intro h
    have hr : t.toRecords = s.toRecords :=
      Records.ext (h.right.trans h.left.symm) h.caches.symm (h.places rfl).symm (h.kept_eq rfl).symm
    exact ⟨by rw [h.rest, hr]; rfl, h.left⟩
  · rintro ⟨rfl, hu⟩
    exact ⟨rfl, hu, hu, by simp [SameRecords, Tally.le_def], rfl, fun _ => rfl, rfl⟩

/-- Aligned computations are equal from stores with the given units of code. -/
theorem Aligned.apply_eq {α : Type} {units : Array (List Lambda)} {m m' : Action α}
    (h : Aligned (SameRecords units) true m m') {s : Store} (hs : s.units = units) : m s = m' s := by
  have := h.agree s s (twin_same.2 ⟨rfl, hs⟩) trivial
  generalize m s = x, m' s = y at this
  cases this with
  | ok h' => rw [(twin_same.1 h').1]
  | @error e e' _ _ he h' =>
    obtain rfl : e = e' := he
    rw [(twin_same.1 h').1]

section

variable {units : Array (List Lambda)}

theorem AlignedCalls.dispatch_same [Host] {call call' : Callback}
    (h : AlignedCalls (SameRecords units) call call') (fuel : Nat) (act : Activation) (c : Code) :
    AlignedNode (SameRecords units) true call call' fuel act c :=
  ⟨fun site _ => h.dispatch Iff.rfl fuel act site, fun hp => by cases hp⟩

theorem aligned_eval_same [Host] {call call' : Callback}
    (h : AlignedCalls (SameRecords units) call call') (fuel : Nat) (act : Activation) (c : Code) :
    Aligned (SameRecords units) true (c.eval call fuel act).run (c.eval call' fuel act).run := by
  have := aligned_eval h c fun d _ => h.dispatch_same fuel act d
  rwa [c.withNotes_true] at this

/-! ### Functions of units whose modules are known -/

/-- The units hold the code of the modules they were made from. -/
def Sources.Describes (src : Sources) (units : Array (List Lambda)) : Prop :=
  ∀ unit m env, src unit = some (m, env) →
    units.getD unit [] = (m.lower env).lambdas ∧ m.Scoped env ∧ env.ret = none

theorem lookup_map_routine [Host] (fs : List Lambda) (id : Nat) :
    (fs.map fun f => (f.id, f.routine)).lookup id = (fs.find? (·.id = id)).map Lambda.routine := by
  induction fs with
  | nil => rfl
  | cons f fs ih =>
    by_cases h : f.id = id
    · simp [h]
    · have h' : (id == f.id) = false := by simpa using Ne.symm h
      simp [List.lookup, h, h', ih]

theorem Sources.linkage_eq [Host] {src : Sources} {s : Store} (h : src.Describes s.units)
    (unit id : Nat) : s.routine? unit id = src.linkage s unit id := by
  unfold Sources.linkage
  split
  · rename_i m env hu
    obtain ⟨hl, hs, hr⟩ := h unit m env hu
    show (s.lambda? unit id).map Lambda.routine = _
    rw [← Module.routines_lower hr hs, ← map_routine_lambdas, lookup_map_routine, Store.lambda?, hl]
    rfl
  · rfl

variable [Application]

/-- Calls by code and calls by the pieces of modules do the same. -/
theorem Sources.Describes.calls {src : Sources} (h : src.Describes units) (fuel : Nat) :
    AlignedCalls (SameRecords units) (callValue fuel) (callWith src.linkage fuel) := by
  refine aligned_callWith (fun s t hs ht unit id => ?_) fuel
  have hu : s.units = t.units := hs.trans ht.symm
  have hlink : t.routine? unit id = src.linkage t unit id :=
    linkage_eq (show src.Describes t.units from ht ▸ h) unit id
  rw [← hlink]
  simp only [Store.routine?, Store.lambda?, hu]
  cases (t.units.getD unit []).find? (·.id = id) with
  | none => exact .none
  | some f => exact .some ⟨rfl, rfl, rfl, fun _ _ fuel hcall act _ => aligned_eval_same hcall fuel act _⟩

end

/-! ### Programs -/

/-- Running a program by code and directly, where the modules of some units are known. -/
theorem Sources.Describes.run_eq [Application] {src : Sources} {s : Store} {p : Program}
    {m : Module} {env : LowerEnv} (h : src.Describes s.units) (hp : src p.unit = some (m, env))
    (hl : p.lambda = m.lower env) (fuel ctx : Nat) :
    p.run fuel ctx s = m.runDirect src fuel env p ctx s := by
  obtain ⟨-, hs, hr⟩ := h p.unit m env hp
  refine Aligned.apply_eq (Program.aligned_runAs rfl ctx fun args => ?_) rfl
  rw [hl, Module.routine_lower hr hs]
  refine Routine.Alike.call ⟨rfl, rfl, rfl, fun _ _ fuel hcall act _ => ?_⟩ (h.calls fuel) fuel ctx args
  rw [← Module.routine_lower hr hs]
  exact aligned_eval_same hcall fuel act _

/-- The source of one unit. -/
def Sources.only (unit : Nat) (m : Module) (env : LowerEnv) : Sources := fun u =>
  if u = unit then some (m, env) else none

/-- A module that was parsed and accepted compiles. In every store where its code is linked,
and from every context, running this code does what running the module directly does: the
stores afterwards are equal, so the same text was written and the same globals were left, and
both succeed, or fail with the same failure. -/
theorem run_compiled [Application] {file src : Bytes} {m : Module}
    (hp : parseModule file src = .ok m) {opts : Options} (ha : m.diagnose opts.resolveEnv = [])
    (stamp : Nat) :
    ∃ f, compile file src opts stamp = .ok f ∧
      ∀ (p : Program) (s : Store), p.lambda = f → s.units[p.unit]? = some f.lambdas →
        ∀ fuel ctx, p.run fuel ctx s =
          m.runDirect (.only p.unit m (m.compileEnv opts stamp)) fuel (m.compileEnv opts stamp)
            p ctx s := by
  have hdef := parseModule_noDefinitions hp
  refine ⟨m.lower (m.compileEnv opts stamp), ?_, ?_⟩
  · simp only [compile, hp]
    exact m.compile_eq_lower hdef ha stamp
  · intro p s hl hu fuel ctx
    have hs : m.Scoped (m.compileEnv opts stamp) :=
      m.scoped_of_accepted hdef ha (m.map_fst_roots_eq_loaded opts stamp) opts.debugInfo
    have describes : (Sources.only p.unit m (m.compileEnv opts stamp)).Describes s.units := by
      intro unit m' env h
      unfold Sources.only at h
      split at h
      · cases h
        subst unit
        exact ⟨by simp [hu], hs, rfl⟩
      · cases h
    exact describes.run_eq (if_pos rfl) hl fuel ctx

/-- A loop with a condition on its elements, a jump and a part between its rounds, linked alone
in a store and run in the first of its contexts. -/
theorem run_compiled_loop :
    let src := Bytes.ofString "for (x in [1, 2, 3, 4] where x > 1) " ++
      Bytes.ofString "<|$if (x == 3) <|$continue;$|>$$x$|> between <|;|>"
    ∃ m f, parseModule [] src = .ok m ∧ m.diagnose ({} : Options).resolveEnv = [] ∧
      compile [] src {} 0 = .ok f ∧
      ∀ fuel,
        let p : Program := ⟨[], [], 0, f⟩
        let s : Store := { units := #[f.lambdas], contexts := #[{}] }
        @Program.run standalone fuel p 0 s =
          @Module.runDirect standalone (.only 0 m (m.compileEnv {} 0)) fuel m
            (m.compileEnv {} 0) p 0 s := by
  intro src
  have h : (parseModule [] src).toOption.map
      (fun m => (m.diagnose ({} : Options).resolveEnv).isEmpty) = some true := by
    decide +kernel
  cases hp : parseModule [] src with
  | error e =>
    rw [hp] at h
    cases h
  | ok m =>
    rw [hp] at h
    have hd : m.diagnose ({} : Options).resolveEnv = [] := List.isEmpty_iff.1 (Option.some.inj h)
    obtain ⟨f, hf, hr⟩ := @run_compiled standalone _ _ _ hp _ hd 0
    exact ⟨m, f, rfl, hd, hf, fun fuel => hr ⟨[], [], 0, f⟩ _ rfl rfl fuel 0⟩

end Stencil
