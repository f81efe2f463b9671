import Stencil.Proofs.Direct.Control
import Stencil.Proofs.Marks

/-!
# Lowering preserves meaning

The code of every well-scoped construct follows the direct meaning of the construct. The
proof follows the tree. An expression can only be left by a `return`, also through the
statements of a template; a statement also by a `break` or `continue` of the loop around it.
-/

namespace Stencil

namespace LowerEnv

/-- The jump for an exit. -/
def aim (env : LowerEnv) (inLoop : Bool) : Exit → Option Jump
  | .leave => if inLoop then env.loops.head?.map fun t => ⟨t.brk, .null⟩ else none
  | .again => if inLoop then env.loops.head?.map fun t => ⟨t.cont, .null⟩ else none
  | .ret v => env.ret.map fun t => ⟨t, v⟩

/-- The target of a `return` has a number of its own. -/
def RetBelow (env : LowerEnv) (n : Numbering) : Prop := ∀ t, env.ret = some t → t.id < n.targets

theorem RetBelow.le {env : LowerEnv} {n m : Numbering} (h : env.RetBelow n) (hm : n.Le m) :
    env.RetBelow m :=
  fun t ht => Nat.lt_of_lt_of_le (h t ht) hm.targets

theorem aim_inLoop_false (env : LowerEnv) (t : LoopTargets) :
    (env.inLoop t).aim false = env.aim false := by
  funext e
  cases e <;> rfl

end LowerEnv

theorem Follows.inLoop {α β : Type} {R : α → β → Prop} {c : Eval α} {d : Exec β} {env : LowerEnv}
    (h : Follows (env.aim false) R c d) (inLoop : Bool) : Follows (env.aim inLoop) R c d := by
  refine h.mono (fun e j he => ?_) fun _ _ hr => hr
  cases e with
  | ret v => exact he
  | _ => simp [LowerEnv.aim] at he

/-! ### Code without labels -/

theorem plain_load (env : LowerEnv) (p : Position) (name : Bytes) (site : Nat) :
    (env.load p name site).Plain := by
  unfold LowerEnv.load
  split <;> simp [Code.Plain, Code.unwrap, globalCode]

theorem plain_store (env : LowerEnv) (p : Position) (name : Bytes) (x : Code) (site : Nat) :
    (env.store p name x site).Plain := by
  unfold LowerEnv.store
  split <;> simp [Code.Plain, Code.unwrap, setGlobalCode]

theorem plain_assignCode (p : Position) (target value : Code) (site : Nat) :
    (assignCode p target value site).Plain := by
  unfold assignCode
  repeat' split
  all_goals simp [Code.Plain, Code.unwrap]

theorem Expr.plain_lower (env : LowerEnv) (x : Expr) (n : Numbering) : (x.lower env n).Plain := by
  cases x with
  | name p name => exact plain_load _ _ _ _
  | unary p op x =>
    rw [Expr.lower]
    cases op <;> simp [unaryCode, Code.Plain, Code.unwrap]
  | binary x p op y =>
    rw [Expr.lower]
    cases op <;> simp [binaryCode, Code.Plain, Code.unwrap]
  | assign target p y =>
    cases target with
    | name => exact plain_store _ _ _ _ _
    | _ => exact plain_assignCode _ _ _ _
  | _ => simp [Expr.lower, Code.Plain, Code.unwrap, dynamicCode, memberCode, templateCode]

theorem plain_sequenceCode {cs : List Code} (h : ∀ c ∈ cs, c.Plain) : (sequenceCode cs).Plain := by
  match cs with
  | [] => simp [sequenceCode, Code.Plain, Code.unwrap]
  | [c] => exact h c (by simp)
  | c :: c' :: cs => simp [sequenceCode, Code.Plain, Code.unwrap]

theorem plain_outputCode (x : Code) : (outputCode x).Plain := by
  unfold outputCode
  repeat' split
  all_goals simp [Code.Plain, Code.unwrap, contextCode]

theorem plain_varDefItems (env : LowerEnv) (vs : List VarDef) (n : Numbering) :
    ∀ c ∈ (varDefItems env vs n).map (·.noted env.debug), c.Plain := by
  induction vs generalizing n with
  | nil => simp [varDefItems]
  | cons v vs ih =>
    obtain ⟨p, name, init⟩ := v
    cases init with
    | none => exact ih n
    | some x =>
      intro c hc
      simp only [varDefItems, VarDef.items, List.singleton_append, List.map_cons, List.mem_cons] at hc
      rcases hc with rfl | hc
      · exact (plain_store _ _ _ _ _).noted _ _
      · exact ih _ c hc

theorem Block.plain_lower (env : LowerEnv) (b : Block) (n : Numbering) : (b.lower env n).Plain := by
  cases b
  simp [Block.lower, Code.Plain, Code.unwrap]

theorem Block.plain_lowerBody (env : LowerEnv) (b : Block) (n : Numbering) :
    (b.lowerBody env n).Plain := by
  cases b
  simp [Block.lowerBody, Code.Plain, Code.unwrap]

theorem Stmt.plain_lower (env : LowerEnv) (st : Stmt) (n : Numbering) : (st.lower env n).Plain := by
  cases st with
  | block b => exact b.plain_lower env n
  | define p vars => exact plain_sequenceCode (plain_varDefItems env vars n)
  | output p xs =>
    refine plain_sequenceCode fun c hc => ?_
    obtain ⟨i, -, rfl⟩ := List.mem_map.1 hc
    exact plain_outputCode _
  | expr x => exact x.plain_lower env n
  | ret p x =>
    cases x <;>
    · rw [Stmt.lower, LowerEnv.return_]
      split <;> simp [Code.Plain, Code.unwrap]
  | leave | again =>
    rw [Stmt.lower, LowerEnv.jump]
    split <;> simp [Code.Plain, Code.unwrap]
  | switch p x cases dflt r =>
    simp only [Stmt.lower, switchCode]
    split <;> simp [Code.Plain, Code.unwrap]
  | _ => simp [Stmt.lower, Code.Plain, Code.unwrap, contextCode, whileCode, forCode]

/-! ### Output -/

theorem outputCode_of_not_basic {c : Code} (h : ∀ v, c.unwrap = .constant v → v.basicText? = none) :
    outputCode c = contextCode .safeWrite [c] := by
  unfold outputCode
  split
  · rename_i v hv
    rw [h v hv]
  · rfl

/-- A literal is written as it is, and nothing else is taken for one. -/
theorem outputCode_lower (env : LowerEnv) (debug : Bool) (p : Position) (x : Expr) (n : Numbering) :
    outputCode (noteAt debug p (x.lower env n)) =
      match x.plainText? with
      | some text => contextCode .write [.constant (.string text)]
      | none => contextCode .safeWrite [noteAt debug p (x.lower env n)] := by
  cases x with
  | literal q raw v =>
    unfold outputCode
    rw [unwrap_noteAt]
    rfl
  | null q =>
    unfold outputCode
    rw [unwrap_noteAt]
    rfl
  | name q name =>
    refine outputCode_of_not_basic fun v hv => ?_
    rw [unwrap_noteAt, Expr.lower] at hv
    unfold LowerEnv.load at hv
    split at hv <;> cases hv
    rfl
  | unary q op x =>
    refine outputCode_of_not_basic fun v hv => ?_
    rw [unwrap_noteAt, Expr.lower] at hv
    cases op <;> cases hv
  | binary x q op y =>
    refine outputCode_of_not_basic fun v hv => ?_
    rw [unwrap_noteAt, Expr.lower] at hv
    cases op <;> cases hv
  | assign target q y =>
    refine outputCode_of_not_basic fun v hv => ?_
    rw [unwrap_noteAt] at hv
    have hs : ∀ name c k, (env.store q name c k).unwrap ≠ .constant v := by
      intro name c k
      unfold LowerEnv.store
      split <;> simp [Code.unwrap, setGlobalCode]
    have ha : ∀ t c k, (assignCode q t c k).unwrap ≠ .constant v := by
      intro t c k
      unfold assignCode
      repeat' split
      all_goals simp [Code.unwrap]
    cases target with
    | name => exact absurd hv (hs _ _ _)
    | _ => exact absurd hv (ha _ _ _)
  | _ =>
    refine outputCode_of_not_basic fun v hv => ?_
    rw [unwrap_noteAt, Expr.lower] at hv
    cases hv

/-! ### Code that is there -/

theorem isAbsent_noteAt {c : Code} (h : c.isAbsent = false) (debug : Bool) (p : Position) :
    (noteAt debug p c).isAbsent = false := by
  unfold noteAt
  split
  · exact h
  · split
    · exact h
    · rfl

/-- A well-scoped expression has code. -/
theorem Expr.isAbsent_lower {env : LowerEnv} {x : Expr} {n : Numbering} (hs : x.Scoped env n) :
    (x.lower env n).isAbsent = false := by
  cases x with
  | name p name =>
    rw [Expr.lower, LowerEnv.load]
    rw [Expr.Scoped] at hs
    split <;> simp_all [Code.isAbsent, globalCode]
  | unary p op x => cases op <;> rfl
  | binary x p op y => cases op <;> rfl
  | assign target p y =>
    cases target with
    | name q name =>
      have hw : env.canWrite name = true := hs.1
      rw [Expr.lower, LowerEnv.store]
      unfold LowerEnv.canWrite at hw
      split <;> simp_all [Code.isAbsent, setGlobalCode]
    | member | index => rfl
    | _ => exact hs.elim
  | _ => rfl

theorem isAbsent_of_optBlockCode {env : LowerEnv} {b : Option Block} {n : Numbering} {c : Code}
    (h : optBlockCode env b n = some c) : c.isAbsent = false := by
  cases b with
  | none => cases h
  | some b =>
    cases h
    refine isAbsent_noteAt ?_ _ _
    cases b
    rfl

/-- The value of code that may be missing. -/
def evalOption [Host] (call : Callback) (fuel : Nat) (act : Activation) : Option Code → Eval Value
  | none => return .null
  | some c => c.eval call fuel act

/-! ### Constructs -/

section

variable [Host] {call : Callback} {fuel : Nat} {act : Activation}

theorem eval_getD_empty (o : Option Code) :
    (o.getD .empty).eval call fuel act = evalOption call fuel act o := by
  cases o with
  | none => rw [Option.getD_none, Code.eval, evalOption]
  | some c => rfl

theorem eval_getD_absent {o : Option Code} (h : ∀ c, o = some c → c.isAbsent = false) :
    (if (o.getD .absent).isAbsent = true then pure .null else (o.getD .absent).eval call fuel act) =
      evalOption call fuel act o := by
  cases o with
  | none => rfl
  | some c => simp [h c rfl, evalOption]

theorem Follows.return_ {env : LowerEnv} {inLoop : Bool} {c : Code} {d : Exec Value}
    (hr : env.ret.isSome = true) (hc : c.isAbsent = false)
    (h : Follows (env.aim inLoop) Eq (c.eval call fuel act) d) :
    Follows (env.aim inLoop) Anything ((env.return_ c).eval call fuel act)
      (do throw (.ret (← d)) : Exec Unit) := by
  obtain ⟨t, ht⟩ := Option.isSome_iff_exists.1 hr
  simp only [LowerEnv.return_, ht, Code.eval, hc]
  refine h.bind ?_
  rintro v _ rfl
  exact follows_throw (by simp [LowerEnv.aim, ht])

/-- The elements of a loop: the condition on them becomes a function value. -/
theorem Follows.source {aim : Exit → Option Jump} {c : Code} {d : Exec Value}
    (h : Follows aim Eq (c.eval call fuel act) d) (env : LowerEnv) (var : Bytes)
    (w : Option WhereClause) (n : Numbering) :
    Follows aim Eq ((filterCode c (optWhereCode env var w n)).eval call fuel act)
      (sourceExec call fuel act env var d w n) := by
  cases w with
  | none =>
    rw [sourceExec]
    exact h
  | some w =>
    obtain ⟨p, x⟩ := w
    have closure : Follows aim Eq (((WhereClause.mk p x).lower env var n).eval call fuel act)
        (newClosure act n.lambdas ⟨"where", [var]⟩) := by
      rw [WhereClause.lower, Code.eval]
      exact follows_lift _
    rw [optWhereCode, filterCode, sourceExec, Code.eval]
    refine h.bind ?_
    rintro v _ rfl
    refine (closure.noted _ _).bind ?_
    rintro f _ rfl
    exact follows_lift _

theorem follows_text {aim : Exit → Option Jump} (text : Bytes) :
    Follows aim Eq (evalArgs call fuel act [.constant (.string text)])
      (pure [.string text] : Exec (List Value)) := by
  simp only [evalArgs, Code.eval, pure_bind]
  exact follows_pure rfl

/-! ### Loops and switches -/

omit [Host] in
/-- The jump of a `return` is none of the loop that it leaves. -/
theorem LowerEnv.RetBelow.aim_ret {env : LowerEnv} {n : Numbering} (hr : env.RetBelow n)
    (inLoop : Bool) {v : Value} {j : Jump} (hj : (env.inLoop n.loop).aim true (.ret v) = some j) :
    j.target.id ≠ n.loop.brk.id ∧ j.target.id ≠ n.loop.cont.id ∧
      env.aim inLoop (.ret v) = some j := by
  obtain ⟨t, ht, rfl⟩ := Option.map_eq_some_iff.1 hj
  have hlt := hr t ht
  exact ⟨Nat.ne_of_lt hlt, by simp [Numbering.loop]; omega, hj⟩

theorem follows_while {env : LowerEnv} {inLoop : Bool} {n : Numbering} {test body : Code}
    {d : Exec Value} {e : Exec Unit} (hr : env.RetBelow n)
    (ht : Follows ((env.inLoop n.loop).aim true) Eq (test.eval call fuel act) d) (hp : body.Plain)
    (hb : Follows ((env.inLoop n.loop).aim true) Anything (body.eval call fuel act) e) :
    Follows (env.aim inLoop) Anything ((whileCode n.loop test body).eval call fuel act)
      (rounds act.ctx (do if ← Activation.test d then e else throw .leave) fuel) := by
  rw [whileCode, Code.eval]
  refine follows_rounds (follows_whileRound ht hp hb rfl) ?_ ?_ fun v j hj => ?_
  · intro j hj
    cases hj
    rfl
  · intro j hj
    cases hj
    simp [Numbering.loop]
  · obtain ⟨hbrk, hcont, haim⟩ := hr.aim_ret inLoop hj
    exact ⟨hbrk, fun heq => hcont (Option.some.inj heq).symm, haim⟩

section

variable {aim : Exit → Option Jump} {x : Code} {d : Exec Value} {other : Option Code} {o : Exec Unit}

/-- A switch without arms computes its value all the same. -/
theorem follows_armless (hx : Follows aim Eq (x.eval call fuel act) d) (hp : x.Plain)
    (ho : FollowsAll call fuel act aim other.toList o) (pos : Position) (site : Nat) :
    Follows aim Anything ((switchCode pos x [] other site).eval call fuel act)
      (d >>= fun _ => o) := by
  have all := (ho.cons hp hx).block []
  rw [clear_nil_bind] at all
  exact all

theorem follows_arms {arms : List Code} {pos : Position} {site : Nat} {found : Value → Exec Bool}
    (hx : Follows aim Eq (x.eval call fuel act) d) (hne : arms ≠ [])
    (harms : ∀ v, Follows aim (fun r found => r.isSome = found)
      (evalCases call fuel act { id := site, kind := .binary, op := .binary .equal, pos } v arms)
      (found v))
    (hother : ∀ c, other = some c → c.isAbsent = false)
    (ho : Follows aim Anything (evalOption call fuel act other) o) :
    Follows aim Anything ((switchCode pos x arms other site).eval call fuel act)
      (do let v ← d; if ← found v then return else o) := by
  rw [switchCode, if_neg (by simpa using hne), Code.eval]
  refine hx.bind ?_
  rintro v _ rfl
  refine (harms v).bind ?_
  rintro r _ rfl
  rw [← eval_getD_absent hother] at ho
  cases r with
  | some r => exact follows_pure trivial
  | none => exact ho

end

/-- The block for what no arm of a switch is for. -/
theorem follows_optItems {env : LowerEnv} {inLoop : Bool} {b : Option Block} {n : Numbering}
    (h : Follows (env.aim inLoop) Anything (evalOption call fuel act (optBlockCode env b n))
      (optBlockExec call fuel act env b n)) :
    FollowsAll call fuel act (env.aim inLoop) (optBlockCode env b n).toList
      (optBlockExec call fuel act env b n) := by
  cases b with
  | none =>
    rw [optBlockCode, optBlockExec]
    exact followsAll_nil
  | some b =>
    have := followsAll_nil.cons ((b.plain_lower env n).noted env.debug b.span.first) h
    rwa [bind_pure_unit] at this

mutual

theorem follows_expr {env : LowerEnv} : (x : Expr) → (n : Numbering) → env.RetBelow n →
    x.Scoped env n →
    Follows (env.aim false) Eq ((x.lower env n).eval call fuel act) (x.exec call fuel act env n)
  | .literal .., _ | .null _, _ => fun _ _ => by
    rw [Expr.lower, Code.eval, Expr.exec]
    exact follows_pure rfl
  | .name p name, n => fun _ hs => by
    rw [Expr.lower, Expr.exec]
    exact follows_readName hs p n.sites
  | .unary p op x, n => fun hr hs => by
    rw [Expr.lower, Expr.exec]
    exact ((follows_expr x n hr hs).noted _ _).unary p op _
  | .binary x p op y, n => fun hr ⟨hx, hy⟩ => by
    rw [Expr.lower, Expr.exec]
    have hr' := hr.le (x.le_after n)
    exact ((follows_expr x n hr hx).noted _ _).binary ((follows_expr y _ hr' hy).noted _ _) p op _
  | .assign target p y, n => fun hr hs => by
    cases target with
    | name q name =>
      obtain ⟨hw, hy⟩ := hs
      rw [Expr.lower, Expr.exec]
      exact ((follows_expr y n hr hy).noted _ _).writeName hw p _
    | member x dot q name =>
      obtain ⟨hx, hy⟩ := hs
      have hr' := hr.le (x.le_after n).nextSite
      exact ((follows_expr x n hr hx).noted _ _).operation_two
        ((follows_expr y _ hr' hy).noted _ _) _
    | index x l args r =>
      obtain ⟨hx, hargs, hy⟩ := hs
      have hr₁ := hr.le (x.le_after n)
      have hr₂ := hr₁.le (exprs_le_after _ args).nextSite
      have operands := (follows_exprs args _ hr₁ hargs).args_snoc
        ((follows_expr y _ hr₂ hy).noted env.debug y.start)
      have := ((follows_expr x n hr hx).noted env.debug x.start).operation operands
        { id := (y.after (exprsAfter args (x.after n)).nextSite).sites, kind := .setIndex,
          arity := args.length, pos := p }
      simp only [bind_assoc, pure_bind] at this
      exact this
    | _ => exact hs.elim
  | .index x l args r, n | .method x _ _ name l args r, n
  | .new l x _ args r, n => fun hr ⟨hx, hargs⟩ => by
    rw [Expr.lower, Expr.exec]
    have hr' := hr.le (x.le_after n)
    exact ((follows_expr x n hr hx).noted _ _).operation (follows_exprs args _ hr' hargs) _
  | .member x dot p name, n => fun hr hs => by
    rw [Expr.lower, Expr.exec]
    exact ((follows_expr x n hr hs).noted _ _).operation_one _
  | .call p name l args r, n => fun hr hs => by
    rw [Expr.lower, Expr.exec]
    exact (follows_readGlobal p name _).operation (follows_exprs args n hr hs) _
  | .list l items r, n => fun hr hs => by
    rw [Expr.lower, Expr.exec, Code.eval]
    refine (follows_exprs items n hr hs).bind ?_
    rintro vs _ rfl
    exact follows_lift _
  | .template b, n => fun hr hs => by
    rw [Expr.lower, Expr.exec]
    exact ((follows_block b n hr hs).noted _ _).capture _

theorem follows_exprs {env : LowerEnv} : (xs : List Expr) → (n : Numbering) → env.RetBelow n →
    exprsScoped env xs n →
    Follows (env.aim false) Eq
      (evalArgs call fuel act ((exprItems env xs n).map (·.noted env.debug)))
      (exprsExec call fuel act env xs n)
  | [], _ => fun _ _ => by
    rw [exprItems, exprsExec]
    exact follows_args_nil
  | x :: xs, n => fun hr ⟨hx, hxs⟩ => by
    rw [exprItems, exprsExec]
    have hr' := hr.le (x.le_after n)
    exact ((follows_expr x n hr hx).noted _ _).args_cons (follows_exprs xs _ hr' hxs)

theorem follows_block {env : LowerEnv} {inLoop : Bool} : (b : Block) → (n : Numbering) →
    env.RetBelow n → b.Scoped env inLoop n →
    Follows (env.aim inLoop) Anything ((b.lower env n).eval call fuel act)
      (b.exec call fuel act env n)
  | .mk l stmts r t, n => fun hr hs => by
    let names := Block.names (.mk l stmts r t)
    have hr' : (env.within (env.newSlots n names)).RetBelow (n.declare names.length) :=
      hr.le ((Numbering.Le.refl n).declare names.length)
    rw [Block.lower, Block.exec]
    exact (follows_stmts stmts _ hr' hs).block _

theorem follows_body {env : LowerEnv} {inLoop : Bool} : (b : Block) → (n : Numbering) →
    env.RetBelow n → b.ScopedBody env inLoop n →
    Follows (env.aim inLoop) Anything ((b.lowerBody env n).eval call fuel act)
      (b.execBody call fuel act env n)
  | .mk l stmts r t, n => fun hr hs => by
    rw [Block.lowerBody, Block.execBody]
    have := (follows_stmts stmts n hr hs).block []
    rwa [clear_nil_bind] at this

theorem follows_stmts {env : LowerEnv} {inLoop : Bool} : (sts : List Stmt) → (n : Numbering) →
    env.RetBelow n → stmtsScoped env inLoop sts n →
    FollowsAll call fuel act (env.aim inLoop) ((stmtItems env sts n).map (·.noted env.debug))
      (stmtsExec call fuel act env sts n)
  | [], _ => fun _ _ => by
    rw [stmtItems, stmtsExec]
    exact followsAll_nil
  | st :: sts, n => fun hr ⟨hst, hsts⟩ => by
    rw [stmtItems, stmtsExec]
    have hr' := hr.le (st.le_after n)
    exact (follows_stmts sts _ hr' hsts).cons ((st.plain_lower env n).noted _ _)
      ((follows_stmt st n hr hst).noted _ _)

theorem follows_varDefs {env : LowerEnv} : (vs : List VarDef) → (n : Numbering) →
    env.RetBelow n → varDefsScoped env vs n →
    FollowsAll call fuel act (env.aim false) ((varDefItems env vs n).map (·.noted env.debug))
      (varDefsExec call fuel act env vs n)
  | [], _ => fun _ _ => by
    rw [varDefItems, varDefsExec]
    exact followsAll_nil
  | .mk p name none :: vs, n => fun hr ⟨_, hvs⟩ => by
    rw [varDefItems, varDefsExec, VarDef.items, VarDef.exec, pure_bind]
    exact follows_varDefs vs n hr hvs
  | .mk p name (some x) :: vs, n => fun hr ⟨⟨hw, hx⟩, hvs⟩ => by
    rw [varDefItems, varDefsExec, VarDef.items, VarDef.exec]
    have hr' := hr.le (x.le_after n).nextSite
    have value := (follows_expr x n hr hx).noted env.debug x.start
    exact (follows_varDefs vs _ hr' hvs).cons ((plain_store _ _ _ _ _).noted _ _)
      ((value.writeName hw p _).noted _ _).discard

theorem follows_outputs {env : LowerEnv} : (xs : List Expr) → (n : Numbering) →
    env.RetBelow n → exprsScoped env xs n →
    FollowsAll call fuel act (env.aim false)
      ((exprItems env xs n).map fun i => outputCode (i.noted env.debug))
      (outputExec call fuel act env xs n)
  | [], _ => fun _ _ => by
    rw [exprItems, outputExec]
    exact followsAll_nil
  | x :: xs, n => fun hr ⟨hx, hxs⟩ => by
    have rest := follows_outputs xs _ (hr.le (x.le_after n)) hxs
    have value := (follows_expr x n hr hx).noted env.debug x.start
    rw [exprItems, outputExec, List.map_cons, Item.noted, outputCode_lower]
    have text : ∀ text, Follows (env.aim false) Anything
        ((contextCode .write [.constant (.string text)]).eval call fuel act)
        (discard (act.onContext .write (return [.string text])) : Exec Unit) := fun text =>
      ((follows_text text).onContext .write).discard
    have safe : Follows (env.aim false) Anything
        ((contextCode .safeWrite [noteAt env.debug x.start (x.lower env n)]).eval call fuel act)
        (discard (act.onContext .safeWrite do
          return [← act.at_ env.debug x.start (x.exec call fuel act env n)]) : Exec Unit) := by
      have := (value.args_cons follows_args_nil).onContext .safeWrite
      simp only [pure_bind] at this
      exact this.discard
    cases x.plainText? with
    | some s => exact rest.cons (by simp [Code.Plain, Code.unwrap, contextCode]) (text s)
    | none => exact rest.cons (by simp [Code.Plain, Code.unwrap, contextCode]) safe

theorem follows_match {env : LowerEnv} (equal : CallSite) (v : Value) :
    (xs : List Expr) → (n : Numbering) → env.RetBelow n → exprsScoped env xs n →
    Follows (env.aim false) Eq
      (evalMatch call fuel act equal v ((exprItems env xs n).map (·.noted env.debug)))
      (matchExec call fuel act env equal v xs n)
  | [], _ => fun _ _ => by
    rw [exprItems, matchExec, List.map_nil, evalMatch]
    exact follows_pure rfl
  | x :: xs, n => fun hr ⟨hx, hxs⟩ => by
    have rest := follows_match equal v xs _ (hr.le (x.le_after n)) hxs
    rw [exprItems, matchExec, List.map_cons, evalMatch]
    refine ((follows_expr x n hr hx).noted _ _).bind ?_
    rintro w _ rfl
    refine (follows_lift _).bind ?_
    rintro eq _ rfl
    refine (follows_lift get).bind ?_
    rintro s _ rfl
    split
    · exact follows_pure rfl
    · exact rest

theorem follows_cases {env : LowerEnv} {inLoop : Bool} (equal : CallSite) (v : Value) :
    (cs : List SwitchCase) → (n : Numbering) → env.RetBelow n → casesScoped env inLoop cs n →
    Follows (env.aim inLoop) (fun r found => r.isSome = found)
      (evalCases call fuel act equal v ((caseItems env cs n).map (·.code)))
      (casesExec call fuel act env equal v cs n)
  | [], _ => fun _ _ => by
    rw [caseItems, casesExec, List.map_nil, evalCases]
    exact follows_pure rfl
  | .mk p values body :: cs, n => fun hr ⟨⟨hv, hb⟩, hcs⟩ => by
    have hr₁ := hr.le (exprs_le_after n values)
    have hr₂ := hr₁.le (body.le_after _)
    have arm : Follows (env.aim inLoop) (fun r found => r.isSome = found)
        (((SwitchCase.mk p values body).lower env n).evalCase call fuel act equal v)
        ((SwitchCase.mk p values body).exec call fuel act env equal v n) := by
      rw [SwitchCase.lower, SwitchCase.exec, Code.evalCase]
      refine ((follows_match equal v values n hr hv).inLoop inLoop).bind ?_
      rintro found _ rfl
      cases found with
      | true => exact ((follows_block body _ hr₁ hb).noted _ _).bind fun _ _ _ => follows_pure rfl
      | false => exact follows_pure rfl
    rw [caseItems, casesExec, List.map_cons, evalCases]
    refine arm.bind ?_
    rintro r _ rfl
    cases r with
    | some r => exact follows_pure rfl
    | none => exact follows_cases equal v cs _ hr₂ hcs

theorem follows_optBlock {env : LowerEnv} {inLoop : Bool} : (b : Option Block) →
    (n : Numbering) → env.RetBelow n → optBlockScoped env inLoop b n →
    Follows (env.aim inLoop) Anything (evalOption call fuel act (optBlockCode env b n))
      (optBlockExec call fuel act env b n)
  | none, _ => fun _ _ => by
    rw [optBlockCode, optBlockExec]
    exact follows_pure trivial
  | some b, n => fun hr hs => by
    rw [optBlockCode, optBlockExec]
    exact (follows_block b n hr hs).noted _ _

theorem follows_stmt {env : LowerEnv} {inLoop : Bool} : (st : Stmt) → (n : Numbering) →
    env.RetBelow n → st.Scoped env inLoop n →
    Follows (env.aim inLoop) Anything ((st.lower env n).eval call fuel act)
      (st.exec call fuel act env n)
  | .block b, n => fun hr hs => by
    rw [Stmt.lower, Stmt.exec]
    exact follows_block b n hr hs
  | .text p s, _ => fun _ _ => by
    rw [Stmt.lower, Stmt.exec]
    exact ((follows_text s).onContext .write).discard
  | .define p vars, n => fun hr hs => by
    rw [Stmt.lower, Stmt.exec]
    exact (follows_varDefs vars n hr hs).sequence.inLoop inLoop
  | .output p xs, n => fun hr hs => by
    rw [Stmt.lower, Stmt.exec]
    exact (follows_outputs xs n hr hs).sequence.inLoop inLoop
  | .expr x, n => fun hr hs => by
    rw [Stmt.lower, Stmt.exec]
    exact ((follows_expr x n hr hs).inLoop inLoop).discard
  | .ret p none, n => fun _ hs => by
    have null : Follows (env.aim inLoop) Eq ((Code.constant .null).eval call fuel act)
        (pure .null : Exec Value) := by
      rw [Code.eval]
      exact follows_pure rfl
    have := null.return_ hs rfl
    rw [Stmt.lower, Stmt.exec]
    simpa only [pure_bind] using this
  | .ret p (some x), n => fun hr ⟨ht, hx⟩ => by
    rw [Stmt.lower, Stmt.exec]
    exact (((follows_expr x n hr hx).noted _ _).inLoop inLoop).return_ ht
      (isAbsent_noteAt (Expr.isAbsent_lower hx) _ _)
  | .cond p test yes no, n => fun hr ⟨ht, hy, hn⟩ => by
    have hr₁ := hr.le (test.le_after n)
    have hr₂ := hr₁.le (yes.le_after _)
    rw [Stmt.lower, Stmt.exec, Code.eval]
    refine (((follows_expr test n hr ht).noted _ _).test.inLoop inLoop).bind ?_
    rintro b _ rfl
    cases b with
    | true => exact (follows_block yes _ hr₁ hy).noted _ _
    | false =>
      have no := follows_optBlock no _ hr₂ hn
      rw [← eval_getD_absent fun c => isAbsent_of_optBlockCode] at no
      exact no
  | .loop p test body, n => fun hr ⟨ht, hb⟩ => by
    have hr₁ : (env.inLoop n.loop).RetBelow n.nextLoop := hr.le (Numbering.Le.refl n).nextLoop
    have hr₂ := hr₁.le (test.le_after _)
    rw [Stmt.lower, Stmt.exec]
    exact follows_while hr (((follows_expr test _ hr₁ ht).noted _ _).inLoop true)
      ((body.plain_lower _ _).noted _ _) ((follows_block body _ hr₂ hb).noted _ _)
  | .each p vp var x filter body between, n => fun hr ⟨hx, _, hb, hw⟩ => by
    let names := loopNames var body
    let inner := (env.inLoop n.loop).within (env.newSlots n names)
    let n₁ := (n.declare (names.length + 1)).nextLoop
    have hr₁ : (env.inLoop n.loop).RetBelow n₁ :=
      hr.le ((Numbering.Le.refl n).declare (names.length + 1)).nextLoop
    have hr₃ : inner.RetBelow (optWhereAfter filter (x.after n₁)) :=
      (hr₁.le (x.le_after n₁)).le (optWhere_le_after _ filter)
    have hr₄ := hr₃.le (body.le_afterBody _)
    have source := (follows_expr x n₁ hr₁ hx).noted (env.inLoop n.loop).debug x.start
    rw [LowerEnv.aim_inLoop_false] at source
    have body' := (follows_body body _ hr₃ hb).noted (env.inLoop n.loop).debug body.span.first
    have between' := follows_optBlock between _ hr₄ hw
    rw [← eval_getD_empty] at between'
    rw [Stmt.lower, Stmt.exec]
    refine ((source.inLoop inLoop).source _ var filter _).forEach
      ((body.plain_lowerBody _ _).noted _ _) body' between' ?_ rfl rfl
      fun _ _ hj => hr.aim_ret inLoop hj
    simp [Numbering.loop]
  | .leave p, n => fun _ ⟨hi, hl⟩ => by
    obtain ⟨t, ts, ht⟩ := List.exists_cons_of_ne_nil hl
    rw [Stmt.lower, Stmt.exec, LowerEnv.jump, ht]
    dsimp only
    rw [eval_goto]
    exact follows_throw (by simp [LowerEnv.aim, hi, ht])
  | .again p, n => fun _ ⟨hi, hl⟩ => by
    obtain ⟨t, ts, ht⟩ := List.exists_cons_of_ne_nil hl
    rw [Stmt.lower, Stmt.exec, LowerEnv.jump, ht]
    dsimp only
    rw [eval_goto]
    exact follows_throw (by simp [LowerEnv.aim, hi, ht])
  | .switch p x cases dflt r, n => fun hr ⟨hx, hcs, hd⟩ => by
    have hr₁ := hr.le (x.le_after n)
    have hr₂ := hr₁.le (cases_le_after _ cases)
    have value := ((follows_expr x n hr hx).noted env.debug x.start).inLoop inLoop
    have other := follows_optBlock dflt _ hr₂ hd
    rw [Stmt.lower, Stmt.exec]
    cases cases with
    | nil =>
      have := follows_armless value ((x.plain_lower env n).noted _ _) (follows_optItems other) p
        (optBlockAfter dflt (casesAfter [] (x.after n))).sites
      simpa only [caseItems, casesExec, List.map_nil, pure_bind, Bool.false_eq_true, if_false]
        using this
    | cons c cs =>
      exact follows_arms value (by simp [caseItems])
        (fun v => follows_cases _ v (c :: cs) _ hr₁ hcs) (fun _ => isAbsent_of_optBlockCode) other

end

end

end Stencil
