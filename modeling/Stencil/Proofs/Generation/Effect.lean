import Mathlib
import Stencil.Proofs.Generation.Stack

/-!
# The effect of a visit on the assembly stack

When a node is left, what is done takes the code of its children from the stack and puts
the code of the node there: `pops` and `pushes` say how many items. The walk over the
children leaves exactly as many items as are taken then, so the visit of a node as a whole
has the effect that `SyntaxNode.effect` states. Nothing is assumed of the state the visit
begins in, nor of the module.
-/

namespace Stencil

/-- The number of items taken from the stack when an expression is left. -/
def Expr.pops : Expr → Nat
  | .literal .. | .null _ | .name .. => 0
  | .unary .. | .member .. | .template _ => 1
  | .binary .. => 2
  | .assign target _ _ => if target.isName then 1 else 2
  | .index _ _ args _ | .method _ _ _ _ _ args _ | .new _ _ _ args _ => args.length + 1
  | .call _ _ _ args _ | .list _ args _ => args.length

/-- The number of items an expression leaves on the stack. -/
def Expr.effect (write : Bool) (x : Expr) : Nat := if write && x.isName then 0 else 1

/-- The number of items the definition of a variable leaves on the stack. -/
def VarDef.effect : VarDef → Nat
  | .mk _ _ init => if init.isSome then 1 else 0

/-- The number of items the definitions of several variables leave on the stack. -/
def varDefsEffect (vs : List VarDef) : Nat := (vs.map VarDef.effect).sum

/-- The number of items an optional part leaves on the stack. -/
def optEffect {α : Type} (o : Option α) : Nat := if o.isSome then 1 else 0

/-- The number of items taken from the stack when a statement is left. -/
def Stmt.pops : Stmt → Nat
  | .block _ | .expr _ | .text .. | .leave _ | .again _ => 0
  | .define _ vars => varDefsEffect vars
  | .output _ xs => xs.length
  | .ret _ result => optEffect result
  | .cond _ _ _ no => optEffect no + 2
  | .loop .. => 2
  | .each _ _ _ _ filter _ between => optEffect between + (1 + (optEffect filter + 1))
  | .switch _ _ cases dflt _ => optEffect dflt + (cases.length + 1)

/-- The number of items put on the stack when a statement is left. The item of an
expression stands for its statement. -/
def Stmt.pushes : Stmt → Nat
  | .block _ | .expr _ => 0
  | _ => 1

namespace SyntaxNode

/-- The number of items taken from the stack when a node is left. -/
def pops : SyntaxNode → Nat
  | .module m => m.functions.length + m.defs.length + m.stmts.length
  | .load _ | .param _ | .memberName _ | .arguments _ | .memberCall .. => 0
  | .function _ | .filter .. => 1
  | .block b _ _ => b.stmts.length
  | .stmt st => st.pops
  | .varDef v => v.effect
  | .arm (.mk _ values _) => values.length + 1
  | .expr x _ => x.pops

/-- The number of items put on the stack when a node is left. -/
def pushes : SyntaxNode → Nat
  | .load _ | .param _ | .memberName _ | .arguments _ | .memberCall .. => 0
  | .module _ | .function _ | .filter .. | .block .. | .arm _ => 1
  | .stmt st => st.pushes
  | .varDef v => v.effect
  | .expr x write => x.effect write

/-- The number of items the visit of a node leaves on the stack. -/
def effect : SyntaxNode → Nat
  | .load _ | .param _ | .memberName _ => 0
  | .arguments args | .memberCall _ args => args.length
  | .module _ | .function _ | .filter .. | .block .. | .arm _ | .stmt _ => 1
  | .varDef v => v.effect
  | .expr x write => x.effect write

/-- The visit of a node. -/
def walk (s : Surroundings) : SyntaxNode → List Event
  | n@(.load _) | n@(.param _) | n@(.memberName _) => visit n s []
  | .function f => f.walk s
  | .block b base external => b.walk s base external
  | .stmt st => st.walk s
  | .varDef v => v.walk s
  | .filter var w => w.walk s var
  | .arm c => c.walk s
  | .expr x write => x.walk s write
  | n@(.arguments args) | n@(.memberCall _ args) => visit n s (exprsWalk s args)
  | n@(.module m) => visit n s (m.loads.flatMap (fun l => visit (.load l) s []) ++
      m.functions.flatMap (·.walk s) ++ m.defs.flatMap (·.walk s) ++ stmtsWalk s m.stmts)

end SyntaxNode

/-! ### Leaving a node -/

theorem Expr.effect_eq_one {write : Bool} {x : Expr} (h : x.isName = false) :
    x.effect write = 1 := by
  simp [Expr.effect, h]

@[simp] theorem Expr.effect_false (x : Expr) : x.effect false = 1 := rfl

theorem varDefsEffect_eq_countP (vs : List VarDef) :
    varDefsEffect vs = vs.countP fun v => match v with | .mk _ _ init => init.isSome := by
  induction vs with
  | nil => rfl
  | cons v vs ih =>
    obtain ⟨p, name, init⟩ := v
    simp only [varDefsEffect, List.map_cons, List.sum_cons, List.countP_cons] at ih ⊢
    rw [ih, VarDef.effect, Nat.add_comm]

theorem saturated_list {items : List Code} (h : ∀ c ∈ items, c.Saturated) :
    (Code.list items).Saturated := by
  intro x hx
  rcases List.mem_cons.1 (by simpa [Code.nodes] using hx) with rfl | hx
  · trivial
  · exact forall_nodesOf.2 h x hx

namespace Gen

theorem leaves_push {pos : Position} {c : Code} (h : c.Saturated) : (push pos c).Leaves 0 1 := by
  intro g g' _ hr
  rw [run_push] at hr
  cases hr
  exact ⟨Nat.zero_le _, [⟨pos, c⟩], rfl, by simp, by simpa using h⟩

theorem leaves_pure : (pure () : Gen Unit).Leaves 0 0 := by
  intro g g' _ hr
  cases hr
  exact ⟨Nat.zero_le _, [], rfl, by simp, by simp⟩

theorem leaves_throw {k j : Nat} (e : GenerateError) : (throw e : Gen Unit).Leaves k j := by
  intro g g' _ hr
  simp [throw, throwThe, MonadExceptOf.throw, StateT.run, StateT.lift, bind, Except.bind] at hr

theorem Leaves.cast {m : Gen Unit} {k k' j : Nat} (h : m.Leaves k j) (hk : k = k') :
    m.Leaves k' j :=
  hk ▸ h

/-- An operation is checked and put on the stack. -/
theorem leaves_checked {pos : Position} {c : Code} (h : c.Fits → c.Saturated) :
    (checked c >>= push pos).Leaves 0 1 :=
  (takes_checked c).then_leaves (l := 0) fun _ hd => leaves_push (hd.1 ▸ h hd.2)

theorem takes_leaveLambda {body : Code} (h : body.Saturated) :
    (leaveLambda body).Takes 0 Code.Saturated := by
  refine takes_get.bind (l := 0) fun g _ => takes_leaveRegion.bind (l := 0) fun _ _ => ?_
  split
  · exact takes_throw _
  · refine Takes.bind (l := 0) (takes_modify fun _ => rfl) fun _ _ => takes_pure ?_
    simpa [Code.Saturated, Code.nodes, Code.Fits] using h

theorem takes_global {pos : Position} {name : Bytes} {site : Nat} :
    (checked (globalCode pos name site)).Takes 0 Code.Saturated :=
  (takes_checked _).mono fun _ h => h.1 ▸ saturated_dynamic h.2 (by simp [saturated_globalsCode])

theorem takes_setGlobal {pos : Position} {name : Bytes} {x : Code} {site : Nat}
    (hx : x.Saturated) : (checked (setGlobalCode pos name x site)).Takes 0 Code.Saturated :=
  (takes_checked _).mono fun _ h =>
    h.1 ▸ saturated_dynamic h.2 (by simp [saturated_globalsCode, hx])

theorem takes_load (roots : List (Bytes × Namespace)) (pos : Position) (name : Bytes)
    (ref : Referent) : (load roots pos name ref).Takes 0 Code.Saturated := by
  refine takes_newSite.bind (l := 0) fun site _ => ?_
  have variable_ (sym : Symbol) : (do return .var (← variableOf sym) : Gen Code).Takes 0
      Code.Saturated :=
    (takes_variableOf sym).bind (l := 0) fun _ _ =>
      takes_pure (by simp [Code.Saturated, Code.nodes, Code.Fits])
  cases ref with
  | undeclared => exact takes_throw _
  | predeclared => exact takes_global
  | symbol sym =>
    dsimp only
    split
    · exact variable_ sym
    · exact variable_ sym
    · exact takes_global
    · split
      · exact takes_pure (saturated_constant _)
      · exact takes_throw _

theorem takes_store (pos : Position) (name : Bytes) (ref : Referent) {x : Code}
    (hx : x.Saturated) : (store pos name ref x).Takes 0 Code.Saturated := by
  refine takes_newSite.bind (l := 0) fun site _ => ?_
  have variable_ (sym : Symbol) : (do return .assign (← variableOf sym) x : Gen Code).Takes 0
      Code.Saturated :=
    (takes_variableOf sym).bind (l := 0) fun _ _ =>
      takes_pure (by simpa [Code.Saturated, Code.nodes, Code.Fits] using hx)
  cases ref with
  | undeclared => exact takes_throw _
  | predeclared => exact takes_setGlobal hx
  | symbol sym =>
    dsimp only
    split
    · exact variable_ sym
    · exact variable_ sym
    · exact takes_setGlobal hx
    · exact takes_throw _

/-- Leaving an operation whose operands are the `k` topmost items. -/
theorem leaves_operation (debug : Bool) (k : Nat) (pos : Position) (kind : SiteKind)
    (at_ : Position) (name : Bytes) (arity : Nat) :
    (do
      let operands ← popN debug k
      let site ← newSite
      let c ← checked (dynamicCode kind at_ name arity operands site)
      push pos c : Gen Unit).Leaves k 1 :=
  (takes_popN debug k).then_leaves (l := 0) fun _ hcs =>
    takes_newSite.then_leaves (l := 0) fun _ _ =>
      leaves_checked fun h => saturated_dynamic h hcs.2

/-- Leaving an assignment to something else than a name. -/
theorem leaves_assignment {p pos : Position} {value : Code} (hv : value.Saturated) :
    (do
      let t ← popRaw
      let site ← newSite
      let c := assignCode p t.code value site
      if c.isAbsent then throw (.badTarget p)
      let c ← checked c
      push pos c : Gen Unit).Leaves 1 1 := by
  refine takes_popRaw.then_leaves (l := 0) fun t ht =>
    takes_newSite.then_leaves (l := 0) fun site _ => ?_
  dsimp only
  split
  · exact (takes_throw (k := 0) (Q := fun _ => True) _).then_leaves (l := 0) fun _ _ =>
      leaves_checked fun h => saturated_assignCode ht hv h
  · exact leaves_checked fun h => saturated_assignCode ht hv h

theorem leaves_afterExpr (debug : Bool) (roots : List (Bytes × Namespace)) (s : Surroundings)
    (write : Bool) (e : Expr) : (afterExpr debug roots s write e).Leaves e.pops (e.effect write) := by
  cases e with
  | literal _ _ v =>
    rw [Expr.effect_eq_one rfl]
    exact leaves_push (saturated_constant _)
  | null =>
    rw [Expr.effect_eq_one rfl]
    exact leaves_push (saturated_constant _)
  | name p name =>
    cases write with
    | true => exact leaves_pure
    | false => exact (takes_load roots p name _).then_leaves (l := 0) fun _ h => leaves_push h
  | unary p op x =>
    rw [Expr.effect_eq_one rfl]
    exact (takes_pop debug).then_leaves (l := 0) fun _ hx =>
      takes_newSite.then_leaves (l := 0) fun _ _ =>
        leaves_checked fun h => saturated_unaryCode hx h
  | binary x p op y =>
    rw [Expr.effect_eq_one rfl]
    exact (takes_pop debug).then_leaves (l := 1) fun _ hy =>
      (takes_pop debug).then_leaves (l := 0) fun _ hx =>
        takes_newSite.then_leaves (l := 0) fun _ _ =>
          leaves_checked fun h => saturated_binaryCode hx hy h
  | assign target p y =>
    rw [Expr.effect_eq_one rfl]
    cases target with
    | name q name =>
      exact (takes_pop debug).then_leaves (l := 0) fun _ hv =>
        (takes_store p name (s.refer name) hv).then_leaves (l := 0) fun _ h => leaves_push h
    | _ =>
      exact (takes_pop debug).then_leaves (l := 1) fun _ hv => leaves_assignment hv
  | index x l args r =>
    rw [Expr.effect_eq_one rfl, Expr.pops, Nat.add_comm]
    exact leaves_operation debug (1 + args.length) _ .getIndex l [] args.length
  | member x dot p name =>
    rw [Expr.effect_eq_one rfl]
    exact (takes_pop debug).then_leaves (l := 0) fun _ hx =>
      takes_newSite.then_leaves (l := 0) fun _ _ =>
        leaves_checked fun h => saturated_dynamic h (by simpa using hx)
  | method x dot p name l args r =>
    rw [Expr.effect_eq_one rfl, Expr.pops, Nat.add_comm]
    exact leaves_operation debug (1 + args.length) _ .call l name args.length
  | call p name l args r =>
    rw [Expr.effect_eq_one rfl]
    exact (takes_popN debug args.length).then_leaves (l := 0) fun _ hcs =>
      takes_newSite.then_leaves (l := 0) fun _ _ =>
        takes_global.then_leaves (l := 0) fun _ hf =>
          takes_newSite.then_leaves (l := 0) fun _ _ =>
            leaves_checked fun h => saturated_dynamic h (by simpa [hf] using hcs.2)
  | new p type l args r =>
    rw [Expr.effect_eq_one rfl, Expr.pops, Nat.add_comm]
    exact leaves_operation debug (1 + args.length) _ .create p [] args.length
  | list l items r =>
    rw [Expr.effect_eq_one rfl]
    exact (takes_popN debug items.length).then_leaves (l := 0) fun _ hcs =>
      leaves_push (saturated_list hcs.2)
  | template b =>
    rw [Expr.effect_eq_one rfl]
    exact (takes_pop debug).then_leaves (l := 0) fun _ hb =>
      (takes_declare _).then_leaves (l := 0) fun _ _ => leaves_push (saturated_templateCode hb)

theorem leaves_afterStmt (debug : Bool) (st : Stmt) :
    (afterStmt debug st).Leaves st.pops st.pushes := by
  cases st with
  | block b => exact leaves_pure
  | expr x => exact leaves_pure
  | text p text => exact leaves_push (saturated_contextCode (by simp [saturated_constant]))
  | define p vars =>
    rw [Stmt.pops, varDefsEffect_eq_countP]
    exact (takes_popN debug _).then_leaves (l := 0) fun _ hcs =>
      leaves_push (saturated_sequenceCode hcs.2)
  | output p xs =>
    refine (takes_popN debug _).then_leaves (l := 0) fun cs hcs =>
      leaves_push (saturated_sequenceCode fun c hc => ?_)
    obtain ⟨d, hd, rfl⟩ := List.mem_map.1 hc
    exact saturated_outputCode (hcs.2 d hd)
  | ret p result =>
    refine takes_get.then_leaves (k := 0) (l := optEffect result) (j := 1) ?_ |>.cast
      (Nat.zero_add _)
    intro g _
    split
    · exact leaves_throw _
    · refine (takes_popIf debug result.isSome).then_leaves (l := 0) fun o ho =>
        leaves_push ?_
      simpa [Code.Saturated, Code.nodes, Code.Fits] using saturated_getD ho (saturated_constant _)
  | cond p test yes no =>
    refine (takes_popIf debug no.isSome).then_leaves (l := 2) fun n hn =>
      (takes_pop debug).then_leaves (l := 1) fun y hy =>
        (takes_pop debug).then_leaves (l := 0) fun c hc => leaves_push ?_
    have hn := saturated_getD (c := .absent) hn (by simp [Code.Saturated, Code.nodes])
    simpa [Code.Saturated, Code.nodes, Code.Fits, or_imp, forall_and] using ⟨hc, hy, hn⟩
  | loop p test body =>
    exact (takes_pop debug).then_leaves (l := 1) fun _ hb =>
      (takes_pop debug).then_leaves (l := 0) fun _ ht =>
        takes_leaveLoop.then_leaves (l := 0) fun _ _ => leaves_push (saturated_whileCode ht hb)
  | each p vp var x filter body between =>
    refine (takes_popIf debug between.isSome).then_leaves (l := 1 + (optEffect filter + 1))
      fun n hn => (takes_pop debug).then_leaves (l := optEffect filter + 1) fun b hb =>
        (takes_popIf debug filter.isSome).then_leaves (l := 1) fun w hw =>
          (takes_pop debug).then_leaves (l := 0) fun src hs =>
            takes_leaveRegion.then_leaves (l := 0) fun _ _ =>
              takes_leaveState.then_leaves (l := 0) fun _ _ =>
                takes_leaveLoop.then_leaves (l := 0) fun _ _ => leaves_push ?_
    exact saturated_forCode (saturated_filterCode hs hw) hb
      (saturated_getD hn (by simp [Code.Saturated, Code.nodes, Code.Fits]))
  | leave p =>
    exact takes_topLoop.then_leaves (l := 0) fun _ _ =>
      leaves_push (by simp [Code.Saturated, Code.nodes, Code.Fits])
  | again p =>
    exact takes_topLoop.then_leaves (l := 0) fun _ _ =>
      leaves_push (by simp [Code.Saturated, Code.nodes, Code.Fits])
  | switch p x cases dflt r =>
    exact (takes_popIf debug dflt.isSome).then_leaves (l := cases.length + 1) fun _ hd =>
      (takes_popArms p cases.length).then_leaves (l := 1) fun _ ha =>
        (takes_pop debug).then_leaves (l := 0) fun _ hx =>
          takes_newSite.then_leaves (l := 0) fun _ _ => leaves_push (saturated_switchCode hx ha hd)

/-- Leaving a node takes the items of its children and puts its own there. -/
theorem leaves_after (debug : Bool) (roots : List (Bytes × Namespace)) (s : Surroundings)
    (n : SyntaxNode) : (after debug roots s n).Leaves n.pops n.pushes := by
  cases n with
  | module m =>
    refine (takes_popN debug _).then_leaves (l := 0) fun cs hcs =>
      takes_get.then_leaves (l := 0) fun g _ => leaves_push ?_
    have body : (Code.block [] (cs ++ [Code.empty])).Saturated := by
      apply saturated_block
      simpa [or_imp, forall_and, Code.Saturated, Code.nodes, Code.Fits] using hcs.2
    simpa [Code.Saturated, Code.nodes, Code.Fits] using body
  | load | param | memberName | arguments | memberCall => exact leaves_pure
  | function f =>
    refine (takes_pop debug).then_leaves (l := 0) fun body hb =>
      takes_get.then_leaves (l := 0) fun g _ => ?_
    split
    · exact leaves_throw _
    · refine (takes_leaveLambda ?_).then_leaves (l := 0) fun fn hf =>
        takes_newSite.then_leaves (l := 0) fun _ _ =>
          (takes_setGlobal hf).then_leaves (l := 0) fun _ h => leaves_push h
      apply saturated_block
      simpa [or_imp, forall_and, Code.Saturated, Code.nodes, Code.Fits] using hb
  | block b base external =>
    have items (vars : List Variable) :
        (popN debug b.stmts.length >>= fun cs => push b.span.first (.block vars cs)).Leaves
          b.stmts.length 1 :=
      (takes_popN debug _).then_leaves (l := 0) fun _ hcs => leaves_push (saturated_block hcs.2)
    cases external with
    | true => exact items []
    | false =>
      exact (takes_leaveRegion.then_leaves (l := b.stmts.length) fun vars _ => items vars).cast
        (Nat.zero_add _)
  | stmt st => exact leaves_afterStmt debug st
  | varDef v =>
    obtain ⟨p, name, init⟩ := v
    cases init with
    | none => exact leaves_pure
    | some x =>
      exact (takes_pop debug).then_leaves (l := 0) fun _ hx =>
        (takes_store p name (s.refer name) hx).then_leaves (l := 0) fun _ h => leaves_push h
  | filter var w =>
    exact (takes_pop debug).then_leaves (l := 0) fun _ hb =>
      (takes_leaveLambda hb).then_leaves (l := 0) fun _ h => leaves_push h
  | arm c =>
    obtain ⟨p, values, body⟩ := c
    refine Leaves.cast ((takes_pop debug).then_leaves (l := values.length) fun b hb =>
      (takes_popN debug values.length).then_leaves (l := 0) fun cs hcs => leaves_push ?_)
      (Nat.add_comm _ _)
    intro x hx
    simp only [Code.nodes, List.mem_cons, List.mem_append] at hx
    rcases hx with rfl | hx | hx
    · trivial
    · exact forall_nodesOf.2 hcs.2 x hx
    · exact hb x hx
  | expr x write => exact leaves_afterExpr debug roots s write x

/-- Nothing is put on the stack or taken from it when a node is entered. -/
theorem takes_before (n : SyntaxNode) : (before n).Takes 0 fun _ => True := by
  have enterLambda (name : Bytes) (params : List Bytes) (ret : Option Target) :
      (enterLambda name params ret).Takes 0 fun _ => True :=
    takes_modify fun _ => rfl
  cases n with
  | module m => exact takes_modify fun _ => rfl
  | function f =>
    refine takes_of_stack_eq fun g a g' hr => ?_
    cases hr
    exact ⟨rfl, trivial⟩
  | filter var w => exact enterLambda _ _ _
  | block b base external =>
    cases external with
    | false => exact (takes_declare _).bind (l := 0) fun _ _ => takes_modify fun _ => rfl
    | true =>
      refine takes_get.bind (l := 0) fun g _ => ?_
      split
      · exact takes_modify fun _ => rfl
      · exact takes_throw _
  | stmt st =>
    cases st with
    | each p vp var x filter body between =>
      exact (takes_declare _).bind (l := 0) fun _ _ => (takes_declare _).bind (l := 0) fun _ _ =>
        Takes.bind (l := 0) (takes_modify fun _ => rfl) fun _ _ => takes_modify fun _ => rfl
    | loop p test body => exact takes_modify fun _ => rfl
    | _ => exact takes_pure trivial
  | _ => exact takes_pure trivial

/-! ### Runs of events -/

section Runs

variable {debug : Bool} {roots : List (Bytes × Namespace)} {g g' : Generator}
  {s : Surroundings} {n : SyntaxNode} {es fs : List Event}

/-- The events are dealt with without failure, from one state to another. -/
def Runs (debug : Bool) (roots : List (Bytes × Namespace)) (es : List Event) (g g' : Generator) :
    Prop :=
  (steps debug roots es).run g = .ok ((), g')

theorem run_bind_of_ok {α β : Type} {m : Gen α} {f : α → Gen β} {a : α}
    (h : m.run g = .ok (a, g')) : (m >>= f).run g = (f a).run g' := by
  rw [StateT.run_bind, h]
  rfl

theorem runs_nil : Runs debug roots [] g g' ↔ g' = g := by
  constructor
  · intro h
    cases h
    rfl
  · rintro rfl
    rfl

theorem runs_cons {e : Event} : Runs debug roots (e :: es) g g' ↔
    ∃ g₁, (step debug roots e).run g = .ok ((), g₁) ∧ Runs debug roots es g₁ g' := by
  constructor
  · intro h
    obtain ⟨_, g₁, h₁, h₂⟩ := run_bind_ok h
    exact ⟨g₁, h₁, h₂⟩
  · rintro ⟨g₁, h₁, h₂⟩
    exact (run_bind_of_ok h₁).trans h₂

theorem runs_append : Runs debug roots (es ++ fs) g g' ↔
    ∃ g₁, Runs debug roots es g g₁ ∧ Runs debug roots fs g₁ g' := by
  induction es generalizing g with
  | nil => simp [runs_nil]
  | cons e es ih =>
    simp only [List.cons_append, runs_cons, ih]
    constructor
    · rintro ⟨g₁, h₁, g₂, h₂, h₃⟩
      exact ⟨g₂, ⟨g₁, h₁, h₂⟩, h₃⟩
    · rintro ⟨g₂, ⟨g₁, h₁, h₂⟩, h₃⟩
      exact ⟨g₁, h₁, g₂, h₂, h₃⟩

theorem runs_visit : Runs debug roots (visit n s es) g g' ↔
    ∃ g₁ g₂, (before n).run g = .ok ((), g₁) ∧ Runs debug roots es g₁ g₂ ∧
      (after debug roots s n).run g₂ = .ok ((), g') := by
  simp only [visit, runs_cons, runs_append, runs_nil]
  constructor
  · rintro ⟨g₁, h₁, g₂, h₂, g₃, h₃, rfl⟩
    exact ⟨g₁, g₂, h₁, h₂, h₃⟩
  · rintro ⟨g₁, g₂, h₁, h₂, h₃⟩
    exact ⟨g₁, h₁, g₂, h₂, g', h₃, rfl⟩

/-- A step keeps the stack sound. -/
theorem sound_step {e : Event} (hg : g.Sound) (h : (step debug roots e).run g = .ok ((), g')) :
    g'.Sound := by
  cases e with
  | enter n s => exact sound_of_drop hg (takes_before n g () g' hg h).2.1
  | leave n s =>
    obtain ⟨-, items, -, hs, hi⟩ := leaves_after debug roots s n g g' hg h
    intro i hm
    rw [hs] at hm
    rcases List.mem_append.1 hm with hm | hm
    · exact hi i hm
    · exact hg i (List.mem_of_mem_drop hm)

/-- The stack is sound throughout a run. -/
theorem sound_runs (hg : g.Sound) (h : Runs debug roots es g g') : g'.Sound := by
  induction es generalizing g with
  | nil => rwa [runs_nil.1 h]
  | cons e es ih =>
    obtain ⟨g₁, h₁, h₂⟩ := runs_cons.1 h
    exact ih (sound_step hg h₁) h₂

/-- Whenever the events run from a sound stack, `j` saturated items come on top of it. -/
def Adds (debug : Bool) (roots : List (Bytes × Namespace)) (es : List Event) (j : Nat) : Prop :=
  ∀ g g', g.Sound → Runs debug roots es g g' → ∃ items : List Item, items.length = j ∧
    g'.stack = items ++ g.stack ∧ ∀ i ∈ items, i.code.Saturated

theorem adds_nil : Adds debug roots [] 0 := by
  intro g g' _ h
  rw [runs_nil] at h
  exact ⟨[], rfl, by simp [h], by simp⟩

theorem Adds.append {j k : Nat} (h : Adds debug roots es j) (h' : Adds debug roots fs k) :
    Adds debug roots (es ++ fs) (j + k) := by
  intro g g' hg hr
  obtain ⟨g₁, h₁, h₂⟩ := runs_append.1 hr
  obtain ⟨is, hj, hs, hi⟩ := h g g₁ hg h₁
  obtain ⟨is', hk, hs', hi'⟩ := h' g₁ g' (sound_runs hg h₁) h₂
  refine ⟨is' ++ is, by simp [hj, hk, Nat.add_comm], by simp [hs', hs], ?_⟩
  intro i hm
  rcases List.mem_append.1 hm with hm | hm
  · exact hi' i hm
  · exact hi i hm

/-- The children leave what the node takes, and `k` items more. -/
theorem Adds.visit {k j : Nat} (h : Adds debug roots es (n.pops + k)) (hj : n.pushes + k = j) :
    Adds debug roots (visit n s es) j := by
  intro g g' hg hr
  obtain ⟨g₁, g₂, h₁, h₂, h₃⟩ := runs_visit.1 hr
  obtain ⟨-, hs₁, -⟩ := takes_before n g () g₁ hg h₁
  have hg₁ := sound_of_drop hg hs₁
  obtain ⟨is, hl, hs₂, hi⟩ := h g₁ g₂ hg₁ h₂
  obtain ⟨-, is', hl', hs₃, hi'⟩ :=
    leaves_after debug roots s n g₂ g' (sound_runs hg₁ h₂) h₃
  refine ⟨is' ++ is.drop n.pops, by simp [hl, hl']; omega, ?_, ?_⟩
  · rw [hs₃, hs₂, hs₁, List.drop_append_of_le_length (by omega)]
    simp
  · intro i hm
    rcases List.mem_append.1 hm with hm | hm
    · exact hi' i hm
    · exact hi i (List.mem_of_mem_drop hm)

theorem Adds.cast {j k : Nat} (h : Adds debug roots es j) (hj : j = k) : Adds debug roots es k :=
  hj ▸ h

theorem Adds.flatMap {α : Type} {f : α → List Event} {j : Nat}
    (h : ∀ a, Adds debug roots (f a) j) (as : List α) :
    Adds debug roots (as.flatMap f) (as.length * j) := by
  induction as with
  | nil => exact adds_nil.cast (by simp)
  | cons a as ih =>
    rw [List.flatMap_cons]
    exact ((h a).append ih).cast (by simp [Nat.succ_mul, Nat.add_comm])

/-! ### The visit of every node -/

variable (debug roots) in
/-- A node without children that puts its own items on the stack. -/
theorem adds_leaf (n : SyntaxNode) (s : Surroundings) (h : n.pops = 0) :
    Adds debug roots (Stencil.visit n s []) n.pushes :=
  Adds.visit (k := 0) (adds_nil.cast (by simp [h])) rfl

mutual

theorem adds_expr (s : Surroundings) (write : Bool) :
    (x : Expr) → Adds debug roots (x.walk s write) (x.effect write)
  | .literal .. | .null _ | .name .. => adds_leaf debug roots _ s rfl
  | .unary _ _ x => Adds.visit (k := 0) (adds_expr s false x) rfl
  | .binary x _ _ y =>
    Adds.visit (k := 0) ((adds_expr s false x).append (adds_expr s false y)) rfl
  | .assign x _ y => by
    refine Adds.visit (k := 0) (((adds_expr s true x).append (adds_expr s false y)).cast ?_) rfl
    cases h : x.isName <;> simp [SyntaxNode.pops, Expr.pops, Expr.effect, h]
  | .index x _ args _ =>
    Adds.visit (k := 0) (((adds_expr s false x).append
      (Adds.visit (k := args.length) ((adds_exprs s args).cast (Nat.zero_add _).symm)
        (Nat.zero_add _))).cast (Nat.add_comm _ _)) rfl
  | .member x _ _ name =>
    Adds.visit (k := 0) ((adds_expr s false x).append (adds_leaf debug roots (.memberName name) s rfl)) rfl
  | .method x _ _ name _ args _ =>
    Adds.visit (k := 0) (((adds_expr s false x).append
      (Adds.visit (k := args.length) ((adds_exprs s args).cast (Nat.zero_add _).symm)
        (Nat.zero_add _))).cast (Nat.add_comm _ _)) rfl
  | .call _ _ _ args _ => Adds.visit (k := 0) (adds_exprs s args) rfl
  | .new _ type _ args _ =>
    Adds.visit (k := 0) (((adds_expr s false type).append (adds_exprs s args)).cast
      (Nat.add_comm _ _)) rfl
  | .list _ items _ => Adds.visit (k := 0) (adds_exprs s items) rfl
  | .template b => Adds.visit (k := 0) (adds_block { s with loops := 0 } {} false b) rfl

theorem adds_exprs (s : Surroundings) :
    (xs : List Expr) → Adds debug roots (exprsWalk s xs) xs.length
  | [] => adds_nil
  | x :: xs => ((adds_expr s false x).append (adds_exprs s xs)).cast (Nat.add_comm _ _)

theorem adds_block (s : Surroundings) (base : Scope) (external : Bool) :
    (b : Block) → Adds debug roots (b.walk s base external) 1
  | .mk _ stmts _ _ => Adds.visit (k := 0) (adds_stmts _ stmts) rfl

theorem adds_optBlock (s : Surroundings) :
    (b : Option Block) → Adds debug roots (optBlockWalk s b) (optEffect b)
  | none => adds_nil
  | some b => adds_block s {} false b

theorem adds_stmts (s : Surroundings) :
    (sts : List Stmt) → Adds debug roots (stmtsWalk s sts) sts.length
  | [] => adds_nil
  | st :: sts => ((adds_stmt s st).append (adds_stmts s sts)).cast (Nat.add_comm _ _)

theorem adds_varDefs (s : Surroundings) :
    (vs : List VarDef) → Adds debug roots (varDefsWalk s vs) (varDefsEffect vs)
  | [] => adds_nil
  | v :: vs => (adds_varDef s v).append (adds_varDefs s vs)

theorem adds_varDef (s : Surroundings) :
    (v : VarDef) → Adds debug roots (v.walk s) v.effect
  | .mk _ _ none => adds_leaf debug roots _ s rfl
  | .mk _ _ (some x) => Adds.visit (k := 0) (adds_expr s false x) rfl

theorem adds_cases (s : Surroundings) :
    (cs : List SwitchCase) → Adds debug roots (casesWalk s cs) cs.length
  | [] => adds_nil
  | c :: cs => ((adds_case s c).append (adds_cases s cs)).cast (Nat.add_comm _ _)

theorem adds_case (s : Surroundings) : (c : SwitchCase) → Adds debug roots (c.walk s) 1
  | .mk _ values body =>
    Adds.visit (k := 0) ((adds_exprs s values).append (adds_block s {} false body)) rfl

theorem adds_where (s : Surroundings) (var : Bytes) :
    (w : WhereClause) → Adds debug roots (w.walk s var) 1
  | .mk _ x => Adds.visit (k := 0) (adds_expr _ false x) rfl

theorem adds_optWhere (s : Surroundings) (var : Bytes) :
    (w : Option WhereClause) → Adds debug roots (optWhereWalk s var w) (optEffect w)
  | none => adds_nil
  | some w => adds_where s var w

theorem adds_stmt (s : Surroundings) : (st : Stmt) → Adds debug roots (st.walk s) 1
  | .block b => adds_block s {} false b
  | .text .. | .leave _ | .again _ | .ret _ none => adds_leaf debug roots _ s rfl
  | .define _ vars => Adds.visit (k := 0) (adds_varDefs s vars) rfl
  | .output _ xs => Adds.visit (k := 0) (adds_exprs s xs) rfl
  | .expr x =>
    -- the item of the expression stays on the stack as that of the statement
    Adds.visit (k := 1) (adds_expr s false x) rfl
  | .ret _ (some x) => Adds.visit (k := 0) (adds_expr s false x) rfl
  | .cond _ test yes no =>
    Adds.visit (k := 0) ((((adds_expr s false test).append (adds_block s {} false yes)).append
      (adds_optBlock s no)).cast (Nat.add_comm _ _)) rfl
  | .loop _ test body =>
    Adds.visit (k := 0) ((adds_expr _ false test).append (adds_block _ {} false body)) rfl
  | .each _ _ var x filter body between => by
    refine Adds.visit (k := 0) ((((adds_expr _ false x).append (adds_optWhere _ var filter)).append
      (adds_block _ _ true body)).append (adds_optBlock _ between) |>.cast ?_) rfl
    simp only [SyntaxNode.pops, Stmt.pops, Expr.effect_false]
    omega
  | .switch _ x cases dflt _ => by
    refine Adds.visit (k := 0) (((adds_expr _ false x).append (adds_cases _ cases)).append
      (adds_optBlock _ dflt) |>.cast ?_) rfl
    simp only [SyntaxNode.pops, Stmt.pops, Expr.effect_false]
    omega

end

theorem adds_function (s : Surroundings) (f : FunctionDecl) : Adds debug roots (f.walk s) 1 := by
  refine Adds.visit (k := 0) ?_ rfl
  exact ((Adds.flatMap (fun p => adds_leaf debug roots (.param p) s rfl) f.params).append
    (adds_block _ {} false f.body)).cast (by simp [SyntaxNode.pops])

theorem adds_def (s : Surroundings) (d : GlobalDef) : Adds debug roots (d.walk s) 1 :=
  Adds.visit (k := 0) (adds_varDefs s d.vars) rfl

/-- The visit of a node adds to the stack what its kind says. -/
theorem adds_walk (s : Surroundings) (n : SyntaxNode) : Adds debug roots (n.walk s) n.effect := by
  cases n with
  | module m =>
    refine Adds.visit (k := 0) ?_ rfl
    exact ((((Adds.flatMap (fun l => adds_leaf debug roots (.load l) s rfl) m.loads).append
      (Adds.flatMap (adds_function s) m.functions)).append
      (Adds.flatMap (adds_def s) m.defs)).append (adds_stmts s m.stmts)).cast
        (by simp [SyntaxNode.pops])
  | load | param | memberName => exact adds_leaf debug roots _ s rfl
  | function f => exact adds_function s f
  | block b base external => exact adds_block s base external b
  | stmt st => exact adds_stmt s st
  | varDef v => exact adds_varDef s v
  | filter var w => exact adds_where s var w
  | arm c => exact adds_case s c
  | expr x write => exact adds_expr s write x
  | arguments args | memberCall _ args =>
    exact Adds.visit (k := args.length) ((adds_exprs s args).cast (Nat.zero_add _).symm)
      (Nat.zero_add _)

/-- The walk over a module is the visit of its node. -/
theorem walk_module (m : Module) (isPredeclared : Bytes → Bool) (names : List Bytes) :
    m.walk isPredeclared names =
      (SyntaxNode.module m).walk (m.surroundings isPredeclared names) := rfl

end Runs

end Gen

end Stencil
