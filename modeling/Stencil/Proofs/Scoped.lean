import Stencil.Proofs.Generation.Acceptance
import Stencil.Proofs.Syntax.TopLevel

/-!
# Well-scoped constructs

What the meaning of a construct relies on, said along the tree: every name that is read has
a meaning and every name that is assigned to is a variable, a `return` has a function around
it, and a `break` or `continue` a loop. `inLoop` tells whether a loop may be left; what a
template writes is a text, so no loop around the template can be left from inside it.

Analysis accepts only modules that are well-scoped.
-/

namespace Stencil

/-- Whether a name can be assigned to. -/
def LowerEnv.canWrite (env : LowerEnv) (name : Bytes) : Bool :=
  match env.meaning? name with
  | some (.slot _) | some .global => true
  | _ => false

mutual

/-- The names in an expression have a meaning. -/
def Expr.Scoped (env : LowerEnv) : Expr → Numbering → Prop
  | .literal .., _ | .null _, _ => True
  | .name _ name, _ => (env.meaning? name).isSome = true
  | .unary _ _ x, n | .member x _ _ _, n => x.Scoped env n
  | .binary x _ _ y, n => x.Scoped env n ∧ y.Scoped env (x.after n)
  | .assign target _ y, n =>
    match target with
    | .name _ name => env.canWrite name = true ∧ y.Scoped env n
    | .member x _ _ _ => x.Scoped env n ∧ y.Scoped env (x.after n).nextSite
    | .index x _ args _ =>
      x.Scoped env n ∧ exprsScoped env args (x.after n) ∧
        y.Scoped env (exprsAfter args (x.after n)).nextSite
    | _ => False
  | .index x _ args _, n | .method x _ _ _ _ args _, n | .new _ x _ args _, n =>
    x.Scoped env n ∧ exprsScoped env args (x.after n)
  | .call _ _ _ args _, n | .list _ args _, n => exprsScoped env args n
  | .template b, n => b.Scoped env false n

/-- The names in several expressions have a meaning. -/
def exprsScoped (env : LowerEnv) : List Expr → Numbering → Prop
  | [], _ => True
  | x :: xs, n => x.Scoped env n ∧ exprsScoped env xs (x.after n)

/-- A block with a region of its own is well-scoped. -/
def Block.Scoped (env : LowerEnv) (inLoop : Bool) : Block → Numbering → Prop
  | b@(.mk _ stmts _ _), n =>
    stmtsScoped (env.within (env.newSlots n b.names)) inLoop stmts (n.declare b.names.length)

/-- The body of a loop, whose region belongs to the loop, is well-scoped. -/
def Block.ScopedBody (env : LowerEnv) (inLoop : Bool) : Block → Numbering → Prop
  | .mk _ stmts _ _, n => stmtsScoped env inLoop stmts n

/-- Several statements are well-scoped. -/
def stmtsScoped (env : LowerEnv) (inLoop : Bool) : List Stmt → Numbering → Prop
  | [], _ => True
  | st :: sts, n => st.Scoped env inLoop n ∧ stmtsScoped env inLoop sts (st.after n)

/-- Variables with initial values can be assigned to, and the values are well-scoped. -/
def varDefsScoped (env : LowerEnv) : List VarDef → Numbering → Prop
  | [], _ => True
  | v :: vs, n => v.Scoped env n ∧ varDefsScoped env vs (v.after n)

/-- A variable with an initial value can be assigned to, and the value is well-scoped. -/
def VarDef.Scoped (env : LowerEnv) : VarDef → Numbering → Prop
  | .mk _ _ none, _ => True
  | .mk _ name (some x), n => env.canWrite name = true ∧ x.Scoped env n

/-- The arms of a switch are well-scoped. -/
def casesScoped (env : LowerEnv) (inLoop : Bool) : List SwitchCase → Numbering → Prop
  | [], _ => True
  | c :: cs, n => c.Scoped env inLoop n ∧ casesScoped env inLoop cs (c.after n)

/-- An arm of a switch is well-scoped. -/
def SwitchCase.Scoped (env : LowerEnv) (inLoop : Bool) : SwitchCase → Numbering → Prop
  | .mk _ values body, n =>
    exprsScoped env values n ∧ body.Scoped env inLoop (exprsAfter values n)

/-- A block that may be missing is well-scoped. -/
def optBlockScoped (env : LowerEnv) (inLoop : Bool) : Option Block → Numbering → Prop
  | none, _ => True
  | some b, n => b.Scoped env inLoop n

/-- The condition on the elements of a loop over `var` is well-scoped. -/
def WhereClause.Scoped (env : LowerEnv) (var : Bytes) : WhereClause → Numbering → Prop
  | .mk _ x, n => x.Scoped (env.inLambda n "where" [var] none) (n.enter 1)

/-- A condition that may be missing is well-scoped. -/
def optWhereScoped (env : LowerEnv) (var : Bytes) : Option WhereClause → Numbering → Prop
  | none, _ => True
  | some w, n => w.Scoped env var n

/-- A statement is well-scoped. -/
def Stmt.Scoped (env : LowerEnv) (inLoop : Bool) : Stmt → Numbering → Prop
  | .block b, n => b.Scoped env inLoop n
  | .text .., _ => True
  | .define _ vars, n => varDefsScoped env vars n
  | .output _ xs, n => exprsScoped env xs n
  | .expr x, n => x.Scoped env n
  | .ret _ none, _ => env.ret.isSome = true
  | .ret _ (some x), n => env.ret.isSome = true ∧ x.Scoped env n
  | .cond _ test yes no, n =>
    test.Scoped env n ∧ yes.Scoped env inLoop (test.after n) ∧
      optBlockScoped env inLoop no (yes.after (test.after n))
  | .loop _ test body, n =>
    let env := env.inLoop n.loop
    test.Scoped env n.nextLoop ∧ body.Scoped env true (test.after n.nextLoop)
  | .each _ _ var x filter body between, n =>
    let vars := env.newSlots n (loopNames var body)
    let env := env.inLoop n.loop
    let n₁ := (n.declare ((loopNames var body).length + 1)).nextLoop
    let n₂ := x.after n₁
    let n₃ := optWhereAfter filter n₂
    x.Scoped env n₁ ∧ optWhereScoped env var filter n₂ ∧
      body.ScopedBody (env.within vars) true n₃ ∧
      optBlockScoped (env.within vars) true between (body.afterBody n₃)
  | .leave _, _ | .again _, _ => inLoop = true ∧ env.loops ≠ []
  | .switch _ x cases dflt _, n =>
    x.Scoped env n ∧ casesScoped env inLoop cases (x.after n) ∧
      optBlockScoped env inLoop dflt (casesAfter cases (x.after n))

end

/-- The functions of a module are well-scoped. -/
def functionsScoped (env : LowerEnv) : List FunctionDecl → Numbering → Prop
  | [], _ => True
  | f :: fs, n =>
    f.body.Scoped (env.inLambda n f.name (f.params.map (·.name)) (some ⟨n.targets, "return"⟩))
      false (n.nextTarget.enter f.params.length) ∧
    functionsScoped env fs (f.after n)

/-- The initial values of the global variables of a module are well-scoped. -/
def defsScoped (env : LowerEnv) : List GlobalDef → Numbering → Prop
  | [], _ => True
  | d :: ds, n => varDefsScoped env d.vars n ∧ defsScoped env ds (varDefsAfter d.vars n)

/-- A module is well-scoped. -/
def Module.Scoped (m : Module) (env : LowerEnv) : Prop :=
  let inner := { env with owner := 0, ownerName := contextVariable.ownerName }
  let n := functionsAfter m.functions .start
  functionsScoped inner m.functions .start ∧ defsScoped inner m.defs n ∧
    stmtsScoped inner false m.stmts (defsAfter m.defs n)

/-! ### Accepted modules are well-scoped -/

section Accepted

variable {env : LowerEnv} {s : Surroundings} {name : Bytes}

/-- A name that analysis accepts has a meaning. -/
theorem Matches.meaning_isSome (hm : Matches env s) (hr : s.refer name ≠ .undeclared) :
    (env.meaning? name).isSome = true := by
  rcases hm.refer_cases name hr with ⟨v, sym, hv, -⟩ | ⟨hv, ⟨sym, hf, -, hk⟩ | ⟨hf, hp, -⟩⟩
  · simp [LowerEnv.meaning?, hv]
  · rcases hk with hk | ⟨hk, hl⟩
    · simp [LowerEnv.meaning?, hv, hf, hk]
    · simpa [LowerEnv.meaning?, hv, hf, hk] using hl
  · simp [LowerEnv.meaning?, hv, hf, hp]

/-- A name that analysis lets be assigned to is a variable. -/
theorem Matches.canWrite (hm : Matches env s) (hs : s.Settable name) :
    env.canWrite name = true := by
  have hr : s.refer name ≠ .undeclared := by
    intro h
    simp [Surroundings.Settable, h] at hs
  rcases hm.refer_cases name hr with ⟨v, sym, hv, -⟩ | ⟨hv, ⟨sym, hf, hsym, hk⟩ | ⟨hf, hp, -⟩⟩
  · simp [LowerEnv.canWrite, LowerEnv.meaning?, hv]
  · rcases hk with hk | ⟨hk, -⟩
    · simp [LowerEnv.canWrite, LowerEnv.meaning?, hv, hf, hk]
    · simp [Surroundings.Settable, hsym, hk] at hs
  · simp [LowerEnv.canWrite, LowerEnv.meaning?, hv, hf, hp]

mutual

theorem scoped_expr {env : LowerEnv} {s : Surroundings} (hm : Matches env s) (write : Bool) :
    (x : Expr) → (n : Numbering) → Clean (x.findings s write) → x.Scoped env n
  | .literal .., _ | .null _, _ => fun _ => trivial
  | .name p name, _ => fun hc => by
    have hr : s.refer name ≠ .undeclared := by
      simpa [Expr.findings, Finding.isProblem] using hc
    exact hm.meaning_isSome hr
  | .unary p op x, n => fun hc => scoped_expr hm false x n hc
  | .binary x p op y, n => fun hc => by
    obtain ⟨⟨-, hx⟩, hy⟩ : (_ ∧ Clean (x.findings s false)) ∧ Clean (y.findings s false) := by
      simpa only [Expr.findings, clean_append] using hc
    exact ⟨scoped_expr hm false x n hx, scoped_expr hm false y _ hy⟩
  | .assign target p y, n => fun hc => by
    obtain ⟨⟨⟨-, ht⟩, hx⟩, hy⟩ : ((_ ∧ _) ∧ Clean (target.findings s true)) ∧
        Clean (y.findings s false) := by
      simpa only [Expr.findings, clean_append] using hc
    have ht : target.targetProblem? s = none := by
      split at ht
      · simp [Finding.isProblem] at ht
      · assumption
    have hy := fun k => scoped_expr hm false y k hy
    cases target with
    | name q name =>
      have hr : s.refer name ≠ .undeclared := by
        simpa [Expr.findings, Finding.isProblem] using hx
      exact ⟨hm.canWrite (settable_of_target ht hr), hy n⟩
    | member x dot q name => exact ⟨scoped_expr hm true (.member x dot q name) n hx, hy _⟩
    | index x l args r =>
      obtain ⟨hx, hargs⟩ := scoped_expr hm true (.index x l args r) n hx
      exact ⟨hx, hargs, hy _⟩
    | _ => simp [Expr.targetProblem?] at ht
  | .index x l args r, n => fun hc => by
    obtain ⟨⟨-, hx⟩, hargs⟩ : (_ ∧ Clean (x.findings s false)) ∧ Clean (exprsFindings s args) := by
      simpa only [Expr.findings, clean_append] using hc
    exact ⟨scoped_expr hm false x n hx, scoped_exprs hm args _ hargs⟩
  | .member x dot p name, n => fun hc => by
    obtain ⟨⟨-, hx⟩, -⟩ : (_ ∧ Clean (x.findings s false)) ∧ _ := by
      simpa only [Expr.findings, clean_append] using hc
    exact scoped_expr hm false x n hx
  | .method x dot p name l args r, n => fun hc => by
    obtain ⟨⟨-, hx⟩, -, hargs⟩ :
        (_ ∧ Clean (x.findings s false)) ∧ _ ∧ Clean (exprsFindings s args) := by
      simpa only [Expr.findings, clean_append, clean_cons] using hc
    exact ⟨scoped_expr hm false x n hx, scoped_exprs hm args _ hargs⟩
  | .call p name l args r, n => fun hc => by
    obtain ⟨-, -, hargs⟩ : _ ∧ _ ∧ Clean (exprsFindings s args) := by
      simpa only [Expr.findings, clean_append, clean_cons, List.cons_append] using hc
    exact scoped_exprs hm args n hargs
  | .new p type l args r, n => fun hc => by
    obtain ⟨ht, hargs⟩ : Clean (type.findings s false) ∧ Clean (exprsFindings s args) := by
      simpa only [Expr.findings, clean_append] using hc
    exact ⟨scoped_expr hm false type n ht, scoped_exprs hm args _ hargs⟩
  | .list l items r, n => fun hc => scoped_exprs hm items n hc
  | .template b, n => fun hc =>
    scoped_block hm.inTemplate (fun h => absurd h (Nat.lt_irrefl 0)) b n hc

theorem scoped_exprs {env : LowerEnv} {s : Surroundings} (hm : Matches env s) :
    (xs : List Expr) → (n : Numbering) → Clean (exprsFindings s xs) → exprsScoped env xs n
  | [], _ => fun _ => trivial
  | x :: xs, n => fun hc => by
    obtain ⟨hx, hxs⟩ := clean_append.1 hc
    exact ⟨scoped_expr hm false x n hx, scoped_exprs hm xs _ hxs⟩

theorem scoped_block {env : LowerEnv} {s : Surroundings} {inLoop : Bool} (hm : Matches env s)
    (hl : 0 < s.loops → inLoop = true) :
    (b : Block) → (n : Numbering) → Clean (b.findings s {} false) → b.Scoped env inLoop n
  | .mk l stmts r t, n => fun hc => by
    obtain ⟨-, -, hs⟩ : _ ∧ _ ∧ Clean (stmtsFindings _ stmts) := by
      simpa only [Block.findings, List.cons_append, clean_cons, clean_append] using hc
    have hbase : ∀ sym ∈ ({} : Scope).symbols, sym.kind = .localVar := by simp
    exact scoped_stmts (hm.within (sameNames_block hbase)) hl stmts _
      (fun st hst p hp => settable_of_declared hbase (List.mem_flatMap.2 ⟨st, hst, hp⟩)) hs

theorem scoped_body {env : LowerEnv} {s : Surroundings} (hm : Matches env s) :
    (b : Block) → (var : Bytes) → (vars : List Variable) → (n : Numbering) →
      SameNames (b.scope (Scope.single var .localVar)).1 vars →
      Clean (b.findings s (Scope.single var .localVar) true) →
      b.ScopedBody (env.within vars) true n
  | .mk l stmts r t => fun var vars n hn hc => by
    obtain ⟨-, -, hs⟩ : _ ∧ _ ∧ Clean (stmtsFindings _ stmts) := by
      simpa only [Block.findings, List.cons_append, clean_cons, clean_append] using hc
    have hbase : ∀ sym ∈ (Scope.single var .localVar).symbols, sym.kind = .localVar := by
      simp [Scope.single]
    exact scoped_stmts (hm.within hn) (fun _ => rfl) stmts _
      (fun st hst p hp => settable_of_declared hbase (List.mem_flatMap.2 ⟨st, hst, hp⟩)) hs

theorem scoped_optBlock {env : LowerEnv} {s : Surroundings} {inLoop : Bool} (hm : Matches env s)
    (hl : 0 < s.loops → inLoop = true) :
    (b : Option Block) → (n : Numbering) → Clean (optBlockFindings s b) →
      optBlockScoped env inLoop b n
  | none, _ => fun _ => trivial
  | some b, n => fun hc => scoped_block hm hl b n hc

theorem scoped_stmts {env : LowerEnv} {s : Surroundings} {inLoop : Bool} (hm : Matches env s)
    (hl : 0 < s.loops → inLoop = true) :
    (sts : List Stmt) → (n : Numbering) → (∀ st ∈ sts, ∀ p ∈ st.declares, s.Settable p.name) →
      Clean (stmtsFindings s sts) → stmtsScoped env inLoop sts n
  | [], _ => fun _ _ => trivial
  | st :: sts, n => fun hd hc => by
    obtain ⟨hst, hsts⟩ := clean_append.1 hc
    exact ⟨scoped_stmt hm hl st n (hd st (by simp)) hst,
      scoped_stmts hm hl sts _ (fun st' h => hd st' (by simp [h])) hsts⟩

theorem scoped_varDefs {env : LowerEnv} {s : Surroundings} (hm : Matches env s) :
    (vs : List VarDef) → (n : Numbering) →
      (∀ p name init, VarDef.mk p name init ∈ vs → s.Settable name) →
      Clean (varDefsFindings s vs) → varDefsScoped env vs n
  | [], _ => fun _ _ => trivial
  | .mk p name none :: vs, n => fun hd hc =>
    ⟨trivial, scoped_varDefs hm vs _ (fun q a i h => hd q a i (by simp [h])) hc⟩
  | .mk p name (some x) :: vs, n => fun hd hc => by
    obtain ⟨hx, hvs⟩ := clean_append.1 hc
    exact ⟨⟨hm.canWrite (hd p name (some x) (by simp)), scoped_expr hm false x n hx⟩,
      scoped_varDefs hm vs _ (fun q a i h => hd q a i (by simp [h])) hvs⟩

theorem scoped_cases {env : LowerEnv} {s : Surroundings} {inLoop : Bool} (hm : Matches env s)
    (hl : 0 < s.loops → inLoop = true) :
    (cs : List SwitchCase) → (n : Numbering) → Clean (casesFindings s cs) →
      casesScoped env inLoop cs n
  | [], _ => fun _ => trivial
  | .mk p values body :: cs, n => fun hc => by
    obtain ⟨⟨hv, hb⟩, hcs⟩ : (Clean (exprsFindings s values) ∧ Clean (body.findings s {} false)) ∧
        Clean (casesFindings s cs) := by
      simpa only [casesFindings, clean_append] using hc
    exact ⟨⟨scoped_exprs hm values n hv, scoped_block hm hl body _ hb⟩, scoped_cases hm hl cs _ hcs⟩

theorem scoped_optWhere {env : LowerEnv} {s : Surroundings} (hm : Matches env s) (var : Bytes) :
    (w : Option WhereClause) → (n : Numbering) → Clean (whereFindings s var w) →
      optWhereScoped env var w n
  | none, _ => fun _ => trivial
  | some (.mk _ x), n => fun hc => scoped_expr (hm.inFilter n var) false x _ (clean_cons.1 hc).2

theorem scoped_stmt {env : LowerEnv} {s : Surroundings} {inLoop : Bool} (hm : Matches env s)
    (hl : 0 < s.loops → inLoop = true) :
    (st : Stmt) → (n : Numbering) → (∀ p ∈ st.declares, s.Settable p.name) →
      Clean (st.findings s) → st.Scoped env inLoop n
  | .block b, n => fun _ hc => scoped_block hm hl b n hc
  | .text .., _ => fun _ _ => trivial
  | .define p vars, n => fun hd hc =>
    scoped_varDefs hm vars n (fun p name init h => hd ⟨p, name⟩ (List.mem_map.2 ⟨_, h, rfl⟩)) hc
  | .output p xs, n => fun _ hc => scoped_exprs hm xs n hc
  | .expr x, n => fun _ hc => scoped_expr hm false x n hc
  | .ret p none, _ => fun _ hc => hm.ret (by simpa [Stmt.findings] using hc)
  | .ret p (some x), n => fun _ hc => by
    obtain ⟨hr, hx⟩ : s.inFunction = true ∧ Clean (x.findings s false) := by
      simpa only [Stmt.findings, clean_append, clean_require] using hc
    exact ⟨hm.ret hr, scoped_expr hm false x n hx⟩
  | .cond p test yes no, n => fun _ hc => by
    obtain ⟨⟨ht, hy⟩, hn⟩ : (Clean (test.findings s false) ∧ Clean (yes.findings s {} false)) ∧
        Clean (optBlockFindings s no) := by
      simpa only [Stmt.findings, clean_append] using hc
    exact ⟨scoped_expr hm false test n ht, scoped_block hm hl yes _ hy,
      scoped_optBlock hm hl no _ hn⟩
  | .loop p test body, n => fun _ hc => by
    obtain ⟨ht, hb⟩ := clean_append.1 hc
    have hm := hm.inLoop n.loop
    exact ⟨scoped_expr hm false test _ ht, scoped_block hm (fun _ => rfl) body _ hb⟩
  | .each p vp var x filter body between, n => fun _ hc => by
    obtain ⟨⟨⟨hx, hf⟩, hb⟩, hw⟩ : ((Clean (x.findings _ false) ∧ Clean (whereFindings _ var filter)) ∧
        Clean (body.findings _ (Scope.single var .localVar) true)) ∧
        Clean (optBlockFindings _ between) := by
      simpa only [Stmt.findings, clean_append] using hc
    have hm := hm.inLoop n.loop
    have hbase : ∀ sym ∈ (Scope.single var .localVar).symbols, sym.kind = .localVar := by
      simp [Scope.single]
    have hn : SameNames (body.scope (Scope.single var .localVar)).1
        (env.newSlots n (loopNames var body)) := sameNames_block hbase
    exact ⟨scoped_expr hm false x _ hx, scoped_optWhere hm var filter _ hf,
      scoped_body hm body var _ _ hn hb, scoped_optBlock (hm.within hn) (fun _ => rfl) between _ hw⟩
  | .leave _, _ | .again _, _ => fun _ hc => by
    have h : 0 < s.loops := by simpa [Stmt.findings] using hc
    exact ⟨hl h, hm.loops h⟩
  | .switch p x cases dflt r, n => fun _ hc => by
    obtain ⟨⟨hx, hcs⟩, hd⟩ : (Clean (x.findings s false) ∧ Clean (casesFindings s cases)) ∧
        Clean (optBlockFindings s dflt) := by
      simpa only [Stmt.findings, clean_append] using hc
    exact ⟨scoped_expr hm false x n hx, scoped_cases hm hl cases _ hcs,
      scoped_optBlock hm hl dflt _ hd⟩

end

theorem scoped_functions (hm : Matches env s) (fs : List FunctionDecl) (n : Numbering)
    (hc : ∀ f ∈ fs, Clean (f.findings s)) : functionsScoped env fs n := by
  induction fs generalizing n with
  | nil => trivial
  | cons f fs ih =>
    obtain ⟨-, -, hb⟩ : _ ∧ _ ∧ Clean (f.body.findings _ {} false) := by
      simpa only [FunctionDecl.findings, List.cons_append, clean_cons, clean_append] using
        hc f (by simp)
    exact ⟨scoped_block (hm.inFunction n f _) (fun h => absurd h (Nat.lt_irrefl 0)) f.body _ hb,
      ih _ fun f' h => hc f' (by simp [h])⟩

theorem scoped_defs (hm : Matches env s) (ds : List GlobalDef) (n : Numbering)
    (hd : ∀ d ∈ ds, ∀ p name init, VarDef.mk p name init ∈ d.vars → s.Settable name)
    (hc : ∀ d ∈ ds, Clean (varDefsFindings s d.vars)) : defsScoped env ds n := by
  induction ds generalizing n with
  | nil => trivial
  | cons d ds ih =>
    exact ⟨scoped_varDefs hm d.vars n (hd d (by simp)) (hc d (by simp)),
      ih _ (fun d' h => hd d' (by simp [h])) fun d' h => hc d' (by simp [h])⟩

end Accepted

/-- A module that analysis accepts is well-scoped. -/
theorem Module.scoped_of_accepted {m : Module} {env : ResolveEnv}
    {roots : List (Bytes × Namespace)} (hdef : m.NoDefinitions) (h : m.diagnose env = [])
    (hr : roots.map (·.1) = (m.loaded env).1) (debug : Bool) :
    m.Scoped (m.lowerEnv debug env.isPredeclared roots) := by
  have hc := m.clean_findings h
  simp only [Module.findings, ← hr, clean_append, clean_flatMap, clean_duplicates] at hc
  obtain ⟨⟨⟨⟨-, hdup⟩, hf⟩, hd⟩, hs⟩ := hc
  have hm : Matches (m.lowerEnv debug env.isPredeclared roots)
    (m.surroundings env.isPredeclared (roots.map (·.1))) := m.matches_surroundings
  exact ⟨scoped_functions hm m.functions _ hf,
    scoped_defs hm m.defs _ (fun d hd p name init hv => m.settable_of_def hdup hd hv) hd,
    scoped_stmts hm (fun h => absurd h (Nat.lt_irrefl 0)) m.stmts _
      (fun st h p hp => by simp [hdef st h] at hp) hs⟩

end Stencil
