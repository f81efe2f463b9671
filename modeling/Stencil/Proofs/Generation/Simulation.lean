import Stencil.Proofs.Generation.Effect
import Stencil.Proofs.Generation.Acceptance
import Stencil.Proofs.Syntax.TopLevel

/-!
# Generation and lowering agree

On a module that analysis accepts no step of generation fails, and the code that comes out
is the code that lowering states. For each construct: the walk over it puts its code on the
stack, hands out the numbers that `after` counts, and leaves everything else in the state as
it was.
-/

namespace Stencil

/-- The state with more items on the stack, in the order they were put there, and with
other numbers. -/
def Generator.emit (g : Generator) (items : List Item) (n : Numbering) : Generator :=
  { g with stack := items.reverse ++ g.stack, next := n }

namespace Generator

variable (g : Generator) (is js : List Item) (n k : Numbering)

@[simp] theorem emit_next : (g.emit is n).next = n := rfl
@[simp] theorem emit_fn : (g.emit is n).fn = g.fn := rfl
@[simp] theorem emit_regions : (g.emit is n).regions = g.regions := rfl
@[simp] theorem emit_states : (g.emit is n).states = g.states := rfl
@[simp] theorem emit_outer : (g.emit is n).outer = g.outer := rfl

@[simp] theorem emit_emit : (g.emit is n).emit js k = g.emit (is ++ js) k := by
  simp [emit]

@[simp] theorem emit_nil : g.emit [] g.next = g := rfl

end Generator

/-- The generator stands in the given surroundings. -/
structure Generator.At (g : Generator) (env : LowerEnv) : Prop where
  regions : g.regions = env.regions
  owner : g.fn.owner = env.owner
  ownerName : g.fn.ownerName = env.ownerName
  ret : g.fn.ret = env.ret
  loops : g.fn.loops = env.loops

/-- Inside a region. -/
theorem Generator.At.enter {g : Generator} {env : LowerEnv} (h : g.At env) (n : Numbering)
    (vars : List Variable) :
    Generator.At { g with next := n, regions := vars :: g.regions } (env.within vars) :=
  ⟨by simp [LowerEnv.within, h.regions], h.owner, h.ownerName, h.ret, h.loops⟩

/-- Inside a loop. -/
theorem Generator.At.inLoop {g : Generator} {env : LowerEnv} (h : g.At env) (n : Numbering)
    (states : List LoopState) (t : LoopTargets) :
    Generator.At { g with next := n, states, fn := { g.fn with loops := t :: g.fn.loops } }
      (env.inLoop t) :=
  ⟨h.regions, h.owner, h.ownerName, h.ret, by simp [LowerEnv.inLoop, h.loops]⟩

/-- Inside a lambda. -/
theorem Generator.At.inLambda {g : Generator} {env : LowerEnv} (h : g.At env) (n n' : Numbering)
    (name : Bytes) (params : List Bytes) (ret : Option Target) (outer : List (LambdaState × Nat)) :
    Generator.At { g with
      fn := { owner := n.lambdas, ownerName := name,
              params := slotsFrom n.lambdas name 0 params, ret }
      next := n', outer, regions := slotsFrom n.lambdas name 0 params :: g.regions }
      (env.inLambda n name params ret) :=
  ⟨by simp [LowerEnv.inLambda, h.regions], rfl, rfl, rfl, rfl⟩

theorem Generator.At.emit {g : Generator} {env : LowerEnv} (h : g.At env) (is : List Item)
    (n : Numbering) : (g.emit is n).At env :=
  ⟨h.regions, h.owner, h.ownerName, h.ret, h.loops⟩

/-! ### Steps on a stack with known items -/

namespace Gen

variable {g : Generator} {r js : List Item} {i : Item} {n : Numbering} {debug : Bool}

theorem run_then {α β : Type} {m : Gen α} {f : α → Gen β} {g g₁ : Generator} {a : α}
    {r : Except GenerateError (β × Generator)} (h : m.run g = .ok (a, g₁))
    (h' : (f a).run g₁ = r) : (m >>= f).run g = r :=
  (run_bind_of_ok h).trans h'

theorem run_popRaw_emit : popRaw.run (g.emit (r ++ [i]) n) = .ok (i, g.emit r n) := by
  have hs : (g.emit (r ++ [i]) n).stack = i :: (r.reverse ++ g.stack) := by
    simp [Generator.emit]
  rw [run_popRaw hs]
  rfl

theorem run_pop_emit :
    (pop debug).run (g.emit (r ++ [i]) n) = .ok (i.noted debug, g.emit r n) := by
  rw [pop, run_bind_of_ok run_popRaw_emit]
  rfl

theorem run_pop_one : (pop debug).run (g.emit [i] n) = .ok (i.noted debug, g.emit [] n) :=
  run_pop_emit (r := [])

theorem run_popN_emit {k : Nat} (hk : js.length = k) :
    (popN debug k).run (g.emit (r ++ js) n) =
      .ok (js.map (·.noted debug), g.emit r n) := by
  rw [run_popN (by simp [Generator.emit]; omega)]
  have ht : ((js.reverse ++ (r.reverse ++ g.stack)).take k) = js.reverse :=
    List.take_left' (by simpa using hk)
  have hd : ((js.reverse ++ (r.reverse ++ g.stack)).drop k) = r.reverse ++ g.stack :=
    List.drop_left' (by simpa using hk)
  simp [Generator.emit, ht, hd]

theorem run_popN_all {k : Nat} (hk : js.length = k) :
    (popN debug k).run (g.emit js n) = .ok (js.map (·.noted debug), g.emit [] n) :=
  run_popN_emit (r := []) hk

theorem run_push_emit (p : Position) (c : Code) :
    (push p c).run (g.emit r n) = .ok ((), g.emit (r ++ [⟨p, c⟩]) n) := by
  simp [run_push, Generator.emit]

theorem run_newSite_emit :
    newSite.run (g.emit r n) = .ok (n.sites, g.emit r n.nextSite) := rfl

theorem run_checked {c : Code} (h : c.Fits) : (checked c).run g = .ok (c, g) := by
  unfold checked
  split
  · rw [if_pos (by simpa [Code.Fits] using h)]
    rfl
  · rfl

/-- An operation that fits is put on the stack. -/
theorem run_checked_push {p : Position} {c : Code} (h : c.Fits) :
    (checked c >>= push p).run (g.emit r n) = .ok ((), g.emit (r ++ [⟨p, c⟩]) n) := by
  rw [run_bind_of_ok (run_checked h), run_push_emit]


theorem run_popIf_emit {α : Type} (o : Option α) (f : α → Item) :
    (popIf debug o.isSome).run (g.emit (r ++ (o.map f).toList) n) =
      .ok (o.map fun a => (f a).noted debug, g.emit r n) := by
  cases o with
  | none => simp [popIf]; rfl
  | some a => exact run_then run_pop_emit rfl

section Names

variable {env : LowerEnv} {s : Surroundings} {name : Bytes} {p : Position}

theorem run_variableOf {sym : Symbol} {v : Variable} (h : findSlot g.regions sym.name = some v) :
    (variableOf sym).run g = .ok (v, g) := by
  simp [variableOf, h]
  rfl

/-- Reading a name gives the code that lowering states. -/
theorem run_load (ha : g.At env) (hm : Matches env s) (hr : s.refer name ≠ .undeclared) :
    (load env.roots p name (s.refer name)).run (g.emit r n) =
      .ok (env.load p name n.sites, g.emit r n.nextSite) := by
  refine run_then run_newSite_emit ?_
  have global : (checked (globalCode p name n.sites)).run (g.emit r n.nextSite) =
      .ok (globalCode p name n.sites, g.emit r n.nextSite) := run_checked rfl
  rcases hm.refer_cases name hr with ⟨v, sym, hv, hs, rfl, hk⟩ | ⟨hv, hg⟩
  · have read : (do return Code.var (← variableOf sym) : Gen Code).run (g.emit r n.nextSite) =
        .ok (.var v, g.emit r n.nextSite) :=
      run_then (run_variableOf (by simpa [ha.regions] using hv)) rfl
    have hload : env.load p sym.name n.sites = .var v := by
      simp [LowerEnv.load, LowerEnv.meaning?, hv]
    rw [hs, hload]
    rcases hk with hk | hk <;> simpa only [hk] using read
  · rcases hg with ⟨sym, hf, hs, hk | ⟨hk, hl⟩⟩ | ⟨hf, hp, hs⟩
    · have hload : env.load p name n.sites = globalCode p name n.sites := by
        simp [LowerEnv.load, LowerEnv.meaning?, hv, hf, hk]
      rw [hs, hload]
      simpa only [hk] using global
    · obtain ⟨ns, hns⟩ := Option.isSome_iff_exists.1 hl
      have hload : env.load p name n.sites = .constant (.nspace ns) := by
        simp [LowerEnv.load, LowerEnv.meaning?, hv, hf, hk, hns]
      rw [hs, hload]
      simp only [hk, hns]
      rfl
    · have hload : env.load p name n.sites = globalCode p name n.sites := by
        simp [LowerEnv.load, LowerEnv.meaning?, hv, hf, hp]
      rw [hs, hload]
      exact global

/-- Assigning to a name gives the code that lowering states. -/
theorem run_store (ha : g.At env) (hm : Matches env s) (hr : s.Settable name) (c : Code) :
    (store p name (s.refer name) c).run (g.emit r n) =
      .ok (env.store p name c n.sites, g.emit r n.nextSite) := by
  refine run_then run_newSite_emit ?_
  have global : (checked (setGlobalCode p name c n.sites)).run (g.emit r n.nextSite) =
      .ok (setGlobalCode p name c n.sites, g.emit r n.nextSite) := run_checked rfl
  have hu : s.refer name ≠ .undeclared := by
    intro h
    simp [Surroundings.Settable, h] at hr
  rcases hm.refer_cases name hu with ⟨v, sym, hv, hs, rfl, hk⟩ | ⟨hv, hg⟩
  · have write : (do return Code.assign (← variableOf sym) c : Gen Code).run
        (g.emit r n.nextSite) = .ok (.assign v c, g.emit r n.nextSite) :=
      run_then (run_variableOf (by simpa [ha.regions] using hv)) rfl
    have hstore : env.store p sym.name c n.sites = .assign v c := by
      simp [LowerEnv.store, LowerEnv.meaning?, hv]
    rw [hs, hstore]
    rcases hk with hk | hk <;> simpa only [hk] using write
  · rcases hg with ⟨sym, hf, hs, hk | ⟨hk, -⟩⟩ | ⟨hf, hp, hs⟩
    · have hstore : env.store p name c n.sites = setGlobalCode p name c n.sites := by
        simp [LowerEnv.store, LowerEnv.meaning?, hv, hf, hk]
      rw [hs, hstore]
      simpa only [hk] using global
    · simp [Surroundings.Settable, hs, hk] at hr
    · have hstore : env.store p name c n.sites = setGlobalCode p name c n.sites := by
        simp [LowerEnv.store, LowerEnv.meaning?, hv, hf, hp]
      rw [hs, hstore]
      exact global

end Names

/-! ### Constructs -/

/-- In the given surroundings the events run without failure: they put items on the stack
and hand out numbers, as told by what was numbered before. -/
def Emits (env : LowerEnv) (es : List Event) (items : Numbering → List Item)
    (next : Numbering → Numbering) : Prop :=
  ∀ g, g.At env → Runs env.debug env.roots es g (g.emit (items g.next) (next g.next))

section Emits

variable {env : LowerEnv} {s : Surroundings} {es fs : List Event} {node : SyntaxNode}
  {items items' : Numbering → List Item} {next next' : Numbering → Numbering}

theorem emits_nil : Emits env [] (fun _ => []) id := fun _ _ => runs_nil.2 rfl

theorem Emits.append (h : Emits env es items next) (h' : Emits env fs items' next') :
    Emits env (es ++ fs) (fun n => items n ++ items' (next n)) (fun n => next' (next n)) := by
  intro g ha
  refine runs_append.2 ⟨_, h g ha, ?_⟩
  simpa using h' _ (ha.emit _ _)

/-- A node that is entered without further ado, and how it is left. -/
theorem Emits.visit (h : Emits env es items next) (hb : before node = pure ())
    (hl : ∀ (g : Generator) (n : Numbering), g.At env →
      (after env.debug env.roots s node).run (g.emit (items n) (next n)) =
        .ok ((), g.emit (items' n) (next' n))) :
    Emits env (visit node s es) items' next' := by
  intro g ha
  exact runs_visit.2 ⟨g, _, by rw [hb]; rfl, h g ha, hl g g.next ha⟩

end Emits

end Gen

theorem length_exprItems (env : LowerEnv) (xs : List Expr) (n : Numbering) :
    (exprItems env xs n).length = xs.length := by
  induction xs generalizing n with
  | nil => rfl
  | cons x xs ih => simp [exprItems, ih]

theorem length_stmtItems (env : LowerEnv) (sts : List Stmt) (n : Numbering) :
    (stmtItems env sts n).length = sts.length := by
  induction sts generalizing n with
  | nil => rfl
  | cons st sts ih => simp [stmtItems, ih]

theorem length_functionItems (env : LowerEnv) (fs : List FunctionDecl) (n : Numbering) :
    (functionItems env fs n).length = fs.length := by
  induction fs generalizing n with
  | nil => rfl
  | cons f fs ih => simp [functionItems, ih]

theorem length_defItems (env : LowerEnv) (ds : List GlobalDef) (n : Numbering) :
    (defItems env ds n).length = ds.length := by
  induction ds generalizing n with
  | nil => rfl
  | cons d ds ih => simp [defItems, ih]

theorem length_caseItems (env : LowerEnv) (cs : List SwitchCase) (n : Numbering) :
    (caseItems env cs n).length = cs.length := by
  induction cs generalizing n with
  | nil => rfl
  | cons c cs ih => simp [caseItems, ih]

theorem length_varDefItems (env : LowerEnv) (vs : List VarDef) (n : Numbering) :
    (varDefItems env vs n).length =
      vs.countP fun v => match v with | .mk _ _ init => init.isSome := by
  induction vs generalizing n with
  | nil => rfl
  | cons v vs ih =>
    obtain ⟨p, name, init⟩ := v
    cases init <;> simp [varDefItems, VarDef.items, ih, Nat.add_comm]

namespace Gen

theorem fits_unaryCode (p : Position) (op : UnaryOp) (x : Code) (site : Nat) :
    (unaryCode p op x site).Fits := by
  cases op <;> simp [unaryCode, Code.Fits, SiteKind.operands]

theorem fits_binaryCode (p : Position) (op : BinaryOp) (x y : Code) (site : Nat) :
    (binaryCode p op x y site).Fits := by
  cases op <;> simp [binaryCode, Code.Fits, SiteKind.operands]

/-- The operands of an operation are an operand of its own and its arguments. -/
theorem fits_dynamicCode {kind : SiteKind} (hk : ∀ k, kind.operands k = k + 1) (p : Position)
    (name : Bytes) (c : Code) (cs : List Code) (site : Nat) :
    (dynamicCode kind p name cs.length (c :: cs) site).Fits := by
  simp [dynamicCode, Code.Fits, hk]

variable {env : LowerEnv} {s : Surroundings}

/-- Leaving an operation on an operand and arguments. -/
theorem run_operation {g : Generator} {n : Numbering} {i : Item} {is : List Item} {k : Nat}
    {kind : SiteKind} (hk : ∀ k, kind.operands k = k + 1) (hl : is.length = k) (debug : Bool)
    (pos p : Position) (name : Bytes) :
    (do
      let operands ← popN debug (1 + k)
      let site ← newSite
      let c ← checked (dynamicCode kind p name k operands site)
      push pos c : Gen Unit).run (g.emit (i :: is) n) =
    .ok ((), g.emit [⟨pos, dynamicCode kind p name k (i.noted debug :: is.map (·.noted debug))
      n.sites⟩] n.nextSite) := by
  refine run_then (run_popN_all (by simp [hl, Nat.add_comm])) <| run_then run_newSite_emit ?_
  subst hl
  refine run_checked_push ?_
  simpa using fits_dynamicCode hk p name (i.noted debug) (is.map (·.noted debug)) n.sites

/-- Entering a block declares its names. -/
theorem run_enter_block {g : Generator} (ha : g.At env) (b : Block) (base : Scope) :
    (before (.block b base false)).run g = .ok ((), { g with
      next := g.next.declare b.names.length
      regions := env.newSlots g.next b.names :: g.regions }) := by
  refine run_then (run_declare _ _) ?_
  rw [ha.owner, ha.ownerName]
  rfl

theorem optBlockCode_eq (b : Option Block) (n : Numbering) :
    optBlockCode env b n =
      b.map fun b => Item.noted ⟨b.span.first, b.lower env n⟩ env.debug := by
  cases b <;> rfl

theorem optWhereCode_eq (var : Bytes) (w : Option WhereClause) (n : Numbering) :
    optWhereCode env var w n =
      w.map fun w => Item.noted ⟨w.span.first, w.lower env var n⟩ env.debug := by
  cases w <;> rfl

/-- The arms of a switch are recognised as such. -/
theorem run_popArms_emit {g : Generator} {r : List Item} {k : Numbering} (p : Position)
    (cs : List SwitchCase) {n : Numbering} :
    (popArms p cs.length).run (g.emit (r ++ caseItems env cs n) k) =
      .ok ((caseItems env cs n).map (·.code), g.emit r k) := by
  refine run_then (run_popN_emit (length_caseItems ..)) ?_
  have noted (i : Item) : i.noted false = i.code := rfl
  simp only [noted]
  rw [if_pos ?_]
  · rfl
  · induction cs generalizing n with
    | nil => rfl
    | cons c cs ih =>
      obtain ⟨q, values, body⟩ := c
      simpa [caseItems, SwitchCase.lower] using ih

/-- Leaving a return statement that has a target. -/
theorem run_return {g : Generator} (ha : g.At env) (hr : env.ret.isSome) {is : List Item}
    {n : Numbering} {p pos : Position} {o : Option Expr} {c : Option Code}
    (hp : (popIf env.debug o.isSome).run (g.emit is n) = .ok (c, g.emit [] n)) :
    (do
      match (← get).fn.ret with
      | none => throw (.returnOutsideFunction p)
      | some t =>
        push pos (.goto t ((← popIf env.debug o.isSome).getD (.constant .null))) :
          Gen Unit).run (g.emit is n) =
      .ok ((), g.emit [⟨pos, env.return_ (c.getD (.constant .null))⟩] n) := by
  obtain ⟨t, ht⟩ := Option.isSome_iff_exists.1 hr
  refine run_then (m := get) rfl ?_
  simp only [Generator.emit_fn, ha.ret, LowerEnv.return_, ht]
  exact run_then hp (run_push_emit _ _)

/-- Leaving a jump out of a loop, or to its next round. -/
theorem run_jump {g : Generator} (ha : g.At env) (hl : env.loops ≠ []) {n : Numbering}
    {pos : Position} (target : LoopTargets → Target) :
    (do push pos (.goto (target (← topLoop)) .absent) : Gen Unit).run (g.emit [] n) =
      .ok ((), g.emit [⟨pos, env.jump target⟩] n) := by
  obtain ⟨t, ts, ht⟩ := List.exists_cons_of_ne_nil hl
  simp only [LowerEnv.jump, ht]
  exact run_then (run_topLoop (g := g.emit [] n) (ha.loops.trans ht)) (run_push_emit _ _)

/-- Entering a loop over a sequence declares its variables and its targets. -/
theorem run_enter_each {g : Generator} (ha : g.At env) (p vp : Position) (var : Bytes) (x : Expr)
    (filter : Option WhereClause) (body : Block) (between : Option Block) :
    (before (.stmt (.each p vp var x filter body between))).run g = .ok ((), { g with
      next := (g.next.declare ((loopNames var body).length + 1)).nextLoop
      states := ⟨env.newSlots g.next (loopNames var body),
        ⟨"$enum", g.next.slots + (loopNames var body).length, env.owner, env.ownerName⟩⟩ :: g.states
      fn := { g.fn with loops := g.next.loop :: g.fn.loops } }) := by
  refine run_then (run_declare _ _) <| run_then (run_declare _ _) ?_
  rw [LowerEnv.newSlots, ← ha.owner, ← ha.ownerName]
  rfl

/-- A name that is assigned to is passed over. -/
theorem emits_target (s : Surroundings) (p : Position) (name : Bytes) :
    Emits env ((Expr.name p name).walk s true) (fun _ => []) id :=
  emits_nil.visit rfl fun _ _ _ => rfl

/-- What can be assigned to, other than a name, is an operation that reads an element or a
member, and the assignment takes the operands of that operation. -/
theorem run_assignment {target : Expr} {p : Position} (ht : target.targetProblem? s = none)
    (hn : target.isName = false) {g : Generator} {n n' : Numbering} {i : Item}
    {debug : Bool} {pos : Position} :
    (do
      let value ← pop debug
      let t ← popRaw
      let site ← newSite
      let c := assignCode p t.code value site
      if c.isAbsent then throw (.badTarget p)
      let c ← checked c
      push pos c : Gen Unit).run (g.emit [⟨target.start, target.lower env n⟩, i] n') =
    .ok ((), g.emit [⟨pos, assignCode p (target.lower env n) (i.noted debug) n'.sites⟩]
      n'.nextSite) := by
  refine run_then (run_pop_emit (r := [_])) <| run_then (run_popRaw_emit (r := [])) <|
    run_then run_newSite_emit ?_
  cases target with
  | member x dot q name => exact run_checked_push (r := []) rfl
  | index x l args r =>
    refine run_checked_push (r := []) ?_
    simp [Expr.lower, dynamicCode, assignCode, Code.unwrap, Code.Fits, SiteKind.operands,
      length_exprItems]
  | name => simp [Expr.isName] at hn
  | _ => simp [Expr.targetProblem?] at ht

mutual

theorem emits_expr {env : LowerEnv} {s : Surroundings} (hm : Matches env s) (write : Bool) :
    (x : Expr) → (write && x.isName) = false → Clean (x.findings s write) →
      Emits env (x.walk s write) (fun n => [⟨x.start, x.lower env n⟩]) x.after
  | .literal .. | .null _ => fun _ _ => emits_nil.visit rfl fun _ _ _ => run_push_emit _ _
  | .name p name => fun hw hc => by
    obtain rfl : write = false := by simpa [Expr.isName] using hw
    have hr : s.refer name ≠ .undeclared := by
      simpa [Expr.findings, Finding.isProblem] using hc
    exact emits_nil.visit rfl fun g n ha => run_then (run_load ha hm hr) (run_push_emit _ _)
  | .unary p op x => fun _ hc =>
    (emits_expr hm false x rfl hc).visit rfl fun _ _ _ =>
      run_then run_pop_one <| run_then run_newSite_emit <| run_checked_push (fits_unaryCode ..)
  | .binary x p op y => fun _ hc => by
    obtain ⟨⟨-, hx⟩, hy⟩ : (_ ∧ Clean (x.findings s false)) ∧ Clean (y.findings s false) := by
      simpa only [Expr.findings, clean_append] using hc
    exact ((emits_expr hm false x rfl hx).append (emits_expr hm false y rfl hy)).visit rfl
      fun _ _ _ => run_then (run_pop_emit (r := [_])) <| run_then run_pop_one <|
        run_then run_newSite_emit <| run_checked_push (fits_binaryCode ..)
  | .assign target p y => fun _ hc => by
    obtain ⟨⟨⟨-, ht⟩, hx⟩, hy⟩ : ((_ ∧ _) ∧ Clean (target.findings s true)) ∧
        Clean (y.findings s false) := by
      simpa only [Expr.findings, clean_append] using hc
    have ht : target.targetProblem? s = none := by
      split at ht
      · simp [Finding.isProblem] at ht
      · assumption
    have hy := emits_expr hm false y rfl hy
    cases target with
    | name q name =>
      have hr : s.refer name ≠ .undeclared := by
        simpa [Expr.findings, Finding.isProblem] using hx
      exact ((emits_target s q name).append hy).visit rfl fun g n ha =>
        run_then run_pop_one <| run_then (run_store ha hm (settable_of_target ht hr) _) <|
          run_push_emit _ _
    | index x l args r =>
      exact ((emits_expr hm true (.index x l args r) rfl hx).append hy).visit rfl
        fun g n ha => run_assignment ht rfl
    | member x dot q name =>
      exact ((emits_expr hm true (.member x dot q name) rfl hx).append hy).visit rfl
        fun g n ha => run_assignment ht rfl
    | _ => simp [Expr.targetProblem?] at ht
  | .index x l args r => fun _ hc => by
    obtain ⟨⟨-, hx⟩, hargs⟩ : (_ ∧ Clean (x.findings s false)) ∧ Clean (exprsFindings s args) := by
      simpa only [Expr.findings, clean_append] using hc
    have inner : Emits env (Stencil.visit (.arguments args) s (exprsWalk s args))
        (exprItems env args) (exprsAfter args) :=
      (emits_exprs hm args hargs).visit rfl fun _ _ _ => rfl
    exact ((emits_expr hm false x rfl hx).append inner).visit rfl fun g n ha =>
      run_operation (fun _ => rfl) (length_exprItems ..) _ _ _ _
  | .member x dot p name => fun _ hc => by
    obtain ⟨⟨-, hx⟩, -⟩ : (_ ∧ Clean (x.findings s false)) ∧ _ := by
      simpa only [Expr.findings, clean_append] using hc
    have inner : Emits env (Stencil.visit (.memberName name) s []) (fun _ => []) id :=
      emits_nil.visit rfl fun _ _ _ => rfl
    exact ((emits_expr hm false x rfl hx).append inner).visit rfl fun _ _ _ =>
      run_then run_pop_one <| run_then run_newSite_emit <| run_checked_push rfl
  | .method x dot p name l args r => fun _ hc => by
    obtain ⟨⟨-, hx⟩, -, hargs⟩ :
        (_ ∧ Clean (x.findings s false)) ∧ _ ∧ Clean (exprsFindings s args) := by
      simpa only [Expr.findings, clean_append, clean_cons] using hc
    have inner : Emits env (Stencil.visit (.memberCall name args) s (exprsWalk s args))
        (exprItems env args) (exprsAfter args) :=
      (emits_exprs hm args hargs).visit rfl fun _ _ _ => rfl
    exact ((emits_expr hm false x rfl hx).append inner).visit rfl fun g n ha =>
      run_operation (fun _ => rfl) (length_exprItems ..) _ _ _ _
  | .call p name l args r => fun _ hc => by
    obtain ⟨-, -, hargs⟩ : _ ∧ _ ∧ Clean (exprsFindings s args) := by
      simpa only [Expr.findings, clean_append, clean_cons, List.cons_append] using hc
    refine (emits_exprs hm args hargs).visit rfl fun g n ha =>
      run_then (run_popN_all (length_exprItems ..)) <| run_then run_newSite_emit <|
        run_then (run_checked rfl) <| run_then run_newSite_emit <| run_checked_push ?_
    simp [dynamicCode, Code.Fits, SiteKind.operands, length_exprItems]
  | .new p type l args r => fun _ hc => by
    obtain ⟨ht, hargs⟩ : Clean (type.findings s false) ∧ Clean (exprsFindings s args) := by
      simpa only [Expr.findings, clean_append] using hc
    exact ((emits_expr hm false type rfl ht).append (emits_exprs hm args hargs)).visit rfl
      fun g n ha => run_operation (fun _ => rfl) (length_exprItems ..) _ _ _ _
  | .list l items r => fun _ hc =>
    (emits_exprs hm items hc).visit rfl fun g n ha =>
      run_then (run_popN_all (length_exprItems ..)) <| run_push_emit _ _
  | .template b => fun _ hc =>
    (emits_block hm.inTemplate b hc).visit rfl fun g n ha => by
      refine run_then run_pop_one <| run_then (run_declare _ _) ?_
      simp only [Generator.emit_fn, Generator.emit_next, ha.owner, ha.ownerName]
      exact run_push_emit _ _

theorem emits_exprs {env : LowerEnv} {s : Surroundings} (hm : Matches env s) :
    (xs : List Expr) → Clean (exprsFindings s xs) →
      Emits env (exprsWalk s xs) (exprItems env xs) (exprsAfter xs)
  | [] => fun _ => emits_nil
  | x :: xs => fun hc => by
    obtain ⟨hx, hxs⟩ := clean_append.1 hc
    exact (emits_expr hm false x rfl hx).append (emits_exprs hm xs hxs)

theorem emits_block {env : LowerEnv} {s : Surroundings} (hm : Matches env s) :
    (b : Block) → Clean (b.findings s {} false) →
      Emits env (b.walk s {} false) (fun n => [⟨b.span.first, b.lower env n⟩]) b.after
  | .mk l stmts r t => fun hc => by
    obtain ⟨-, -, hs⟩ : _ ∧ _ ∧ Clean (stmtsFindings _ stmts) := by
      simpa only [Block.findings, List.cons_append, clean_cons, clean_append] using hc
    have hbase : ∀ sym ∈ ({} : Scope).symbols, sym.kind = .localVar := by simp
    have hd : ∀ st ∈ stmts, ∀ p ∈ st.declares,
        (s.enter (Block.scope (.mk l stmts r t) {}).1).Settable p.name :=
      fun st hst p hp => settable_of_declared hbase (List.mem_flatMap.2 ⟨st, hst, hp⟩)
    intro g ha
    let vars := env.newSlots g.next (Block.names (.mk l stmts r t))
    have hn : SameNames (Block.scope (.mk l stmts r t) {}).1 vars := sameNames_block hbase
    have inner := emits_stmts (hm.within hn) stmts hd hs
    refine runs_visit.2 ⟨_, _, run_enter_block ha _ _, inner _ (ha.enter _ vars), ?_⟩
    exact run_then (run_leaveRegion rfl) <|
      run_then (run_popN_all (g := g) (length_stmtItems ..)) <| run_push_emit _ _

theorem emits_optBlock {env : LowerEnv} {s : Surroundings} (hm : Matches env s) :
    (b : Option Block) → Clean (optBlockFindings s b) →
      Emits env (optBlockWalk s b)
        (fun n => (b.map fun b => (⟨b.span.first, b.lower env n⟩ : Item)).toList)
        (optBlockAfter b)
  | none => fun _ => emits_nil
  | some b => fun hc => emits_block hm b hc

theorem emits_stmts {env : LowerEnv} {s : Surroundings} (hm : Matches env s) :
    (sts : List Stmt) → (∀ st ∈ sts, ∀ p ∈ st.declares, s.Settable p.name) →
      Clean (stmtsFindings s sts) →
        Emits env (stmtsWalk s sts) (stmtItems env sts) (stmtsAfter sts)
  | [] => fun _ _ => emits_nil
  | st :: sts => fun hd hc => by
    obtain ⟨hst, hsts⟩ := clean_append.1 hc
    exact (emits_stmt hm st (hd st (by simp)) hst).append
      (emits_stmts hm sts (fun st' h => hd st' (by simp [h])) hsts)

theorem emits_varDefs {env : LowerEnv} {s : Surroundings} (hm : Matches env s) :
    (vs : List VarDef) → (∀ p name init, VarDef.mk p name init ∈ vs → s.Settable name) →
      Clean (varDefsFindings s vs) →
        Emits env (varDefsWalk s vs) (varDefItems env vs) (varDefsAfter vs)
  | [] => fun _ _ => emits_nil
  | .mk p name none :: vs => fun hd hc => by
    have hv : Emits env ((VarDef.mk p name none).walk s) (fun _ => []) id :=
      emits_nil.visit rfl fun _ _ _ => rfl
    exact hv.append (emits_varDefs hm vs (fun q a i h => hd q a i (by simp [h])) hc)
  | .mk p name (some x) :: vs => fun hd hc => by
    obtain ⟨hx, hvs⟩ := clean_append.1 hc
    have hv : Emits env ((VarDef.mk p name (some x)).walk s)
        ((VarDef.mk p name (some x)).items env) (VarDef.mk p name (some x)).after :=
      (emits_expr hm false x rfl hx).visit rfl fun g n ha =>
        run_then run_pop_one <| run_then (run_store ha hm (hd p name (some x) (by simp)) _) <|
          run_push_emit _ _
    exact hv.append (emits_varDefs hm vs (fun q a i h => hd q a i (by simp [h])) hvs)

theorem emits_cases {env : LowerEnv} {s : Surroundings} (hm : Matches env s) :
    (cs : List SwitchCase) → Clean (casesFindings s cs) →
      Emits env (casesWalk s cs) (caseItems env cs) (casesAfter cs)
  | [] => fun _ => emits_nil
  | .mk p values body :: cs => fun hc => by
    obtain ⟨⟨hv, hb⟩, hcs⟩ : (Clean (exprsFindings s values) ∧ Clean (body.findings s {} false)) ∧
        Clean (casesFindings s cs) := by
      simpa only [casesFindings, clean_append] using hc
    have hcase : Emits env ((SwitchCase.mk p values body).walk s)
        (fun n => [⟨(SwitchCase.mk p values body).span.first,
          (SwitchCase.mk p values body).lower env n⟩]) (SwitchCase.mk p values body).after :=
      ((emits_exprs hm values hv).append (emits_block hm body hb)).visit rfl fun g n ha =>
        run_then run_pop_emit <| run_then (run_popN_all (length_exprItems ..)) <| run_push_emit _ _
    exact hcase.append (emits_cases hm cs hcs)

theorem emits_optWhere {env : LowerEnv} {s : Surroundings} (hm : Matches env s) (var : Bytes) :
    (w : Option WhereClause) → Clean (whereFindings s var w) →
      Emits env (optWhereWalk s var w)
        (fun n => (w.map fun w => (⟨w.span.first, w.lower env var n⟩ : Item)).toList)
        (optWhereAfter w)
  | none => fun _ => emits_nil
  | some (.mk p x) => fun hc => by
    obtain ⟨-, hx⟩ := clean_cons.1 hc
    intro g ha
    refine runs_visit.2 ⟨_, _, rfl, emits_expr (hm.inFilter g.next var) false x rfl hx _
      (ha.inLambda g.next (g.next.enter 1) "where" [var] none ((g.fn, g.next.slots) :: g.outer)), ?_⟩
    exact run_then run_pop_one <| run_then (run_leaveLambda rfl rfl) <| run_push_emit (g := g) _ _

/-- The body of a loop over a sequence has the region of the loop, which stays open after
it for what runs between two rounds. -/
theorem runs_body {env : LowerEnv} {s : Surroundings} (hm : Matches env s) :
    (b : Block) → (var : Bytes) →
      Clean (b.findings s (Scope.single var .localVar) true) → ∀ (g : Generator) (st : LoopState)
      (sts : List LoopState) (is : List Item) (n : Numbering), g.At env → g.states = st :: sts →
      SameNames (b.scope (Scope.single var .localVar)).1 st.vars →
      Runs env.debug env.roots (b.walk s (Scope.single var .localVar) true) (g.emit is n)
        (Generator.emit { g with regions := st.vars :: g.regions }
          (is ++ [⟨b.span.first, b.lowerBody (env.within st.vars) n⟩]) (b.afterBody n))
  | .mk l stmts r t => fun var hc g st sts is n ha hst hn => by
    obtain ⟨-, -, hs⟩ : _ ∧ _ ∧ Clean (stmtsFindings _ stmts) := by
      simpa only [Block.findings, List.cons_append, clean_cons, clean_append] using hc
    have hbase : ∀ sym ∈ (Scope.single var .localVar).symbols, sym.kind = .localVar := by
      simp [Scope.single]
    have hd : ∀ st ∈ stmts, ∀ p ∈ st.declares, (s.enter (Block.scope (.mk l stmts r t)
        (Scope.single var .localVar)).1).Settable p.name :=
      fun st hst p hp => settable_of_declared hbase (List.mem_flatMap.2 ⟨st, hst, hp⟩)
    have enter : (before (.block (.mk l stmts r t) (Scope.single var .localVar) true)).run
        (g.emit is n) = .ok ((), Generator.emit { g with regions := st.vars :: g.regions } is n) := by
      refine run_then (m := get) rfl ?_
      split
      · rename_i h
        cases hst.symm.trans h
        rfl
      · rename_i h
        cases hst.symm.trans h
    refine runs_visit.2 ⟨_, _, enter, emits_stmts (hm.within hn) stmts hd hs _
      ((ha.enter g.next st.vars).emit is n), ?_⟩
    rw [Generator.emit_emit]
    exact run_then (m := pure []) rfl <|
      run_then (run_popN_emit (length_stmtItems ..)) <| run_push_emit _ _

theorem emits_stmt {env : LowerEnv} {s : Surroundings} (hm : Matches env s) :
    (st : Stmt) → (∀ p ∈ st.declares, s.Settable p.name) → Clean (st.findings s) →
      Emits env (st.walk s) (fun n => [⟨st.span.first, st.lower env n⟩]) st.after
  | .block b => fun _ hc => emits_block hm b hc
  | .text .. => fun _ _ => emits_nil.visit rfl fun _ _ _ => run_push_emit _ _
  | .define p vars => fun hd hc => by
    have hd : ∀ p name init, VarDef.mk p name init ∈ vars → s.Settable name :=
      fun p name init h => hd ⟨p, name⟩ (List.mem_map.2 ⟨_, h, rfl⟩)
    exact (emits_varDefs hm vars hd hc).visit rfl fun g n ha =>
      run_then (run_popN_all (length_varDefItems ..)) <| run_push_emit _ _
  | .output p xs => fun _ hc =>
    (emits_exprs hm xs hc).visit rfl fun g n ha => by
      refine run_then (run_popN_all (length_exprItems ..)) ?_
      rw [run_push_emit]
      simp [Stmt.lower, Function.comp_def, Stmt.after]
  | .expr x => fun _ hc => (emits_expr hm false x rfl hc).visit rfl fun _ _ _ => rfl
  | .ret p none => fun _ hc => by
    have hr := hm.ret (by simpa [Stmt.findings] using hc)
    exact emits_nil.visit rfl fun g n ha =>
      run_return ha hr (o := none) (c := none) rfl
  | .ret p (some x) => fun _ hc => by
    obtain ⟨hr, hx⟩ : s.inFunction = true ∧ Clean (x.findings s false) := by
      simpa only [Stmt.findings, clean_append, clean_require] using hc
    exact (emits_expr hm false x rfl hx).visit rfl fun g n ha =>
      run_return ha (hm.ret hr) (run_popIf_emit (r := []) (some x) fun x => ⟨x.start, x.lower env n⟩)
  | .cond p test yes no => fun _ hc => by
    obtain ⟨⟨ht, hy⟩, hn⟩ : (Clean (test.findings s false) ∧ Clean (yes.findings s {} false)) ∧
        Clean (optBlockFindings s no) := by
      simpa only [Stmt.findings, clean_append] using hc
    refine (((emits_expr hm false test rfl ht).append (emits_block hm yes hy)).append
      (emits_optBlock hm no hn)).visit rfl fun g n ha => ?_
    refine run_then (run_popIf_emit no fun b => ⟨b.span.first, b.lower env _⟩) <|
      run_then (run_pop_emit (r := [_])) <| run_then run_pop_one ?_
    rw [← optBlockCode_eq]
    exact run_push_emit _ _
  | .loop p test body => fun _ hc => by
    obtain ⟨ht, hb⟩ : Clean (test.findings _ false) ∧ Clean (body.findings _ {} false) := by
      simpa only [Stmt.findings, clean_append] using hc
    intro g ha
    have hm := hm.inLoop g.next.loop
    refine runs_visit.2 ⟨_, _, rfl, ((emits_expr hm false test rfl ht).append
      (emits_block hm body hb)) _ (ha.inLoop g.next.nextLoop g.states g.next.loop), ?_⟩
    exact run_then (run_pop_emit (r := [_])) <| run_then run_pop_one <|
      run_then (run_leaveLoop rfl) <| run_push_emit (g := g) _ _
  | .each p vp var x filter body between => fun _ hc => by
    obtain ⟨⟨⟨hx, hf⟩, hb⟩, hw⟩ : ((Clean (x.findings _ false) ∧ Clean (whereFindings _ var filter)) ∧
        Clean (body.findings _ _ true)) ∧ Clean (optBlockFindings _ between) := by
      simpa only [Stmt.findings, clean_append] using hc
    intro g ha
    have hm := hm.inLoop g.next.loop
    let names := loopNames var body
    let vars := env.newSlots g.next names
    let enum : Variable := ⟨"$enum", g.next.slots + names.length, env.owner, env.ownerName⟩
    have hn : SameNames (body.scope (Scope.single var .localVar)).1 vars :=
      sameNames_block (by simp [Scope.single])
    have source := (emits_expr hm false x rfl hx).append (emits_optWhere hm var filter hf)
    have ha₁ := ha.inLoop (g.next.declare (names.length + 1)).nextLoop (⟨vars, enum⟩ :: g.states)
      g.next.loop
    refine runs_visit.2 ⟨_, _, run_enter_each ha .., runs_append.2 ⟨_, runs_append.2 ⟨_, source _ ha₁,
      runs_body hm body var hb _ ⟨vars, enum⟩ g.states _ _ ha₁ rfl hn⟩,
      emits_optBlock (hm.within hn) between hw _ ((ha₁.enter _ vars).emit _ _)⟩, ?_⟩
    rw [Generator.emit_emit]
    refine run_then (run_popIf_emit between fun b => ⟨b.span.first, b.lower _ _⟩) <|
      run_then run_pop_emit <|
      run_then (run_popIf_emit (r := [_]) filter fun w => ⟨w.span.first, w.lower _ var _⟩) <|
      run_then run_pop_one <| run_then (run_leaveRegion rfl) <| run_then (run_leaveState rfl) <|
      run_then (run_leaveLoop rfl) ?_
    simp only [Stmt.lower, optBlockCode_eq, optWhereCode_eq]
    exact run_push_emit (g := g) _ _
  | .leave p => fun _ hc => by
    have hl := hm.loops (by simpa [Stmt.findings] using hc)
    exact emits_nil.visit rfl fun g n ha => run_jump ha hl (·.brk)
  | .again p => fun _ hc => by
    have hl := hm.loops (by simpa [Stmt.findings] using hc)
    exact emits_nil.visit rfl fun g n ha => run_jump ha hl (·.cont)
  | .switch p x cases dflt r => fun _ hc => by
    obtain ⟨⟨hx, hcs⟩, hd⟩ : (Clean (x.findings s false) ∧ Clean (casesFindings s cases)) ∧
        Clean (optBlockFindings s dflt) := by
      simpa only [Stmt.findings, clean_append] using hc
    refine (((emits_expr hm false x rfl hx).append (emits_cases hm cases hcs)).append
      (emits_optBlock hm dflt hd)).visit rfl fun g n ha => ?_
    refine run_then (run_popIf_emit dflt fun b => ⟨b.span.first, b.lower env _⟩) <|
      run_then (run_popArms_emit (r := [_]) p cases) <| run_then run_pop_one <|
        run_then run_newSite_emit ?_
    rw [← optBlockCode_eq]
    exact run_push_emit _ _

end

/-! ### Functions, definitions and modules -/

/-- Nodes without children that put nothing on the stack. -/
theorem emits_leaves {α : Type} (node : α → SyntaxNode) (hb : ∀ a, before (node a) = pure ())
    (hl : ∀ a, after env.debug env.roots s (node a) = pure ()) (as : List α) :
    Emits env (as.flatMap fun a => Stencil.visit (node a) s []) (fun _ => []) id := by
  induction as with
  | nil => exact emits_nil
  | cons a as ih =>
    have h : Emits env (Stencil.visit (node a) s []) (fun _ => []) id :=
      emits_nil.visit (hb a) fun _ _ _ => by rw [hl a]; rfl
    exact h.append ih

theorem emits_function (hm : Matches env s) (f : FunctionDecl) (hc : Clean (f.findings s)) :
    Emits env (f.walk s) (fun n => [⟨f.pos, f.lower env n⟩]) f.after := by
  obtain ⟨-, -, hb⟩ : _ ∧ _ ∧ Clean (f.body.findings _ {} false) := by
    simpa only [FunctionDecl.findings, List.cons_append, clean_cons, clean_append] using hc
  intro g ha
  let names := f.params.map (·.name)
  have inner := (emits_leaves (s := s) .param (fun _ => rfl) (fun _ => rfl) f.params).append
    (emits_block (hm.inFunction g.next f ⟨g.next.targets, "return"⟩) f.body hb)
  refine runs_visit.2 ⟨_, _, rfl, inner _ (ha.inLambda g.next (g.next.nextTarget.enter names.length)
    f.name names (some ⟨g.next.targets, "return"⟩) ((g.fn, g.next.slots) :: g.outer)), ?_⟩
  have hl : names.length = f.params.length := List.length_map ..
  refine run_then run_pop_one <| run_then (m := get) rfl <| run_then (run_leaveLambda rfl rfl) <|
    run_then (run_newSite_emit (g := g) (r := [])) <| ?_
  simp only [FunctionDecl.lower, FunctionDecl.lambda, FunctionDecl.after, ← hl]
  exact run_checked_push (r := []) rfl

theorem emits_functions (hm : Matches env s) (fs : List FunctionDecl)
    (hc : ∀ f ∈ fs, Clean (f.findings s)) :
    Emits env (fs.flatMap (·.walk s)) (functionItems env fs) (functionsAfter fs) := by
  induction fs with
  | nil => exact emits_nil
  | cons f fs ih =>
    exact (emits_function hm f (hc f (by simp))).append (ih fun f' h => hc f' (by simp [h]))

theorem emits_defs (hm : Matches env s) (ds : List GlobalDef)
    (hd : ∀ d ∈ ds, ∀ p name init, VarDef.mk p name init ∈ d.vars → s.Settable name)
    (hc : ∀ d ∈ ds, Clean (varDefsFindings s d.vars)) :
    Emits env (ds.flatMap (·.walk s)) (defItems env ds) (defsAfter ds) := by
  induction ds with
  | nil => exact emits_nil
  | cons d ds ih =>
    have h : Emits env (d.walk s) (fun n => [⟨d.pos, sequenceCode ((varDefItems env d.vars n).map
        (·.noted env.debug))⟩]) (varDefsAfter d.vars) :=
      (emits_varDefs hm d.vars (hd d (by simp)) (hc d (by simp))).visit rfl fun g n ha =>
        run_then (run_popN_all (length_varDefItems ..)) <| run_push_emit _ _
    exact h.append (ih (fun d' h => hd d' (by simp [h])) fun d' h => hc d' (by simp [h]))

end Gen

section Module

variable {m : Module} {debug : Bool} {isPredeclared : Bytes → Bool}
  {roots : List (Bytes × Namespace)}

open Gen in
/-- The walk over a module without problems ends with its lambda on the stack. -/
theorem Module.runs_walk (hdef : m.NoDefinitions)
    (hdup : (m.scope (roots.map (·.1))).2 = [])
    (hf : ∀ f ∈ m.functions, Clean (f.findings (m.surroundings isPredeclared (roots.map (·.1)))))
    (hd : ∀ d ∈ m.defs,
      Clean (varDefsFindings (m.surroundings isPredeclared (roots.map (·.1))) d.vars))
    (hs : Clean (stmtsFindings (m.surroundings isPredeclared (roots.map (·.1))) m.stmts)) :
    ∃ g, Runs debug roots (m.walk isPredeclared (roots.map (·.1))) {} g ∧
      g.stack = [⟨m.span.first, (m.lower (m.lowerEnv debug isPredeclared roots)).code⟩] := by
  have hm : Matches (m.lowerEnv debug isPredeclared roots)
    (m.surroundings isPredeclared (roots.map (·.1))) := m.matches_surroundings
  have settable : ∀ d ∈ m.defs, ∀ p name init, VarDef.mk p name init ∈ d.vars →
      (m.surroundings isPredeclared (roots.map (·.1))).Settable name :=
    fun d hd p name init hv => m.settable_of_def hdup hd hv
  have loads : Emits (m.lowerEnv debug isPredeclared roots) (m.loads.flatMap fun l =>
      visit (.load l) (m.surroundings isPredeclared (roots.map (·.1))) []) (fun _ => []) id :=
    emits_leaves .load (fun _ => rfl) (fun _ => rfl) m.loads
  have inner := ((loads.append
    (emits_functions hm m.functions hf)).append (emits_defs hm m.defs settable hd)).append
    (emits_stmts hm m.stmts (fun st h p hp => by simp [hdef st h] at hp) hs)
  let g : Generator :=
    { fn := { owner := 0, ownerName := contextVariable.ownerName, params := [contextVariable] }
      next := .start }
  have ha : g.At (m.lowerEnv debug isPredeclared roots) := ⟨rfl, rfl, rfl, rfl, rfl⟩
  refine ⟨_, runs_visit.2 ⟨g, _, rfl, inner g ha, run_then (run_popN_all ?_) <|
    run_then (m := get) rfl <| run_push_emit _ _⟩, rfl⟩
  simp [length_functionItems, length_defItems, length_stmtItems, Nat.add_assoc]

end Module

end Stencil
