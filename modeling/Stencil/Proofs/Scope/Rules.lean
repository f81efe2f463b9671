import Stencil.Proofs.Scope.Resolved

/-!
# The rules on jumps and assignments

`Module.actions` lists the jumps and the assignments of a module, each with what is around it: the
loops, templates, conditions and functions that it stands in, and the regions. `break` and
`continue` need a loop that is nearer than any of the others, `return` a function that is nearer
than any condition, and what is assigned to must be an element, a field or a name that is not that
of a namespace. Analysis reports exactly the jumps and assignments that break these rules
(`Module.reports_actions`).
-/

namespace Stencil

/-! ### Actions -/

/-- What a jump may have to leave. -/
inductive Enclosure where
  | loop
  | template
  /-- The condition on the elements of a loop. -/
  | condition
  | function
  deriving DecidableEq, Repr

/-- What is around a construct, the innermost first. -/
structure Whereabouts where
  enclosures : List Enclosure
  regions : List Region

/-- A jump or an assignment. -/
inductive RuledAction where
  | leave (pos : Position)
  | again (pos : Position)
  | ret (pos : Position)
  | assign (target : Expr)

/-- An action and what is around it. -/
structure ActionSite where
  action : RuledAction
  place : Whereabouts

namespace Whereabouts

/-- Inside one more enclosure. -/
def inside (w : Whereabouts) (e : Enclosure) : Whereabouts :=
  { w with enclosures := e :: w.enclosures }

/-- Inside one more region. -/
def enter (w : Whereabouts) (r : Region) : Whereabouts := { w with regions := r :: w.regions }

/-- Going outward, a loop is met before anything else. -/
def InLoop (w : Whereabouts) : Prop := w.enclosures.head? = some .loop

/-- Of the functions and conditions around, the nearest is a function. -/
def InFunction (w : Whereabouts) : Prop :=
  w.enclosures.find? (fun e => e = .function ∨ e = .condition) = some .function

instance : DecidablePred InLoop := fun w => inferInstanceAs (Decidable (w.enclosures.head? = _))

instance : DecidablePred InFunction := fun w =>
  inferInstanceAs (Decidable (w.enclosures.find? _ = _))

end Whereabouts

mutual

/-- The actions in an expression. -/
def Expr.actions (w : Whereabouts) : Expr → List ActionSite
  | .literal .. | .null _ | .name .. => []
  | .unary _ _ x | .member x _ _ _ => x.actions w
  | .binary x _ _ y => x.actions w ++ y.actions w
  | .assign x _ y => ⟨.assign x, w⟩ :: x.actions w ++ y.actions w
  | .index x _ args _ | .method x _ _ _ _ args _ | .new _ x _ args _ =>
    x.actions w ++ exprsActions w args
  | .call _ _ _ args _ => exprsActions w args
  | .list _ items _ => exprsActions w items
  | .template b => b.actions (w.inside .template) []

/-- The actions in several expressions. -/
def exprsActions (w : Whereabouts) : List Expr → List ActionSite
  | [] => []
  | x :: xs => x.actions w ++ exprsActions w xs

/-- The actions in a block in whose region `given` is declared already. -/
def Block.actions (w : Whereabouts) (given : Region) : Block → List ActionSite
  | b@(.mk _ stmts _ _) => stmtsActions (w.enter (b.region given)) stmts

/-- The actions in a block that may be missing. -/
def optBlockActions (w : Whereabouts) : Option Block → List ActionSite
  | none => []
  | some b => b.actions w []

/-- The actions in several statements. -/
def stmtsActions (w : Whereabouts) : List Stmt → List ActionSite
  | [] => []
  | st :: sts => st.actions w ++ stmtsActions w sts

/-- The actions in the initial values of variables. -/
def varDefsActions (w : Whereabouts) : List VarDef → List ActionSite
  | [] => []
  | .mk _ _ none :: vs => varDefsActions w vs
  | .mk _ _ (some x) :: vs => x.actions w ++ varDefsActions w vs

/-- The actions in the arms of a switch. -/
def casesActions (w : Whereabouts) : List SwitchCase → List ActionSite
  | [] => []
  | .mk _ values body :: cs => exprsActions w values ++ body.actions w [] ++ casesActions w cs

/-- The actions in the condition on the elements of a loop. -/
def whereActions (w : Whereabouts) (var : Param) : Option WhereClause → List ActionSite
  | none => []
  | some (.mk _ x) => x.actions ((w.enter [var.declaration .parameter]).inside .condition)

/-- The actions in a statement. -/
def Stmt.actions (w : Whereabouts) : Stmt → List ActionSite
  | .block b => b.actions w []
  | .text .. => []
  | .define _ vars => varDefsActions w vars
  | .output _ xs => exprsActions w xs
  | .expr x => x.actions w
  | .ret p none => [⟨.ret p, w⟩]
  | .ret p (some x) => ⟨.ret p, w⟩ :: x.actions w
  | .cond _ test yes no => test.actions w ++ yes.actions w [] ++ optBlockActions w no
  | .loop _ test body => test.actions (w.inside .loop) ++ body.actions (w.inside .loop) []
  | .each _ p var x filter body between =>
    let given := [Param.declaration .localVar ⟨p, var⟩]
    let w := w.inside .loop
    x.actions w ++ whereActions w ⟨p, var⟩ filter ++ body.actions w given ++
      optBlockActions (w.enter (body.region given)) between
  | .leave p => [⟨.leave p, w⟩]
  | .again p => [⟨.again p, w⟩]
  | .switch _ x cases dflt _ => x.actions w ++ casesActions w cases ++ optBlockActions w dflt

end

/-- The actions in a function. -/
def FunctionDecl.actions (w : Whereabouts) (f : FunctionDecl) : List ActionSite :=
  let r := f.params.map (·.declaration .parameter)
  f.body.actions ((w.enter r).inside .function) []

/-- The actions in a module. -/
def Module.actions (m : Module) (env : ResolveEnv) : List ActionSite :=
  let w : Whereabouts := ⟨[], [m.region env]⟩
  m.functions.flatMap (·.actions w) ++ m.defs.flatMap (fun d => varDefsActions w d.vars) ++
    stmtsActions w m.stmts

/-! ### The rules -/

/-- The expression can be assigned to: it is an element, a field, or a name that does not mean a
namespace. -/
def Expr.IsVariable (isPredeclared : Bytes → Bool) (rs : List Region) : Expr → Prop
  | .index .. | .member .. => True
  | .name _ n => ∀ sym, Means isPredeclared n rs (.symbol sym) → sym.kind ≠ .nspace
  | _ => False

/-- The action is allowed where it stands. -/
def ActionSite.Allowed (isPredeclared : Bytes → Bool) (a : ActionSite) : Prop :=
  match a.action with
  | .leave _ | .again _ => a.place.InLoop
  | .ret _ => a.place.InFunction
  | .assign x => x.IsVariable isPredeclared a.place.regions

/-- How an action that is not allowed is reported. -/
def RuledAction.code : RuledAction → DiagnosticCode
  | .leave _ => .breakOutsideLoop
  | .again _ => .continueOutsideLoop
  | .ret _ => .returnOutsideFunction
  | .assign _ => .invalidTarget

/-- Where an action that is not allowed is reported. -/
def RuledAction.pos : RuledAction → Position
  | .leave p | .again p | .ret p => p
  | .assign x => x.start

/-- The reports that are about jumps and assignments. -/
def DiagnosticCode.ofRules : List DiagnosticCode :=
  [.breakOutsideLoop, .continueOutsideLoop, .returnOutsideFunction, .invalidTarget]

theorem RuledAction.code_mem (a : RuledAction) : a.code ∈ DiagnosticCode.ofRules := by
  cases a <;> simp [code, DiagnosticCode.ofRules]

section

variable {isPredeclared : Bytes → Bool} {rs : List Region} {n : Bytes} {s : Surroundings}

theorem Region.find?_table {r : Region} {sym : Symbol} (hsym : sym ∈ r.table.symbols)
    (hname : sym.name = n) : r.table.find? n = some sym := by
  cases hf : r.table.find? n with
  | none => exact absurd hname (by simpa using List.find?_eq_none.1 hf sym hsym)
  | some sym' =>
    have hname' : sym'.name = n := by simpa using List.find?_some hf
    rw [List.inj_on_of_nodup_map r.numbered_table.distinct hsym (List.mem_of_find?_eq_some hf)
      (hname.trans hname'.symm)]

/-- A name means the symbol that is found for it in the tables. -/
theorem means_symbol_iff {sym : Symbol} :
    Means isPredeclared n rs (.symbol sym) ↔ Scope.lookup (rs.map Region.table) n = some sym := by
  constructor
  · intro h
    generalize href : Referent.symbol sym = ref at h
    induction h with
    | @declared r rs sym' hsym hname =>
      cases href
      rw [List.map_cons, Scope.lookup, Region.find?_table hsym hname]
    | @outer r rs ref hn _ ih =>
      rw [List.map_cons, Scope.lookup, Region.find?_table_eq_none.2 hn]
      exact ih href
    | predeclared _ => cases href
    | undeclared _ => cases href
  · intro h
    have hm : Means isPredeclared n rs (meaning isPredeclared rs n) := means_meaning
    rwa [meaning, h] at hm

theorem isVariable_iff {x : Expr} (h : s.scopes = rs.map Region.table) :
    x.IsVariable isPredeclared rs ↔ x.targetProblem? s = none := by
  cases x with
  | name p n =>
    simp only [Expr.IsVariable, Expr.targetProblem?, means_symbol_iff, h]
    cases Scope.lookup (rs.map Region.table) n <;> simp
  | _ => simp [Expr.IsVariable, Expr.targetProblem?]

instance (x : Expr) : Decidable (x.IsVariable isPredeclared rs) :=
  decidable_of_iff _
    (isVariable_iff (s := { isPredeclared, scopes := rs.map Region.table }) rfl).symm

instance : DecidablePred (ActionSite.Allowed isPredeclared) := fun a => by
  unfold ActionSite.Allowed
  split <;> infer_instance

end

/-! ### What analysis finds -/

/-- What a finding says of jumps and assignments. -/
def Finding.faults : Finding → List (DiagnosticCode × Position)
  | .problem _ d => if d.problem.code ∈ DiagnosticCode.ofRules then [(d.problem.code, d.pos)] else []
  | _ => []

/-- What a site says of an action. -/
def ActionSite.faults (isPredeclared : Bytes → Bool) (a : ActionSite) :
    List (DiagnosticCode × Position) :=
  if a.Allowed isPredeclared then [] else [(a.action.code, a.action.pos)]

/-- The surroundings are those of a construct at the given place. -/
structure Surroundings.At (s : Surroundings) (w : Whereabouts) : Prop where
  scopes : s.scopes = w.regions.map Region.table
  loops : 0 < s.loops ↔ w.InLoop
  inFunction : s.inFunction = true ↔ w.InFunction

namespace Surroundings.At

variable {s : Surroundings} {w : Whereabouts}

theorem enter (h : s.At w) (r : Region) : (s.enter r.table).At (w.enter r) where
  scopes := congrArg (r.table :: ·) h.scopes
  loops := h.loops
  inFunction := h.inFunction

theorem loop (h : s.At w) : At { s with loops := s.loops + 1 } (w.inside .loop) where
  scopes := h.scopes
  loops := iff_of_true (Nat.succ_pos _) rfl
  inFunction := h.inFunction

/-- A jump out of a loop does not leave a template, a return does. -/
theorem template (h : s.At w) : At { s with loops := 0 } (w.inside .template) where
  scopes := h.scopes
  loops := iff_of_false (Nat.lt_irrefl 0) nofun
  inFunction := h.inFunction

theorem condition (h : s.At w) :
    At { s with loops := 0, inFunction := false } (w.inside .condition) where
  scopes := h.scopes
  loops := iff_of_false (Nat.lt_irrefl 0) nofun
  inFunction := iff_of_false nofun nofun

theorem function (h : s.At w) :
    At { s with loops := 0, inFunction := true } (w.inside .function) where
  scopes := h.scopes
  loops := iff_of_false (Nat.lt_irrefl 0) nofun
  inFunction := iff_of_true rfl rfl

end Surroundings.At

section

variable {isPredeclared : Bytes → Bool} {s : Surroundings} {w : Whereabouts}

/-- What is found in a construct tells which of the actions in it are not allowed. -/
def SameFaults (isPredeclared : Bytes → Bool) (fs : List Finding) (as : List ActionSite) : Prop :=
  fs.flatMap Finding.faults = as.flatMap (ActionSite.faults isPredeclared)

namespace SameFaults

variable {fs gs : List Finding} {as bs : List ActionSite}

theorem nil : SameFaults isPredeclared [] [] := rfl

theorem append (h : SameFaults isPredeclared fs as) (h' : SameFaults isPredeclared gs bs) :
    SameFaults isPredeclared (fs ++ gs) (as ++ bs) := by
  rw [SameFaults, List.flatMap_append, List.flatMap_append, h, h']

/-- Findings about other things come before. -/
theorem after (h : SameFaults isPredeclared fs as) (hg : gs.flatMap Finding.faults = []) :
    SameFaults isPredeclared (gs ++ fs) as := by
  rw [SameFaults, List.flatMap_append, hg, List.nil_append, h]

/-- Findings about other things come after. -/
theorem before (h : SameFaults isPredeclared fs as) (hg : gs.flatMap Finding.faults = []) :
    SameFaults isPredeclared (fs ++ gs) as := by
  rw [SameFaults, List.flatMap_append, hg, List.append_nil, h]

theorem cons {f : Finding} (h : SameFaults isPredeclared fs as) (hf : f.faults = []) :
    SameFaults isPredeclared (f :: fs) as := by
  rw [SameFaults, List.flatMap_cons, hf, List.nil_append, h]

theorem flatMap {α : Type} {g : α → List Finding} {q : α → List ActionSite}
    (h : ∀ a, SameFaults isPredeclared (g a) (q a)) (l : List α) :
    SameFaults isPredeclared (l.flatMap g) (l.flatMap q) := by
  induction l with
  | nil => exact nil
  | cons a l ih => exact (h a).append ih

/-- A jump is reported unless it is allowed. -/
theorem jump {ok : Bool} {pass : Pass} {p : Position} {problem : Problem} {a : ActionSite}
    (hok : ok = true ↔ a.Allowed isPredeclared) (hp : a.action.pos = p)
    (hcode : a.action.code = problem.code) :
    SameFaults isPredeclared (require ok pass p problem) [a] := by
  have hrule : problem.code ∈ DiagnosticCode.ofRules := hcode ▸ a.action.code_mem
  rw [SameFaults, List.flatMap_singleton, ActionSite.faults, hp, hcode]
  cases ok with
  | true =>
    rw [if_pos (hok.1 rfl)]
    rfl
  | false =>
    rw [if_neg fun ha => nomatch hok.2 ha]
    simp [require, Finding.faults, hrule]

/-- An assignment is reported at its target unless it is allowed. -/
theorem assign (h : s.At w) (x : Expr) :
    SameFaults isPredeclared (match x.targetProblem? s with
      | some what => [.problem .rules ⟨x.start, .invalidTarget what⟩]
      | none => []) [⟨.assign x, w⟩] := by
  have hx : ActionSite.Allowed isPredeclared ⟨.assign x, w⟩ ↔ x.targetProblem? s = none :=
    isVariable_iff h.scopes
  rw [SameFaults, List.flatMap_singleton, ActionSite.faults]
  cases hp : x.targetProblem? s with
  | none =>
    rw [if_pos (hx.2 hp)]
    rfl
  | some what =>
    rw [if_neg fun ha => nomatch hp.symm.trans (hx.1 ha)]
    rfl

end SameFaults

theorem faults_targetNote (write : Bool) (x : Expr) (op : String) :
    (targetNote write x op).flatMap Finding.faults = [] := by
  cases write <;> rfl

theorem faults_require {ok : Bool} {pass : Pass} {p : Position} {problem : Problem}
    (h : problem.code ∉ DiagnosticCode.ofRules) :
    (require ok pass p problem).flatMap Finding.faults = [] := by
  cases ok <;> simp [require, Finding.faults, h]

theorem faults_duplicates (ps : List Param) : (duplicates ps).flatMap Finding.faults = [] := by
  rw [List.flatMap_eq_nil_iff]
  intro f hf
  obtain ⟨p, -, rfl⟩ := List.mem_map.1 hf
  rfl

mutual

theorem Expr.sameFaults : (x : Expr) → ∀ {s : Surroundings} {w : Whereabouts} (write : Bool),
    s.At w → SameFaults isPredeclared (x.findings s write) (x.actions w)
  | .literal .., _, _ | .null _, _, _ => fun _ _ => .nil
  | .name .., _, _ => fun _ _ => faults_require (by simp [Problem.code, DiagnosticCode.ofRules])
  | .unary _ _ x, _, _ => fun _ h => Expr.sameFaults x false h
  | .binary x _ _ y, _, _ => fun _ h => by
    rw [Expr.findings, Expr.actions, List.append_assoc]
    exact ((Expr.sameFaults x false h).append (Expr.sameFaults y false h)).after
      (faults_targetNote ..)
  | .assign x _ y, _, _ => fun _ h => by
    rw [Expr.findings, Expr.actions, List.append_assoc, List.append_assoc]
    exact ((SameFaults.assign h x).append
      ((Expr.sameFaults x true h).append (Expr.sameFaults y false h))).after (faults_targetNote ..)
  | .index x _ args _, _, _ => fun _ h => by
    rw [Expr.findings, Expr.actions, List.append_assoc]
    exact ((Expr.sameFaults x false h).append (sameFaults_exprs args h)).after
      (faults_targetNote ..)
  | .member x _ p n, _, _ => fun _ h => by
    rw [Expr.findings, Expr.actions]
    exact ((Expr.sameFaults x false h).after (faults_targetNote ..)).before rfl
  | .method x _ p n _ args r, _, _ => fun _ h => by
    rw [Expr.findings, Expr.actions, List.append_assoc]
    exact ((Expr.sameFaults x false h).append
      ((sameFaults_exprs args h).cons rfl)).after (faults_targetNote ..)
  | .call p n _ args _, s, _ => fun _ h => by
    rw [Expr.findings, Expr.actions]
    have names : (require (s.canCall n) .names p (.undeclaredFunction n)).flatMap Finding.faults = [] :=
      faults_require (by simp [Problem.code, DiagnosticCode.ofRules])
    exact ((sameFaults_exprs args h).after names).cons rfl
  | .new _ x _ args _, _, _ => fun _ h =>
    (Expr.sameFaults x false h).append (sameFaults_exprs args h)
  | .list _ items _, _, _ => fun _ h => sameFaults_exprs items h
  | .template b, _, _ => fun _ h => Block.sameFaults b [] rfl false h.template

theorem sameFaults_exprs : (xs : List Expr) → ∀ {s : Surroundings} {w : Whereabouts},
    s.At w → SameFaults isPredeclared (exprsFindings s xs) (exprsActions w xs)
  | [], _, _ => fun _ => .nil
  | x :: xs, _, _ => fun h => (Expr.sameFaults x false h).append (sameFaults_exprs xs h)

theorem Block.sameFaults : (b : Block) → ∀ (given : Region) {s : Surroundings} {w : Whereabouts},
    Region.repeats [] given = [] → (external : Bool) → s.At w →
    SameFaults isPredeclared (b.findings s given.table external) (b.actions w given)
  | .mk l stmts r t, given, s, w => fun hg external h => by
    let b := Block.mk l stmts r t
    have hscope : b.scope given.table = _ := b.scope_table given hg
    rw [Block.findings, hscope, Block.actions]
    exact ((sameFaults_stmts stmts (h.enter (b.region given))).after (faults_duplicates _)).cons rfl

theorem sameFaults_optBlock : (b : Option Block) → ∀ {s : Surroundings} {w : Whereabouts},
    s.At w → SameFaults isPredeclared (optBlockFindings s b) (optBlockActions w b)
  | none, _, _ => fun _ => .nil
  | some b, _, _ => fun h => Block.sameFaults b [] rfl false h

theorem sameFaults_stmts : (sts : List Stmt) → ∀ {s : Surroundings} {w : Whereabouts},
    s.At w → SameFaults isPredeclared (stmtsFindings s sts) (stmtsActions w sts)
  | [], _, _ => fun _ => .nil
  | st :: sts, _, _ => fun h => (Stmt.sameFaults st h).append (sameFaults_stmts sts h)

theorem sameFaults_varDefs : (vs : List VarDef) → ∀ {s : Surroundings} {w : Whereabouts},
    s.At w → SameFaults isPredeclared (varDefsFindings s vs) (varDefsActions w vs)
  | [], _, _ => fun _ => .nil
  | .mk _ _ none :: vs, _, _ => fun h => sameFaults_varDefs vs h
  | .mk _ _ (some x) :: vs, _, _ => fun h =>
    (Expr.sameFaults x false h).append (sameFaults_varDefs vs h)

theorem sameFaults_cases : (cs : List SwitchCase) → ∀ {s : Surroundings} {w : Whereabouts},
    s.At w → SameFaults isPredeclared (casesFindings s cs) (casesActions w cs)
  | [], _, _ => fun _ => .nil
  | .mk _ values body :: cs, _, _ => fun h =>
    ((sameFaults_exprs values h).append (Block.sameFaults body [] rfl false h)).append
      (sameFaults_cases cs h)

theorem sameFaults_where (var : Param) : (f : Option WhereClause) →
    ∀ {s : Surroundings} {w : Whereabouts}, s.At w →
    SameFaults isPredeclared (whereFindings s var.name f) (whereActions w var f)
  | none, _, _ => fun _ => .nil
  | some (.mk _ x), _, _ => fun h =>
    (Expr.sameFaults x false (h.enter [var.declaration .parameter]).condition).cons rfl

theorem Stmt.sameFaults : (st : Stmt) → ∀ {s : Surroundings} {w : Whereabouts},
    s.At w → SameFaults isPredeclared (st.findings s) (st.actions w)
  | .block b, _, _ => fun h => Block.sameFaults b [] rfl false h
  | .text .., _, _ => fun _ => .nil
  | .define _ vars, _, _ => fun h => sameFaults_varDefs vars h
  | .output _ xs, _, _ => fun h => sameFaults_exprs xs h
  | .expr x, _, _ => fun h => Expr.sameFaults x false h
  | .ret _ none, _, _ => fun h => .jump h.inFunction rfl rfl
  | .ret p (some x), s, w => fun h => by
    have jump : SameFaults isPredeclared
        (require s.inFunction .rules p .returnOutsideFunction) [⟨.ret p, w⟩] :=
      .jump h.inFunction rfl rfl
    exact jump.append (Expr.sameFaults x false h)
  | .cond _ test yes no, _, _ => fun h =>
    ((Expr.sameFaults test false h).append (Block.sameFaults yes [] rfl false h)).append
      (sameFaults_optBlock no h)
  | .loop _ test body, _, _ => fun h =>
    (Expr.sameFaults test false h.loop).append (Block.sameFaults body [] rfl false h.loop)
  | .each _ p var x filter body between, _, _ => fun h => by
    let given : Region := [Param.declaration .localVar ⟨p, var⟩]
    have hscope := body.scope_table given rfl
    rw [Stmt.findings, Stmt.actions]
    refine (((Expr.sameFaults x false h.loop).append
      (sameFaults_where ⟨p, var⟩ filter h.loop)).append
      (Block.sameFaults body given rfl true h.loop)).append ?_
    change SameFaults _
      (optBlockFindings (Surroundings.enter _ (body.scope given.table).1) between) _
    rw [hscope]
    exact sameFaults_optBlock between (h.loop.enter (body.region given))
  | .leave _, _, _ => fun h => .jump (decide_eq_true_iff.trans h.loops) rfl rfl
  | .again _, _, _ => fun h => .jump (decide_eq_true_iff.trans h.loops) rfl rfl
  | .switch _ x cases dflt _, _, _ => fun h =>
    ((Expr.sameFaults x false h).append (sameFaults_cases cases h)).append
      (sameFaults_optBlock dflt h)

end

theorem FunctionDecl.sameFaults (f : FunctionDecl) (h : s.At w) :
    SameFaults isPredeclared (f.findings s) (f.actions w) := by
  let ps : Region := f.params.map (·.declaration .parameter)
  unfold FunctionDecl.findings
  rw [f.scope_table]
  exact ((Block.sameFaults f.body [] rfl false (h.enter ps).function).after
    (faults_duplicates _)).cons rfl

end

theorem faults_loadFindings (m : Module) (failures : List (Bytes × Bytes)) :
    (m.loadFindings failures).flatMap Finding.faults = [] := by
  rw [List.flatMap_eq_nil_iff]
  intro f hf
  obtain ⟨⟨name, reason⟩, -, rfl⟩ := List.mem_map.1 hf
  rfl

theorem Module.sameFaults (m : Module) (env : ResolveEnv) :
    SameFaults env.isPredeclared (m.findings env).2 (m.actions env) := by
  let s := m.around env
  let w : Whereabouts := ⟨[], [m.region env]⟩
  have hs : s.At w :=
    ⟨rfl, iff_of_false (Nat.lt_irrefl 0) nofun, iff_of_false nofun nofun⟩
  have functions : SameFaults env.isPredeclared (m.functions.flatMap (·.findings s))
      (m.functions.flatMap (·.actions w)) := .flatMap (fun f => f.sameFaults hs) _
  have defs : SameFaults env.isPredeclared (m.defs.flatMap fun d => varDefsFindings s d.vars)
      (m.defs.flatMap fun d => varDefsActions w d.vars) :=
    .flatMap (fun d : GlobalDef => sameFaults_varDefs d.vars hs) _
  rw [m.findings_eq env]
  refine .append (.append (.after functions ?_) defs) (sameFaults_stmts m.stmts hs)
  rw [List.flatMap_append, faults_loadFindings, faults_duplicates, List.append_nil]

theorem faults_findings (fs : List Finding) : ((fs.filterMap Finding.problem?).filter
    (·.problem.code ∈ DiagnosticCode.ofRules)).map (fun d => (d.problem.code, d.pos)) =
      fs.flatMap Finding.faults := by
  induction fs with
  | nil => rfl
  | cons f fs ih =>
    cases f with
    | problem pass d =>
      have hd : Finding.problem? (.problem pass d) = some d := rfl
      rw [List.filterMap_cons, hd, List.flatMap_cons, ← ih, Finding.faults]
      by_cases hrule : d.problem.code ∈ DiagnosticCode.ofRules <;> simp [hrule]
    | _ => exact ih

theorem faults_actions (isPredeclared : Bytes → Bool) (as : List ActionSite) :
    (as.filter fun a => ¬ a.Allowed isPredeclared).map (fun a => (a.action.code, a.action.pos)) =
      as.flatMap (ActionSite.faults isPredeclared) := by
  induction as with
  | nil => rfl
  | cons a as ih =>
    rw [List.flatMap_cons, ← ih, ActionSite.faults]
    by_cases ha : a.Allowed isPredeclared <;> simp [ha]

/-- Exactly the jumps and assignments that are not allowed are reported, each once. -/
theorem Module.reports_actions (m : Module) (env : ResolveEnv) :
    (((m.diagnose env).filter (·.problem.code ∈ DiagnosticCode.ofRules)).map
      fun d => (d.problem.code, d.pos)).Perm
    (((m.actions env).filter fun a => ¬ a.Allowed env.isPredeclared).map
      fun a => (a.action.code, a.action.pos)) := by
  rw [faults_actions, ← m.sameFaults env, ← faults_findings]
  exact ((m.diagnose_perm env).filter _).map _

end Stencil
