import Stencil.Proofs.Scope.Regions

/-!
# What analysis finds is what the sites say

A finding says something of the names of a module, and so does a site, if names are resolved by
lexical scope. The walk of analysis and the list of sites follow the same tree, so both are told
construct by construct (`SameFacts`); the tables in the surroundings of the walk are those of the
regions around a site (`Surroundings.Stands`).
-/

namespace Stencil

/-! ### What analysis finds -/

/-- What a finding or a site says of the names of a module. -/
inductive Fact where
  | use (pos : Position) (name : Bytes) (ref : Referent)
  | scope (sc : Scope)
  | report (d : Diagnostic)

/-- The reports that are about names. -/
def DiagnosticCode.ofNames : List DiagnosticCode :=
  [.undeclaredIdentifier, .undeclaredFunction, .duplicateDeclaration]

/-- What a finding says of names. -/
def Finding.facts : Finding → List Fact
  | .ident span n _ ref => [.use span.first n ref]
  | .region _ _ _ _ sc => [.scope sc]
  | .problem _ d => if d.problem.code ∈ DiagnosticCode.ofNames then [.report d] else []
  | _ => []

/-- What a site says, if names are resolved by lexical scope; `top` is the region of the
module. -/
def Site.facts (isPredeclared : Bytes → Bool) (top : Region) : Site → List Fact
  | .name u =>
    .use u.pos u.name (meaning isPredeclared u.regions u.name) ::
      if u.IsUndeclared isPredeclared then [.report ⟨u.pos, .undeclaredIdentifier u.name⟩] else []
  | .call p n =>
    if ¬ top.Declares n ∧ isPredeclared n = false then [.report ⟨p, .undeclaredFunction n⟩] else []
  | .region r =>
    .scope r.table ::
      (Region.repeats [] r).map fun d => .report ⟨d.pos, .duplicateDeclaration d.name⟩

/-- A name at the site stands inside the region of the module. -/
def Site.Within (top : Region) : Site → Prop
  | .name u => top ∈ u.regions
  | _ => True

/-- The surroundings are those of a construct in the regions `rs` of a module. -/
structure Surroundings.Stands (s : Surroundings) (isPredeclared : Bytes → Bool)
    (rs : List Region) (top : Region) : Prop where
  predeclared : s.isPredeclared = isPredeclared
  scopes : s.scopes = rs.map Region.table
  top : rs.getLast? = some top

section

variable {isPredeclared : Bytes → Bool} {rs : List Region} {top : Region} {s : Surroundings}

/-- What is found in a construct is what its sites say, and these stand in the module. -/
structure SameFacts (isPredeclared : Bytes → Bool) (top : Region) (fs : List Finding)
    (ss : List Site) : Prop where
  facts : fs.flatMap Finding.facts = ss.flatMap (Site.facts isPredeclared top)
  within : ∀ site ∈ ss, site.Within top

theorem sameFacts_nil : SameFacts isPredeclared top [] [] := ⟨rfl, nofun⟩

theorem sameFacts_singleton {fs : List Finding} {site : Site}
    (h : fs.flatMap Finding.facts = site.facts isPredeclared top) (hw : site.Within top) :
    SameFacts isPredeclared top fs [site] where
  facts := by rw [h, List.flatMap_singleton]
  within := List.forall_mem_singleton.2 hw

theorem SameFacts.append {fs gs : List Finding} {ss ts : List Site}
    (h : SameFacts isPredeclared top fs ss)
    (h' : SameFacts isPredeclared top gs ts) : SameFacts isPredeclared top (fs ++ gs) (ss ++ ts) where
  facts := by rw [List.flatMap_append, List.flatMap_append, h.facts, h'.facts]
  within := List.forall_mem_append.2 ⟨h.within, h'.within⟩

/-- Findings that are not about names. -/
theorem SameFacts.after {fs gs : List Finding} {ss : List Site}
    (h : SameFacts isPredeclared top gs ss) (hf : fs.flatMap Finding.facts = []) :
    SameFacts isPredeclared top (fs ++ gs) ss where
  facts := by rw [List.flatMap_append, hf, List.nil_append, h.facts]
  within := h.within

theorem SameFacts.cons {f : Finding} {fs : List Finding} {ss : List Site}
    (h : SameFacts isPredeclared top fs ss) (hf : f.facts = []) :
    SameFacts isPredeclared top (f :: fs) ss :=
  h.after (show [f].flatMap Finding.facts = [] by simp [hf])

theorem SameFacts.before {fs gs : List Finding} {ss : List Site}
    (h : SameFacts isPredeclared top fs ss) (hg : gs.flatMap Finding.facts = []) :
    SameFacts isPredeclared top (fs ++ gs) ss where
  facts := by rw [List.flatMap_append, hg, List.append_nil, h.facts]
  within := h.within

theorem facts_targetNote (write : Bool) (x : Expr) (op : String) :
    (targetNote write x op).flatMap Finding.facts = [] := by
  cases write <;> rfl

theorem facts_require {ok : Bool} {pass : Pass} {p : Position} {problem : Problem}
    (h : problem.code ∉ DiagnosticCode.ofNames) :
    (require ok pass p problem).flatMap Finding.facts = [] := by
  cases ok <;> simp [require, Finding.facts, h]

theorem facts_duplicates (ds : Region) :
    (duplicates (ds.map (·.param))).flatMap Finding.facts =
      ds.map fun d => .report ⟨d.pos, .duplicateDeclaration d.name⟩ := by
  induction ds with
  | nil => rfl
  | cons d ds ih =>
    simp only [duplicates, List.map_cons, List.flatMap_cons] at ih ⊢
    rw [ih]
    rfl

namespace Surroundings.Stands

theorem enter (h : s.Stands isPredeclared rs top) (r : Region) {loops : Nat} {inFunction : Bool} :
    Stands { s.enter r.table with loops, inFunction } isPredeclared (r :: rs) top where
  predeclared := h.predeclared
  scopes := congrArg (r.table :: ·) h.scopes
  top := by
    have hne : rs ≠ [] := by
      rintro rfl
      cases h.top
    rw [List.getLast?_cons, h.top]
    rfl

theorem change (h : s.Stands isPredeclared rs top) {loops : Nat} :
    Stands { s with loops } isPredeclared rs top :=
  ⟨h.predeclared, h.scopes, h.top⟩

theorem refer (h : s.Stands isPredeclared rs top) (n : Bytes) :
    s.refer n = meaning isPredeclared rs n := by
  unfold Surroundings.refer meaning
  exact h.scopes ▸ h.predeclared ▸ rfl

theorem canCall (h : s.Stands isPredeclared rs top) (n : Bytes) :
    s.canCall n = decide (top.Declares n ∨ isPredeclared n = true) := by
  have htop : s.scopes.getLast? = some top.table := by
    rw [h.scopes, List.getLast?_map, h.top]
    rfl
  have hfind : (top.table.find? n).isSome = decide (top.Declares n) := by
    rw [Bool.eq_iff_iff, decide_eq_true_iff, ← not_iff_not, Bool.not_eq_true,
      Option.isSome_eq_false_iff, Option.isNone_iff_eq_none, Region.find?_table_eq_none]
  rw [Surroundings.canCall, htop, h.predeclared]
  simp only [hfind]
  cases isPredeclared n <;> simp

theorem sameFacts_name (h : s.Stands isPredeclared rs top) (span : Span) (n : Bytes)
    (write : Bool) :
    SameFacts isPredeclared top (.ident span n write (s.refer n) ::
      require (s.refer n ≠ .undeclared) .names span.first (.undeclaredIdentifier n))
      [.name ⟨span.first, n, rs⟩] := by
  refine sameFacts_singleton ?_ (List.mem_of_getLast? h.top)
  simp only [List.flatMap_cons, Finding.facts, Site.facts, h.refer, List.singleton_append]
  congr 1
  have hu : meaning isPredeclared rs n = .undeclared ↔ _ := meaning_eq_undeclared
  by_cases hm : meaning isPredeclared rs n = .undeclared
  · have hd : NameUse.IsUndeclared isPredeclared ⟨span.first, n, rs⟩ := hu.1 hm
    simp [require, hm, hd, Finding.facts, Problem.code, DiagnosticCode.ofNames]
  · have hd : ¬ NameUse.IsUndeclared isPredeclared ⟨span.first, n, rs⟩ := fun hd => hm (hu.2 hd)
    simp [require, hm, hd]

theorem sameFacts_call (h : s.Stands isPredeclared rs top) (p : Position) (n : Bytes) :
    SameFacts isPredeclared top (require (s.canCall n) .names p (.undeclaredFunction n))
      [.call p n] := by
  refine sameFacts_singleton ?_ trivial
  simp only [Site.facts, h.canCall]
  by_cases hc : top.Declares n ∨ isPredeclared n = true
  · have hn : ¬ (¬ top.Declares n ∧ isPredeclared n = false) := by
      rintro ⟨h₁, h₂⟩
      rcases hc with hc | hc
      · exact h₁ hc
      · simp [h₂] at hc
    rw [if_neg hn, decide_eq_true hc]
    rfl
  · have hn : ¬ top.Declares n ∧ isPredeclared n = false := by
      rw [not_or, Bool.not_eq_true] at hc
      exact hc
    rw [if_pos hn, decide_eq_false hc]
    rfl

end Surroundings.Stands

/-- A region with the reports of the declarations that repeat a name in it. -/
theorem sameFacts_region (span : Span) (kind : String) (depth : Nat) (external : Bool)
    (r : Region) :
    SameFacts isPredeclared top
      (.region span kind depth external r.table ::
        duplicates ((Region.repeats [] r).map (·.param))) [.region r] := by
  refine sameFacts_singleton ?_ trivial
  rw [List.flatMap_cons, facts_duplicates]
  rfl

/-- The region of a block, and the declarations that repeat a name in it. -/
theorem Block.scope_table (b : Block) (given : Region) (hg : Region.repeats [] given = []) :
    b.scope given.table =
      ((b.region given).table, (Region.repeats [] (b.region given)).map (·.param)) := by
  rw [Block.scope, Region.declareAll_table, Block.region, Region.repeats_append, hg,
    List.nil_append]

mutual

theorem Expr.sameFacts : (x : Expr) → ∀ {s : Surroundings} {rs : List Region} (write : Bool),
    s.Stands isPredeclared rs top →
    SameFacts isPredeclared top (x.findings s write) (x.sites rs)
  | .literal .., _, _ | .null _, _, _ => fun _ _ => sameFacts_nil
  | .name p n, _, _ => fun write h => h.sameFacts_name (Expr.name p n).span n write
  | .unary _ _ x, _, _ => fun _ h => Expr.sameFacts x false h
  | .binary x _ _ y, _, _ => fun _ h => by
    rw [Expr.findings, Expr.sites, List.append_assoc]
    exact ((Expr.sameFacts x false h).append (Expr.sameFacts y false h)).after (facts_targetNote ..)
  | .assign x _ y, s, _ => fun _ h => by
    have rules : (match x.targetProblem? s with
        | some what => [Finding.problem .rules ⟨x.start, .invalidTarget what⟩]
        | none => []).flatMap Finding.facts = [] := by
      cases x.targetProblem? s <;> rfl
    rw [Expr.findings, Expr.sites, List.append_assoc, List.append_assoc]
    exact (((Expr.sameFacts x true h).append (Expr.sameFacts y false h)).after rules).after
      (facts_targetNote ..)
  | .index x _ args _, _, _ => fun _ h => by
    rw [Expr.findings, Expr.sites, List.append_assoc]
    exact ((Expr.sameFacts x false h).append (sameFacts_exprs args h)).after (facts_targetNote ..)
  | .member x _ p n, _, _ => fun _ h => by
    rw [Expr.findings, Expr.sites]
    exact ((Expr.sameFacts x false h).after (facts_targetNote ..)).before rfl
  | .method x _ p n _ args r, _, _ => fun _ h => by
    rw [Expr.findings, Expr.sites, List.append_assoc]
    exact ((Expr.sameFacts x false h).append ((sameFacts_exprs args h).cons rfl)).after
      (facts_targetNote ..)
  | .call p n _ args _, _, _ => fun _ h => by
    rw [Expr.findings, Expr.sites]
    exact ((h.sameFacts_call p n).append (sameFacts_exprs args h)).cons rfl
  | .new _ x _ args _, _, _ => fun _ h => (Expr.sameFacts x false h).append (sameFacts_exprs args h)
  | .list _ items _, _, _ => fun _ h => sameFacts_exprs items h
  | .template b, _, _ => fun _ h => Block.sameFacts b [] rfl false h.change

theorem sameFacts_exprs : (xs : List Expr) → ∀ {s : Surroundings} {rs : List Region},
    s.Stands isPredeclared rs top →
    SameFacts isPredeclared top (exprsFindings s xs) (exprsSites rs xs)
  | [], _, _ => fun _ => sameFacts_nil
  | x :: xs, _, _ => fun h => (Expr.sameFacts x false h).append (sameFacts_exprs xs h)

theorem Block.sameFacts : (b : Block) → ∀ (given : Region) {s : Surroundings} {rs : List Region},
    Region.repeats [] given = [] → (external : Bool) → s.Stands isPredeclared rs top →
    SameFacts isPredeclared top (b.findings s given.table external) (b.sites rs given)
  | .mk l stmts r t, given, s, rs => fun hg external h => by
    let b := Block.mk l stmts r t
    have hscope : b.scope given.table = _ := b.scope_table given hg
    rw [Block.findings, hscope, Block.sites]
    exact (sameFacts_region ..).append (sameFacts_stmts stmts (h.enter (b.region given)))

theorem sameFacts_optBlock : (b : Option Block) → ∀ {s : Surroundings} {rs : List Region},
    s.Stands isPredeclared rs top →
    SameFacts isPredeclared top (optBlockFindings s b) (optBlockSites rs b)
  | none, _, _ => fun _ => sameFacts_nil
  | some b, _, _ => fun h => Block.sameFacts b [] rfl false h

theorem sameFacts_stmts : (sts : List Stmt) → ∀ {s : Surroundings} {rs : List Region},
    s.Stands isPredeclared rs top →
    SameFacts isPredeclared top (stmtsFindings s sts) (stmtsSites rs sts)
  | [], _, _ => fun _ => sameFacts_nil
  | st :: sts, _, _ => fun h => (Stmt.sameFacts st h).append (sameFacts_stmts sts h)

theorem sameFacts_varDefs : (vs : List VarDef) → ∀ {s : Surroundings} {rs : List Region},
    s.Stands isPredeclared rs top →
    SameFacts isPredeclared top (varDefsFindings s vs) (varDefsSites rs vs)
  | [], _, _ => fun _ => sameFacts_nil
  | .mk _ _ none :: vs, _, _ => fun h => sameFacts_varDefs vs h
  | .mk _ _ (some x) :: vs, _, _ => fun h =>
    (Expr.sameFacts x false h).append (sameFacts_varDefs vs h)

theorem sameFacts_cases : (cs : List SwitchCase) → ∀ {s : Surroundings} {rs : List Region},
    s.Stands isPredeclared rs top →
    SameFacts isPredeclared top (casesFindings s cs) (casesSites rs cs)
  | [], _, _ => fun _ => sameFacts_nil
  | .mk _ values body :: cs, _, _ => fun h =>
    ((sameFacts_exprs values h).append (Block.sameFacts body [] rfl false h)).append
      (sameFacts_cases cs h)

theorem sameFacts_where (var : Param) : (w : Option WhereClause) →
    ∀ {s : Surroundings} {rs : List Region}, s.Stands isPredeclared rs top →
    SameFacts isPredeclared top (whereFindings s var.name w) (whereSites rs var w)
  | none, _, _ => fun _ => sameFacts_nil
  | some (.mk p x), s, rs => fun h => by
    let r : Region := [var.declaration .parameter]
    exact (sameFacts_region (WhereClause.mk p x).span "ForWhereClause" _ false r).append
      (Expr.sameFacts x false (h.enter r))

theorem Stmt.sameFacts : (st : Stmt) → ∀ {s : Surroundings} {rs : List Region},
    s.Stands isPredeclared rs top →
    SameFacts isPredeclared top (st.findings s) (st.sites rs)
  | .block b, _, _ => fun h => Block.sameFacts b [] rfl false h
  | .text .., _, _ => fun _ => sameFacts_nil
  | .define _ vars, _, _ => fun h => sameFacts_varDefs vars h
  | .output _ xs, _, _ => fun h => sameFacts_exprs xs h
  | .expr x, _, _ => fun h => Expr.sameFacts x false h
  | .ret _ none, _, _ => fun _ => sameFacts_nil.before (facts_require (by decide))
  | .ret _ (some x), _, _ => fun h => (Expr.sameFacts x false h).after (facts_require (by decide))
  | .cond _ test yes no, _, _ => fun h =>
    ((Expr.sameFacts test false h).append (Block.sameFacts yes [] rfl false h)).append
      (sameFacts_optBlock no h)
  | .loop _ test body, _, _ => fun h =>
    (Expr.sameFacts test false h.change).append (Block.sameFacts body [] rfl false h.change)
  | .each _ p var x filter body between, s, rs => fun h => by
    let given : Region := [Param.declaration .localVar ⟨p, var⟩]
    have hscope := body.scope_table given rfl
    rw [Stmt.findings, Stmt.sites]
    refine (((Expr.sameFacts x false h.change).append
      (sameFacts_where ⟨p, var⟩ filter h.change)).append
      (Block.sameFacts body given rfl true h.change)).append ?_
    change SameFacts _ _
      (optBlockFindings (Surroundings.enter _ (body.scope given.table).1) between) _
    rw [hscope]
    exact sameFacts_optBlock between (h.change.enter (body.region given))
  | .leave _, _, _ | .again _, _, _ => fun _ => sameFacts_nil.before (facts_require (by decide))
  | .switch _ x cases dflt _, _, _ => fun h =>
    ((Expr.sameFacts x false h).append (sameFacts_cases cases h)).append (sameFacts_optBlock dflt h)

end

end

/-! ### Whole modules -/

theorem Module.scope_table (m : Module) (env : ResolveEnv) :
    m.scope (m.loaded env).1 =
      ((m.region env).table, (Region.repeats [] (m.region env)).map (·.param)) := by
  let roots : Region := (m.loaded env).1.map fun root => ⟨default, root, .nspace⟩
  obtain ⟨hfirsts, hrepeats⟩ := @Region.firsts_firsts roots []
  have htable : Region.table (Region.firsts [] roots) = Region.table roots := by
    rw [Region.table, hfirsts, Region.table]
  have hroots : (Scope.declareAll .nspace (Region.table [])
      ((m.loaded env).1.map fun r => ⟨default, r⟩)).1 = Region.table (Region.firsts [] roots) := by
    rw [Region.declareAll_table, List.nil_append, List.map_map, htable]
    rfl
  have hnames : m.scope (m.loaded env).1 =
      Scope.declareAll .global (Region.table (Region.firsts [] roots)) m.declares := by
    rw [← hroots]
    rfl
  rw [hnames, Region.declareAll_table, Module.region, Region.repeats_append, hrepeats,
    List.nil_append]

/-- What surrounds the constructs of a module. -/
def Module.around (m : Module) (env : ResolveEnv) : Surroundings :=
  { isPredeclared := env.isPredeclared, scopes := [(m.region env).table] }

theorem Module.findings_eq (m : Module) (env : ResolveEnv) :
    m.findings env = ((m.region env).table, m.loadFindings (m.loaded env).2 ++
      duplicates ((Region.repeats [] (m.region env)).map (·.param)) ++
      m.functions.flatMap (·.findings (m.around env)) ++
      m.defs.flatMap (fun d => varDefsFindings (m.around env) d.vars) ++
      stmtsFindings (m.around env) m.stmts) := by
  simp only [Module.findings, m.scope_table env]
  rfl

/-- The table of the parameters of a function, and those that repeat a name. -/
theorem FunctionDecl.scope_table (f : FunctionDecl) :
    Scope.declareAll .parameter {} f.params =
      (Region.table (f.params.map (·.declaration .parameter)),
        (Region.repeats [] (f.params.map (·.declaration .parameter))).map (·.param)) :=
  Region.declareAll_table [] f.params .parameter

theorem facts_loadFindings (m : Module) (failures : List (Bytes × Bytes)) :
    (m.loadFindings failures).flatMap Finding.facts = [] := by
  rw [List.flatMap_eq_nil_iff]
  intro f hf
  obtain ⟨⟨name, reason⟩, -, rfl⟩ := List.mem_map.1 hf
  rfl

section

variable {isPredeclared : Bytes → Bool} {rs : List Region} {top : Region} {s : Surroundings}

theorem FunctionDecl.sameFacts (f : FunctionDecl) (h : s.Stands isPredeclared rs top) :
    SameFacts isPredeclared top (f.findings s) (f.sites rs) := by
  let ps : Region := f.params.map (·.declaration .parameter)
  unfold FunctionDecl.findings
  rw [f.scope_table]
  exact (sameFacts_region f.span "Function" _ false ps).append
    (Block.sameFacts f.body [] rfl false (h.enter ps))

/-- Several constructs, one after the other. -/
theorem SameFacts.flatMap {α : Type} {g : α → List Finding} {q : α → List Site}
    (h : ∀ a, SameFacts isPredeclared top (g a) (q a)) (as : List α) :
    SameFacts isPredeclared top (as.flatMap g) (as.flatMap q) := by
  induction as with
  | nil => exact sameFacts_nil
  | cons a as ih => exact (h a).append ih

end

theorem Module.fst_findings (m : Module) (env : ResolveEnv) :
    (m.findings env).1 = (m.region env).table :=
  congrArg Prod.fst (m.scope_table env)

/-- What analysis finds in a module is what its sites say. -/
theorem Module.sameFacts (m : Module) (env : ResolveEnv) :
    .scope (m.findings env).1 :: (m.findings env).2.flatMap Finding.facts =
        (m.sites env).flatMap (Site.facts env.isPredeclared (m.region env)) ∧
      ∀ site ∈ m.sites env, site.Within (m.region env) := by
  let r := m.region env
  have hs : (m.around env).Stands env.isPredeclared [r] r := ⟨rfl, rfl, rfl⟩
  have rest := ((SameFacts.flatMap (fun f => FunctionDecl.sameFacts f hs) m.functions).append
    (SameFacts.flatMap (fun d : GlobalDef => sameFacts_varDefs d.vars hs) m.defs)).append
    (sameFacts_stmts m.stmts hs)
  constructor
  · have facts := rest.facts
    rw [List.append_assoc, List.append_assoc] at facts
    rw [m.findings_eq env, Module.sites, List.append_assoc, List.append_assoc, List.append_assoc,
      List.flatMap_append, List.flatMap_append, facts_loadFindings, facts_duplicates, facts,
      List.cons_append, List.cons_append, List.flatMap_cons, List.append_assoc]
    rfl
  · rw [Module.sites, List.cons_append, List.cons_append]
    exact List.forall_mem_cons.2 ⟨trivial, rest.within⟩

end Stencil
