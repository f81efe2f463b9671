import Mathlib.Data.List.Forall2
import Mathlib.Data.List.Perm.Basic
import Stencil.Proofs.Scope.Agreement

/-!
# Analysis resolves names by lexical scope

The uses, the tables and the reports of a module are read off the facts that its findings and its
sites share.
-/

namespace Stencil

/-! ### Facts by kind -/

/-- The use of a name. -/
def Fact.use? : Fact → Option (Position × Bytes × Referent)
  | .use p n ref => some (p, n, ref)
  | _ => none

/-- The table of a region. -/
def Fact.scope? : Fact → Option Scope
  | .scope sc => some sc
  | _ => none

/-- A report of the given kind. -/
def Fact.report? (code : DiagnosticCode) : Fact → Option Diagnostic
  | .report d => if d.problem.code = code then some d else none
  | _ => none

/-- The report of a finding. -/
def Finding.problem? : Finding → Option Diagnostic
  | .problem _ d => some d
  | _ => none

namespace Fact

variable {code : DiagnosticCode} {p : Position} {n : Bytes} {ref : Referent} {sc : Scope}
  {d : Diagnostic}

@[simp] theorem use?_use : use? (.use p n ref) = some (p, n, ref) := rfl
@[simp] theorem use?_scope : use? (.scope sc) = none := rfl
@[simp] theorem use?_report : use? (.report d) = none := rfl
@[simp] theorem scope?_use : scope? (.use p n ref) = none := rfl
@[simp] theorem scope?_scope : scope? (.scope sc) = some sc := rfl
@[simp] theorem scope?_report : scope? (.report d) = none := rfl
@[simp] theorem report?_use : report? code (.use p n ref) = none := rfl
@[simp] theorem report?_scope : report? code (.scope sc) = none := rfl
@[simp] theorem report?_report :
    report? code (.report d) = if d.problem.code = code then some d else none := rfl

end Fact

/-- A kind of fact, told piece by piece. -/
theorem filterMap_facts {α β : Type} {g : α → List Fact} {p : Fact → Option β} {q : α → Option β}
    (h : ∀ a, (g a).filterMap p = (q a).toList) (as : List α) :
    (as.flatMap g).filterMap p = as.filterMap q := by
  rw [List.filterMap_flatMap, List.filterMap_eq_flatMap_toList]
  simp only [h]

theorem Finding.facts_problem (pass : Pass) (d : Diagnostic) :
    facts (.problem pass d) = if d.problem.code ∈ DiagnosticCode.ofNames then [.report d] else [] :=
  rfl

theorem uses_findings (fs : List Finding) :
    (fs.flatMap Finding.facts).filterMap Fact.use? = fs.filterMap Finding.use? := by
  refine filterMap_facts (fun f => ?_) fs
  cases f with
  | problem pass d =>
    rw [Finding.facts_problem]
    split <;> rfl
  | _ => rfl

theorem scopes_findings (fs : List Finding) :
    (fs.flatMap Finding.facts).filterMap Fact.scope? = fs.filterMap Finding.scope? := by
  refine filterMap_facts (fun f => ?_) fs
  cases f with
  | problem pass d =>
    rw [Finding.facts_problem]
    split <;> rfl
  | _ => rfl

theorem reports_findings {code : DiagnosticCode} (hc : code ∈ DiagnosticCode.ofNames)
    (fs : List Finding) : (fs.flatMap Finding.facts).filterMap (Fact.report? code) =
      (fs.filterMap Finding.problem?).filter (·.problem.code = code) := by
  rw [List.filter_filterMap]
  refine filterMap_facts (fun f => ?_) fs
  cases f with
  | problem pass d =>
    rw [Finding.facts_problem]
    by_cases hd : d.problem.code = code
    · simp [Finding.problem?, hd, hc, Option.filter_some]
    · split <;> simp [Finding.problem?, hd, Option.filter_some]
  | _ => rfl

section

variable (isPredeclared : Bytes → Bool) (top : Region) (ss : List Site)

theorem uses_sites : (ss.flatMap (Site.facts isPredeclared top)).filterMap Fact.use? =
    (ss.filterMap Site.name?).map fun u =>
      (u.pos, u.name, meaning isPredeclared u.regions u.name) := by
  rw [List.map_filterMap]
  refine filterMap_facts (fun site => ?_) ss
  cases site with
  | name u =>
    simp only [Site.facts, Site.name?]
    split <;> rfl
  | call p n =>
    simp only [Site.facts, Site.name?]
    split <;> rfl
  | region r => simp [Site.facts, Site.name?]

theorem scopes_sites : (ss.flatMap (Site.facts isPredeclared top)).filterMap Fact.scope? =
    (ss.filterMap Site.region?).map Region.table := by
  rw [List.map_filterMap]
  refine filterMap_facts (fun site => ?_) ss
  cases site with
  | name u =>
    simp only [Site.facts, Site.region?]
    split <;> rfl
  | call p n =>
    simp only [Site.facts, Site.region?]
    split <;> rfl
  | region r => simp [Site.facts, Site.region?, List.filterMap_map, Function.comp_def]

theorem undeclaredIdentifiers_sites :
    (ss.flatMap (Site.facts isPredeclared top)).filterMap (Fact.report? .undeclaredIdentifier) =
      ((ss.filterMap Site.name?).filter (·.IsUndeclared isPredeclared)).map
        fun u => ⟨u.pos, .undeclaredIdentifier u.name⟩ := by
  rw [List.filter_filterMap, List.map_filterMap]
  refine filterMap_facts (fun site => ?_) ss
  cases site with
  | name u =>
    by_cases hu : u.IsUndeclared isPredeclared <;>
      simp [Site.facts, Site.name?, hu, List.filterMap_cons, Problem.code, Option.filter_some]
  | call p n =>
    simp only [Site.facts, Site.name?]
    split <;> rfl
  | region r =>
    simp [Site.facts, Site.name?, Problem.code]

theorem undeclaredFunctions_sites :
    (ss.flatMap (Site.facts isPredeclared top)).filterMap (Fact.report? .undeclaredFunction) =
      ((ss.filterMap Site.call?).filter fun c =>
        ¬ top.Declares c.name ∧ isPredeclared c.name = false).map
        fun c => ⟨c.pos, .undeclaredFunction c.name⟩ := by
  rw [List.filter_filterMap, List.map_filterMap]
  refine filterMap_facts (fun site => ?_) ss
  cases site with
  | name u =>
    simp only [Site.facts, Site.call?]
    split <;> rfl
  | call p n =>
    by_cases hc : ¬ top.Declares n ∧ isPredeclared n = false <;>
      simp [Site.facts, Site.call?, Option.filter_some, hc, Problem.code]
  | region r =>
    simp [Site.facts, Site.call?, Problem.code]

theorem duplicates_sites :
    (ss.flatMap (Site.facts isPredeclared top)).filterMap (Fact.report? .duplicateDeclaration) =
      ((ss.filterMap Site.region?).flatMap (Region.repeats [])).map
        fun d => ⟨d.pos, .duplicateDeclaration d.name⟩ := by
  rw [List.filterMap_flatMap, List.map_flatMap, List.filterMap_eq_flatMap_toList,
    List.flatMap_assoc]
  congr 1
  funext site
  cases site with
  | name u =>
    simp only [Site.facts, Site.region?]
    split <;> rfl
  | call p n =>
    simp only [Site.facts, Site.region?]
    split <;> rfl
  | region r =>
    simp [Site.facts, Site.region?, List.filterMap_cons, List.filterMap_map, Function.comp_def,
      Problem.code]

end

/-! ### Reports -/

/-- The three passes report what the walk has found. -/
theorem problemsOf_perm (fs : List Finding) :
    (problemsOf .declarations fs ++ problemsOf .names fs ++ problemsOf .rules fs).Perm
      (fs.filterMap Finding.problem?) := by
  induction fs with
  | nil => rfl
  | cons f fs ih =>
    cases f with
    | problem pass d =>
      have cons (q : Pass) : problemsOf q (.problem pass d :: fs) =
          if pass = q then d :: problemsOf q fs else problemsOf q fs := by
        simp only [problemsOf, List.filterMap_cons]
        split <;> simp_all
      rw [cons, cons, cons]
      cases pass with
      | declarations => exact ih.cons d
      | names =>
        refine .trans ?_ (ih.cons d)
        exact List.perm_middle.append_right _
      | rules => exact List.perm_middle.trans (ih.cons d)
    | _ => exact ih

/-- What is reported is what the walk has found, in any order. -/
theorem Module.diagnose_perm (m : Module) (env : ResolveEnv) :
    (m.diagnose env).Perm ((m.findings env).2.filterMap Finding.problem?) :=
  (List.mergeSort_perm ..).trans (problemsOf_perm _)

/-- The reports of a kind that is about names, in any order. -/
theorem Module.reports_perm (m : Module) (env : ResolveEnv) (code : DiagnosticCode)
    (hc : code ∈ DiagnosticCode.ofNames) :
    (m.reports env code).Perm
      (((m.sites env).flatMap (Site.facts env.isPredeclared (m.region env))).filterMap
        (Fact.report? code)) := by
  rw [← (m.sameFacts env).1, List.filterMap_cons, Fact.report?_scope, reports_findings hc]
  exact (m.diagnose_perm env).filter _

/-! ### The region of the module with the predeclared names -/

/-- The predeclared names a module uses, as declarations. -/
def Module.predeclarations (m : Module) (env : ResolveEnv) : Region :=
  (predeclaredUses (m.findings env).2).map fun n => ⟨default, n, .global⟩

theorem Module.fullScope_eq (m : Module) (env : ResolveEnv) :
    m.fullScope env = (m.region env ++ m.predeclarations env).table := by
  have h : m.fullScope env = (Scope.declareAll .global (m.findings env).1
      ((predeclaredUses (m.findings env).2).map fun n => ⟨default, n⟩)).1 := rfl
  rw [h, m.fst_findings env, Region.declareAll_table, List.map_map]
  rfl

theorem Region.prefix_table (a b : Region) : a.table.symbols <+: (a ++ b).table.symbols := by
  rw [table, table, firsts_append, symbolsFrom_append]
  exact List.prefix_append _ _

/-- A predeclared name that is used gets a symbol of its own. -/
theorem Module.exists_predeclaration (m : Module) (env : ResolveEnv) {n : Bytes}
    (hn : ¬ (m.region env).Declares n) (hu : n ∈ predeclaredUses (m.findings env).2) :
    ∃ i, ⟨n, .global, i⟩ ∈ (m.fullScope env).symbols := by
  rw [m.fullScope_eq env]
  let d : Declaration := ⟨default, n, .global⟩
  have hd : d ∈ m.predeclarations env := List.mem_map_of_mem hu
  obtain ⟨sym, hsym, rfl⟩ := Region.exists_symbol (List.mem_append_right (m.region env) hd)
  obtain ⟨e, he, hname, hkind⟩ := Region.exists_declaration hsym
  refine ⟨sym.index, ?_⟩
  rcases List.mem_append.1 he with he | he
  · exact absurd ⟨e, he, hname⟩ hn
  · obtain ⟨name, -, rfl⟩ := List.mem_map.1 he
    have hglobal : SymbolKind.global = sym.kind := hkind
    rwa [hglobal]

/-- A use of a name that is taken for a predeclared one. -/
theorem mem_predeclaredUses {fs : List Finding} {p : Position} {n : Bytes}
    (h : (p, n, .predeclared) ∈ fs.filterMap Finding.use?) : n ∈ predeclaredUses fs := by
  rw [predeclaredUses, List.mem_eraseDups]
  obtain ⟨f, hf, huse⟩ := List.mem_filterMap.1 h
  refine List.mem_filterMap.2 ⟨f, hf, ?_⟩
  cases f with
  | ident => cases huse; rfl
  | _ => cases huse

/-! ### Lexical scope -/

/-- The uses of names that analysis meets, with what it takes the names for. -/
theorem Module.uses_eq (m : Module) (env : ResolveEnv) :
    (m.findings env).2.filterMap Finding.use? = (m.nameUses env).map fun u =>
      (u.pos, u.name, meaning env.isPredeclared u.regions u.name) := by
  rw [Module.nameUses, ← uses_sites env.isPredeclared (m.region env), ← (m.sameFacts env).1,
    List.filterMap_cons, Fact.use?_scope, uses_findings]

/-- The tables that analysis meets, that of the module first. -/
theorem Module.tables_eq (m : Module) (env : ResolveEnv) :
    (m.findings env).1 :: (m.findings env).2.filterMap Finding.scope? =
      (m.regions env).map Region.table := by
  rw [Module.regions, ← scopes_sites env.isPredeclared (m.region env), ← (m.sameFacts env).1,
    List.filterMap_cons, Fact.scope?_scope, scopes_findings]

/-- The name of a use stands inside the region of the module. -/
theorem Module.region_mem (m : Module) (env : ResolveEnv) {u : NameUse}
    (hu : u ∈ m.nameUses env) : m.region env ∈ u.regions := by
  obtain ⟨site, hsite, hname⟩ := List.mem_filterMap.1 hu
  have hw := (m.sameFacts env).2 site hsite
  cases site with
  | name => cases hname; exact hw
  | _ => cases hname

/-- Names are resolved by lexical scope: in every module, whatever the host provides, each use of
a name is taken for what the innermost region that declares it says, and exactly the names and
the declarations that lexical scope calls wrong are reported. -/
theorem Module.lexicallyScoped (m : Module) (env : ResolveEnv) : m.LexicallyScoped env where
  bound := by
    rw [m.uses_eq env, List.forall₂_map_right_iff, List.forall₂_same]
    exact fun u _ => ⟨rfl, rfl, means_meaning⟩
  predeclared u hu hm := by
    have hregions := hm.not_declares nofun
    have hmeaning : meaning env.isPredeclared u.regions u.name = .predeclared := by
      rw [means_meaning.of_undeclared hregions, ← hm.of_undeclared hregions]
    refine m.exists_predeclaration env (hregions _ (m.region_mem env hu)) ?_
    apply mem_predeclaredUses (p := u.pos)
    rw [m.uses_eq env, ← hmeaning]
    exact List.mem_map_of_mem hu
  identifiers := by
    have h := m.reports_perm env .undeclaredIdentifier (by decide)
    rwa [undeclaredIdentifiers_sites] at h
  functions := by
    have h := m.reports_perm env .undeclaredFunction (by decide)
    rwa [undeclaredFunctions_sites] at h
  duplicates := by
    have h := m.reports_perm env .duplicateDeclaration (by decide)
    rwa [duplicates_sites] at h
  tables := m.tables_eq env
  kept := by
    rw [m.fst_findings env, m.fullScope_eq env]
    exact Region.prefix_table _ _
  numbered := by
    refine List.forall_mem_cons.2 ⟨m.fullScope_eq env ▸ Region.numbered_table _, fun sc hsc => ?_⟩
    have hmem : sc ∈ (m.regions env).map Region.table :=
      m.tables_eq env ▸ List.mem_cons_of_mem _ hsc
    obtain ⟨r, -, rfl⟩ := List.mem_map.1 hmem
    exact Region.numbered_table r

end Stencil
