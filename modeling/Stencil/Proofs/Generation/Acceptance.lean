import Mathlib
import Stencil.Code.Lowering
import Stencil.Code.Traversal

/-!
# What analysis accepts

A module is accepted when nothing met on the walk over it is a problem. `Clean` says so of
a list of findings, and is taken apart along the tree.

`Matches` relates the surroundings that analysis passes down to those of lowering: the
regions declare the same names, and where analysis allows a jump there is a target for it.
Under it a name that analysis accepts has a meaning for lowering.
-/

namespace Stencil

/-! ### Findings without a problem -/

/-- Whether a finding is a problem. -/
def Finding.isProblem : Finding → Bool
  | .problem .. => true
  | _ => false

/-- None of the findings is a problem. -/
def Clean (fs : List Finding) : Prop := ∀ f ∈ fs, f.isProblem = false

@[simp] theorem clean_nil : Clean [] := by simp [Clean]

@[simp] theorem clean_cons {f : Finding} {fs : List Finding} :
    Clean (f :: fs) ↔ f.isProblem = false ∧ Clean fs := by
  simp [Clean]

@[simp] theorem clean_append {fs gs : List Finding} :
    Clean (fs ++ gs) ↔ Clean fs ∧ Clean gs := by
  simp [Clean, or_imp, forall_and]

@[simp] theorem clean_flatMap {α : Type} {as : List α} {f : α → List Finding} :
    Clean (as.flatMap f) ↔ ∀ a ∈ as, Clean (f a) := by
  simp only [Clean, List.mem_flatMap]
  constructor
  · intro h a ha x hx
    exact h x ⟨a, ha, hx⟩
  · rintro h x ⟨a, ha, hx⟩
    exact h a ha x hx

@[simp] theorem clean_require {ok : Bool} {pass : Pass} {p : Position} {problem : Problem} :
    Clean (require ok pass p problem) ↔ ok = true := by
  cases ok <;> simp [require, Finding.isProblem]

@[simp] theorem clean_duplicates {ps : List Param} : Clean (duplicates ps) ↔ ps = [] := by
  cases ps <;> simp [duplicates, Finding.isProblem]

@[simp] theorem clean_targetNote (write : Bool) (x : Expr) (op : String) :
    Clean (targetNote write x op) := by
  cases write <;> simp [targetNote, Finding.isProblem]

theorem problemsOf_eq_nil_of_mem {pass : Pass} {d : Diagnostic} {fs : List Finding}
    (h : problemsOf pass fs = []) : Finding.problem pass d ∉ fs := by
  intro hm
  have := List.filterMap_eq_nil_iff.1 h _ hm
  simp at this

/-- A module without diagnostics has clean findings. -/
theorem Module.clean_findings {m : Module} {env : ResolveEnv} (h : m.diagnose env = []) :
    Clean (m.findings env).2 := by
  have perm := List.mergeSort_perm (problemsOf .declarations (m.findings env).2 ++
    problemsOf .names (m.findings env).2 ++ problemsOf .rules (m.findings env).2)
    fun a b => !b.pos.isBefore a.pos
  simp only [Module.diagnose, Diagnostic.sort] at h
  rw [h] at perm
  have hnil := List.nil_perm.1 perm
  simp only [List.append_eq_nil_iff] at hnil
  obtain ⟨⟨hd, hn⟩, hr⟩ := hnil
  intro f hf
  cases f with
  | problem pass d =>
    cases pass with
    | declarations => exact absurd hf (problemsOf_eq_nil_of_mem hd)
    | names => exact absurd hf (problemsOf_eq_nil_of_mem hn)
    | rules => exact absurd hf (problemsOf_eq_nil_of_mem hr)
  | _ => rfl

/-! ### Declared names -/

namespace Scope

/-- Every name of a region is found there. -/
theorem find?_isSome_iff {sc : Scope} {name : Bytes} :
    (sc.find? name).isSome ↔ ∃ sym ∈ sc.symbols, sym.name = name := by
  simp [find?]

theorem find?_mem {sc : Scope} {name : Bytes} {sym : Symbol} (h : sc.find? name = some sym) :
    sym ∈ sc.symbols ∧ sym.name = name := by
  refine ⟨List.mem_of_find?_eq_some h, ?_⟩
  simpa using List.find?_some h

/-- Declaring a name keeps the symbols there are and adds at most one, of the given kind. -/
theorem declare_cases (sc : Scope) (name : Bytes) (kind : SymbolKind) :
    ((sc.find? name).isSome ∧ (sc.declare name kind).1 = sc ∧ (sc.declare name kind).2.2 = true) ∨
    (sc.find? name = none ∧ ∃ sym : Symbol, sym.name = name ∧ sym.kind = kind ∧
      (sc.declare name kind).1 = ⟨sc.symbols ++ [sym]⟩ ∧ (sc.declare name kind).2.2 = false) := by
  cases h : sc.find? name with
  | some prev => exact .inl ⟨by simp, by simp [declare, h]⟩
  | none => exact .inr ⟨rfl, ⟨name, kind, sc.symbols.length⟩, rfl, rfl, by simp [declare, h]⟩

theorem declareAll_cons_fst (kind : SymbolKind) (sc : Scope) (p : Param) (ps : List Param) :
    (declareAll kind sc (p :: ps)).1 = (declareAll kind (sc.declare p.name kind).1 ps).1 := rfl

/-- The symbols of a region into which names were declared: those it had, and new ones of
the given kind. -/
theorem mem_declareAll {kind : SymbolKind} {ps : List Param} {sc : Scope} {sym : Symbol}
    (h : sym ∈ (declareAll kind sc ps).1.symbols) : sym ∈ sc.symbols ∨ sym.kind = kind := by
  induction ps generalizing sc with
  | nil => exact .inl h
  | cons p ps ih =>
    rw [declareAll_cons_fst] at h
    rcases ih h with h | h
    · rcases declare_cases sc p.name kind with ⟨-, h', -⟩ | ⟨-, new, -, hk, h', -⟩
      · exact .inl (h' ▸ h)
      · rw [h'] at h
        rcases List.mem_append.1 h with h | h
        · exact .inl h
        · exact .inr (by simpa [List.mem_singleton.1 h] using hk)
    · exact .inr h

/-- The names of a region into which names were declared. -/
theorem find?_declareAll {kind : SymbolKind} {ps : List Param} {sc : Scope} {name : Bytes} :
    ((declareAll kind sc ps).1.find? name).isSome ↔
      (sc.find? name).isSome ∨ ∃ p ∈ ps, p.name = name := by
  induction ps generalizing sc with
  | nil => simp [declareAll]
  | cons p ps ih =>
    simp only [declareAll, ih, List.mem_cons, exists_eq_or_imp, find?_isSome_iff, ← or_assoc]
    refine or_congr_left ?_
    rcases declare_cases sc p.name kind with ⟨hs, h', -⟩ | ⟨-, new, hn, -, h', -⟩
    · rw [h']
      refine ⟨.inl, ?_⟩
      rintro (h | rfl)
      · exact h
      · exact find?_isSome_iff.1 hs
    · simp [h', or_and_right, exists_or, hn]

/-- A symbol that was there before other names were declared is still found. -/
theorem find?_declareAll_of_some {kind : SymbolKind} {ps : List Param} {sc : Scope} {name : Bytes}
    {sym : Symbol} (h : sc.find? name = some sym) :
    (declareAll kind sc ps).1.find? name = some sym := by
  induction ps generalizing sc with
  | nil => exact h
  | cons p ps ih =>
    rw [declareAll_cons_fst]
    rcases declare_cases sc p.name kind with ⟨-, h', -⟩ | ⟨-, new, -, -, h', -⟩
    · rw [h', ih h]
    · rw [h']
      apply ih
      simp only [find?, List.find?_append] at h ⊢
      simp [h]

/-- Without duplicates every declared name has a symbol of the given kind. -/
theorem find?_declareAll_kind {kind : SymbolKind} {ps : List Param} {sc : Scope} {p : Param}
    (hd : (declareAll kind sc ps).2 = []) (hp : p ∈ ps) :
    ∃ sym, (declareAll kind sc ps).1.find? p.name = some sym ∧ sym.kind = kind := by
  induction ps generalizing sc with
  | nil => simp at hp
  | cons q ps ih =>
    rcases declare_cases sc q.name kind with ⟨-, -, h'⟩ | ⟨hn, new, hname, hk, hs, h'⟩
    · simp [declareAll, h'] at hd
    · have hd : (declareAll kind (sc.declare q.name kind).1 ps).2 = [] := by
        simpa [declareAll, h'] using hd
      rcases List.mem_cons.1 hp with rfl | hp
      · rw [declareAll_cons_fst, hs]
        refine ⟨new, find?_declareAll_of_some ?_, hk⟩
        simp only [find?, List.find?_append] at hn ⊢
        simp [hn, hname]
      · exact ih hd hp

end Scope

/-! ### The surroundings of analysis and of lowering -/

/-- A region and the slots for its names: the same names, none of them global. -/
structure SameNames (sc : Scope) (vars : List Variable) : Prop where
  find : ∀ name, (sc.find? name).isSome ↔ (vars.find? (·.name = name)).isSome
  kind : ∀ sym ∈ sc.symbols, sym.kind = .localVar ∨ sym.kind = .parameter

/-- The regions of analysis are those of lowering, with the region of the module last. -/
inductive SameRegions (globals : Scope) : List Scope → List (List Variable) → Prop where
  | module : SameRegions globals [globals] []
  | enter {sc vars scs rs} (h : SameNames sc vars) (hs : SameRegions globals scs rs) :
    SameRegions globals (sc :: scs) (vars :: rs)

/-- What lowering finds around a construct is what analysis assumed there. -/
structure Matches (env : LowerEnv) (s : Surroundings) : Prop where
  predeclared : s.isPredeclared = env.isPredeclared
  regions : SameRegions env.globals s.scopes env.regions
  globals : ∀ sym ∈ env.globals.symbols, sym.kind = .global ∨
    sym.kind = .nspace ∧ (env.roots.lookup sym.name).isSome
  loops : 0 < s.loops → env.loops ≠ []
  ret : s.inFunction = true → env.ret.isSome

theorem map_name_slotsFrom (owner : Nat) (ownerName : Bytes) (k : Nat) (names : List Bytes) :
    (slotsFrom owner ownerName k names).map (·.name) = names := by
  induction names generalizing k with
  | nil => rfl
  | cons name names ih => simp [slotsFrom, ih]

theorem find?_slotsFrom {owner : Nat} {ownerName : Bytes} {k : Nat} {names : List Bytes}
    {name : Bytes} :
    ((slotsFrom owner ownerName k names).find? (·.name = name)).isSome ↔ name ∈ names := by
  have h : name ∈ (slotsFrom owner ownerName k names).map (·.name) ↔ name ∈ names := by
    rw [map_name_slotsFrom]
  simpa using h

/-- The region of a block has the names of its slots. -/
theorem sameNames_block {b : Block} {base : Scope} {owner : Nat} {ownerName : Bytes} {k : Nat}
    (hb : ∀ sym ∈ base.symbols, sym.kind = .localVar) :
    SameNames (b.scope base).1 (slotsFrom owner ownerName k (b.names base)) where
  find name := by
    rw [find?_slotsFrom, Scope.find?_isSome_iff]
    simp [Block.names]
  kind sym h := by
    rcases Scope.mem_declareAll h with h | h
    · exact .inl (hb sym h)
    · exact .inl h

/-- The region of the parameters of a function has the names of their slots. -/
theorem sameNames_params {ps : List Param} {owner : Nat} {ownerName : Bytes} {k : Nat} :
    SameNames (Scope.declareAll .parameter {} ps).1
      (slotsFrom owner ownerName k (ps.map (·.name))) where
  find name := by
    rw [find?_slotsFrom, Scope.find?_declareAll]
    simp [Scope.find?]
  kind sym h := by
    rcases Scope.mem_declareAll h with h | h
    · simp at h
    · exact .inr h

theorem sameNames_single {var : Bytes} {owner : Nat} {ownerName : Bytes} {k : Nat} :
    SameNames (Scope.single var .parameter) (slotsFrom owner ownerName k [var]) where
  find name := by
    rw [find?_slotsFrom, Scope.find?_isSome_iff]
    simp [Scope.single, eq_comm]
  kind sym h := by
    rw [List.mem_singleton.1 h]
    exact .inr rfl

namespace Matches

variable {env : LowerEnv} {s : Surroundings}

theorem within (h : Matches env s) {sc : Scope} {vars : List Variable} (hn : SameNames sc vars) :
    Matches (env.within vars) (s.enter sc) :=
  ⟨h.predeclared, .enter hn h.regions, h.globals, h.loops, h.ret⟩

theorem inLoop (h : Matches env s) (t : LoopTargets) :
    Matches (env.inLoop t) { s with loops := s.loops + 1 } :=
  ⟨h.predeclared, h.regions, h.globals, fun _ => List.cons_ne_nil _ _, h.ret⟩

theorem inTemplate (h : Matches env s) : Matches env { s with loops := 0 } :=
  ⟨h.predeclared, h.regions, h.globals, fun hl => absurd hl (Nat.lt_irrefl 0), h.ret⟩

theorem inFilter (h : Matches env s) (n : Numbering) (var : Bytes) :
    Matches (env.inLambda n "where" [var] none)
      { s.enter (Scope.single var .parameter) with loops := 0, inFunction := false } :=
  ⟨h.predeclared, .enter sameNames_single h.regions, h.globals,
    fun hl => absurd hl (Nat.lt_irrefl 0), fun hf => absurd hf (by simp)⟩

theorem inFunction (h : Matches env s) (n : Numbering) (f : FunctionDecl) (ret : Target) :
    Matches (env.inLambda n f.name (f.params.map (·.name)) (some ret))
      { s.enter (Scope.declareAll .parameter {} f.params).1 with loops := 0, inFunction := true } :=
  ⟨h.predeclared, .enter sameNames_params h.regions, h.globals,
    fun hl => absurd hl (Nat.lt_irrefl 0), fun _ => rfl⟩

end Matches

/-- How a name is found: in a slot, among the names of the module, or nowhere. -/
theorem SameRegions.lookup_cases {globals : Scope} {scs : List Scope} {rs : List (List Variable)}
    (h : SameRegions globals scs rs) (name : Bytes) :
    (∃ v sym, findSlot rs name = some v ∧ Scope.lookup scs name = some sym ∧ sym.name = name ∧
      (sym.kind = .localVar ∨ sym.kind = .parameter)) ∨
    findSlot rs name = none ∧ Scope.lookup scs name = globals.find? name := by
  induction h with
  | module =>
    refine .inr ⟨rfl, ?_⟩
    cases hg : globals.find? name <;> simp [Scope.lookup, hg]
  | @enter sc vars scs rs hn hs ih =>
    cases hf : sc.find? name with
    | some sym =>
      obtain ⟨v, hv⟩ := Option.isSome_iff_exists.1 ((hn.find name).1 (by simp [hf]))
      obtain ⟨hm, hname⟩ := Scope.find?_mem hf
      exact .inl ⟨v, sym, by simp [findSlot, hv], by simp [Scope.lookup, hf], hname, hn.kind sym hm⟩
    | none =>
      have hv : vars.find? (·.name = name) = none := by
        rw [← Option.not_isSome_iff_eq_none, ← hn.find name, hf]
        simp
      simpa only [findSlot, hv, Scope.lookup, hf] using ih

/-- The ways in which a name that analysis accepts is found. -/
theorem Matches.refer_cases {env : LowerEnv} {s : Surroundings} (hm : Matches env s) (name : Bytes)
    (hr : s.refer name ≠ .undeclared) :
    (∃ v sym, findSlot env.regions name = some v ∧ s.refer name = .symbol sym ∧ sym.name = name ∧
      (sym.kind = .localVar ∨ sym.kind = .parameter)) ∨
    findSlot env.regions name = none ∧
      ((∃ sym, env.globals.find? name = some sym ∧ s.refer name = .symbol sym ∧
        (sym.kind = .global ∨ sym.kind = .nspace ∧ (env.roots.lookup name).isSome)) ∨
      env.globals.find? name = none ∧ env.isPredeclared name = true ∧
        s.refer name = .predeclared) := by
  rcases hm.regions.lookup_cases name with ⟨v, sym, hv, hl, hn, hk⟩ | ⟨hv, hl⟩
  · exact .inl ⟨v, sym, hv, by simp [Surroundings.refer, hl], hn, hk⟩
  · refine .inr ⟨hv, ?_⟩
    cases hg : env.globals.find? name with
    | some sym =>
      obtain ⟨hs, rfl⟩ := Scope.find?_mem hg
      exact .inl ⟨sym, rfl, by simp [Surroundings.refer, hl, hg], hm.globals sym hs⟩
    | none =>
      cases hp : s.isPredeclared name with
      | false => exact absurd (by simp [Surroundings.refer, hl, hg, hp]) hr
      | true => exact .inr ⟨rfl, hm.predeclared ▸ hp, by simp [Surroundings.refer, hl, hg, hp]⟩

/-- A name that can be assigned to. -/
def Surroundings.Settable (s : Surroundings) (name : Bytes) : Prop :=
  match s.refer name with
  | .symbol sym => sym.kind ≠ .nspace
  | .predeclared => True
  | .undeclared => False

/-- A name that a target may be, and that refers to something, can be assigned to. -/
theorem settable_of_target {s : Surroundings} {p : Position} {name : Bytes}
    (ht : (Expr.name p name).targetProblem? s = none) (hr : s.refer name ≠ .undeclared) :
    s.Settable name := by
  unfold Surroundings.Settable
  split
  · rename_i sym h
    intro hk
    unfold Surroundings.refer at h
    unfold Expr.targetProblem? at ht
    split at h
    · rename_i sym' hl
      cases h
      simp [hl, hk] at ht
    · split at h <;> cases h
  · trivial
  · exact hr ‹_›

/-- A name that the innermost region declares can be assigned to. -/
theorem settable_of_declared {s : Surroundings} {b : Block} {base : Scope}
    (hb : ∀ sym ∈ base.symbols, sym.kind = .localVar) {p : Param} (hp : p ∈ b.declares) :
    (s.enter (b.scope base).1).Settable p.name := by
  have hs : ((b.scope base).1.find? p.name).isSome :=
    Scope.find?_declareAll.2 (.inr ⟨p, hp, rfl⟩)
  obtain ⟨sym, hf⟩ := Option.isSome_iff_exists.1 hs
  have hk : sym.kind = .localVar := by
    rcases Scope.mem_declareAll (Scope.find?_mem hf).1 with h | h
    · exact hb sym h
    · exact h
  have hr : (s.enter (b.scope base).1).refer p.name = .symbol sym := by
    simp [Surroundings.refer, Surroundings.enter, Scope.lookup, hf]
  simp [Surroundings.Settable, hr, hk]

/-! ### Modules -/

/-- The surroundings of the constructs of a module. -/
def Module.lowerEnv (m : Module) (debug : Bool) (isPredeclared : Bytes → Bool)
    (roots : List (Bytes × Namespace)) : LowerEnv where
  debug
  isPredeclared
  globals := (m.scope (roots.map (·.1))).1
  roots
  ownerName := contextVariable.ownerName

section Module

variable {m : Module} {debug : Bool} {isPredeclared : Bytes → Bool}
  {roots : List (Bytes × Namespace)}

theorem lookup_isSome_of_mem {name : Bytes} (h : name ∈ roots.map (·.1)) :
    (roots.lookup name).isSome := by
  induction roots with
  | nil => simp at h
  | cons r roots ih =>
    obtain ⟨key, ns⟩ := r
    by_cases hk : name = key
    · simp [List.lookup, hk]
    · have hk' : (name == key) = false := by simpa using hk
      simp only [List.lookup, hk']
      exact ih (by simpa [hk] using h)

/-- The region of a module holds global names and the roots of loaded namespaces. -/
theorem Module.matches_surroundings :
    Matches (m.lowerEnv debug isPredeclared roots)
      (m.surroundings isPredeclared (roots.map (·.1))) where
  predeclared := rfl
  regions := .module
  globals sym h := by
    rcases Scope.mem_declareAll h with h | h
    · rcases Scope.mem_declareAll h with h' | hk
      · simp at h'
      · rcases Scope.find?_declareAll.1 (Scope.find?_isSome_iff.2 ⟨sym, h, rfl⟩) with hf | ⟨p, hp, hn⟩
        · simp [Scope.find?] at hf
        · obtain ⟨root, hr, rfl⟩ := List.mem_map.1 hp
          exact .inr ⟨hk, lookup_isSome_of_mem (hn ▸ hr)⟩
    · exact .inl h
  loops h := absurd h (Nat.lt_irrefl 0)
  ret h := by simp [Module.surroundings] at h

/-- Without duplicates the global variables of a module can be assigned to. -/
theorem Module.settable_of_def {names : List Bytes} (hd : (m.scope names).2 = [])
    {d : GlobalDef} (hm : d ∈ m.defs) {p : Position} {name : Bytes} {init : Option Expr}
    (hv : VarDef.mk p name init ∈ d.vars) :
    (m.surroundings isPredeclared names).Settable name := by
  have mem : (⟨p, name⟩ : Param) ∈ m.functions.map (fun f => ⟨f.namePos, f.name⟩) ++
      m.defs.flatMap fun d => (Stmt.define d.pos d.vars).declares :=
    List.mem_append_right _ (List.mem_flatMap.2 ⟨d, hm, List.mem_map.2 ⟨_, hv, rfl⟩⟩)
  obtain ⟨sym, hf, hk⟩ := Scope.find?_declareAll_kind hd mem
  have hf : (m.scope names).1.find? name = some sym := hf
  have hr : (m.surroundings isPredeclared names).refer name = .symbol sym := by
    simp [Surroundings.refer, Module.surroundings, Scope.lookup, hf]
  simp [Surroundings.Settable, hr, hk]

end Module

end Stencil
