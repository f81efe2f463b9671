import Mathlib.Data.List.Nodup
import Stencil.Scope.Resolution

/-!
# Lexical scope by regions

A lexical region is given by the declarations in it, in the order in which they stand. A
declaration is a first one if its name is not declared earlier in the region, and otherwise a
repeated one. The table of a region has a symbol for each first declaration, numbered by its
position; this is the table that declaring the names one after the other builds, and the
repeated declarations are those that are told to be duplicates (`declareAll_table`).

What analysis has to say about the names of a module is told here without such tables:
`Module.sites` lists the regions of a module with the declarations in them, the uses of names
with the regions around each, and the free calls. A name means what the innermost region around
it that declares it, anywhere in it, declares (`Means`). Analysis agrees, name by name and report
by report: `Module.lexicallyScoped`.

The regions are those of the module, of the parameters of a function, of a block, of a loop body,
which also holds the variable of the loop, and of the condition on the elements of a loop. The
block that runs between two rounds stands inside the region of the loop body; the condition does
not.
-/

namespace Stencil

/-- A declaration of a name in a region. -/
structure Declaration where
  pos : Position
  name : Bytes
  kind : SymbolKind
  deriving DecidableEq, Repr

/-- The declarations of a region, in their order. -/
abbrev Region := List Declaration

/-- A declared name as a declaration of the given kind. -/
def Param.declaration (kind : SymbolKind) (p : Param) : Declaration := ⟨p.pos, p.name, kind⟩

/-- The name of a declaration with its place. -/
def Declaration.param (d : Declaration) : Param := ⟨d.pos, d.name⟩

namespace Region

/-- The region declares the name. -/
def Declares (r : Region) (n : Bytes) : Prop := ∃ d ∈ r, d.name = n

instance (r : Region) (n : Bytes) : Decidable (r.Declares n) :=
  inferInstanceAs (Decidable (∃ d ∈ r, d.name = n))

/-- The declarations whose names are not declared before them; `earlier` are the names that are
declared before the region begins. -/
def firsts : List Bytes → Region → Region
  | _, [] => []
  | earlier, d :: ds =>
    if d.name ∈ earlier then firsts earlier ds else d :: firsts (earlier ++ [d.name]) ds

/-- The declarations whose names are declared before them. -/
def repeats : List Bytes → Region → Region
  | _, [] => []
  | earlier, d :: ds =>
    if d.name ∈ earlier then d :: repeats earlier ds else repeats (earlier ++ [d.name]) ds

/-- The symbols of some declarations, numbered from `k`. -/
def symbolsFrom : Nat → Region → List Symbol
  | _, [] => []
  | k, d :: ds => ⟨d.name, d.kind, k⟩ :: symbolsFrom (k + 1) ds

/-- The symbols of a region. -/
def table (r : Region) : Scope := ⟨symbolsFrom 0 (firsts [] r)⟩

variable {r a b ds : Region} {earlier : List Bytes} {n : Bytes} {k : Nat}

theorem declares_nil : ¬ Declares [] n := by
  simp [Declares]

theorem declares_cons {d : Declaration} : Declares (d :: ds) n ↔ n = d.name ∨ Declares ds n := by
  simp [Declares, eq_comm]

/-! ### First and repeated declarations -/

/-- The names declared before `earlier` and `r` have both ended. -/
def namesAfter (earlier : List Bytes) (r : Region) : List Bytes :=
  earlier ++ (firsts earlier r).map (·.name)

theorem firsts_append :
    firsts earlier (a ++ b) = firsts earlier a ++ firsts (namesAfter earlier a) b := by
  induction a generalizing earlier with
  | nil => simp [firsts, namesAfter]
  | cons d ds ih =>
    simp only [List.cons_append, firsts, namesAfter]
    split
    · exact ih
    · rw [ih, namesAfter, List.cons_append, List.map_cons, List.append_assoc,
        List.singleton_append]

theorem repeats_append :
    repeats earlier (a ++ b) = repeats earlier a ++ repeats (namesAfter earlier a) b := by
  induction a generalizing earlier with
  | nil => simp [repeats, firsts, namesAfter]
  | cons d ds ih =>
    simp only [List.cons_append, repeats, firsts, namesAfter]
    split
    · rw [ih, namesAfter, List.cons_append]
    · rw [ih, namesAfter, List.map_cons, List.append_assoc, List.singleton_append]

theorem mem_namesAfter : n ∈ namesAfter earlier r ↔ n ∈ earlier ∨ r.Declares n := by
  induction r generalizing earlier with
  | nil => simp [namesAfter, firsts, declares_nil]
  | cons d ds ih =>
    rw [declares_cons]
    by_cases hd : d.name ∈ earlier
    · have h : namesAfter earlier (d :: ds) = namesAfter earlier ds := by
        simp only [namesAfter, firsts, if_pos hd]
      rw [h, ih]
      constructor
      · exact Or.imp_right .inr
      · rintro (h | rfl | h)
        · exact .inl h
        · exact .inl hd
        · exact .inr h
    · have h : namesAfter earlier (d :: ds) = namesAfter (earlier ++ [d.name]) ds := by
        simp [namesAfter, firsts, if_neg hd]
      rw [h, ih, List.mem_append, List.mem_singleton, or_assoc]

theorem nodup_namesAfter (h : earlier.Nodup) : (namesAfter earlier r).Nodup := by
  induction r generalizing earlier with
  | nil => simpa [namesAfter, firsts] using h
  | cons d ds ih =>
    simp only [namesAfter, firsts]
    split
    · exact ih h
    · rename_i hd
      have h := ih (List.concat_eq_append ▸ h.concat hd)
      simpa only [namesAfter, List.append_assoc, List.singleton_append, List.map_cons] using h

/-- The first declarations of a region repeat nothing. -/
theorem firsts_firsts : firsts earlier (firsts earlier r) = firsts earlier r ∧
    repeats earlier (firsts earlier r) = [] := by
  induction r generalizing earlier with
  | nil => exact ⟨rfl, rfl⟩
  | cons d ds ih =>
    by_cases hd : d.name ∈ earlier
    · simpa only [firsts, if_pos hd] using ih
    · obtain ⟨hf, hr⟩ := @ih (earlier ++ [d.name])
      simp only [firsts, repeats, if_neg hd, hf, hr, and_self]

/-! ### Tables -/

theorem symbolsFrom_append :
    symbolsFrom k (a ++ b) = symbolsFrom k a ++ symbolsFrom (k + a.length) b := by
  induction a generalizing k with
  | nil => rfl
  | cons d ds ih =>
    rw [List.cons_append, symbolsFrom, ih, symbolsFrom, List.cons_append, List.length_cons,
      Nat.add_assoc, Nat.add_comm 1]

theorem map_name_symbolsFrom : (symbolsFrom k r).map (·.name) = r.map (·.name) := by
  induction r generalizing k with
  | nil => rfl
  | cons d ds ih => rw [symbolsFrom, List.map_cons, ih, List.map_cons]

theorem length_symbolsFrom : (symbolsFrom k r).length = r.length := by
  simpa using congrArg List.length (map_name_symbolsFrom (k := k) (r := r))

theorem map_name_table : r.table.symbols.map (·.name) = namesAfter [] r := by
  rw [table, map_name_symbolsFrom, namesAfter, List.nil_append]

/-- The table of a region has a symbol for each name it declares, and for no other. -/
theorem find?_table_eq_none : r.table.find? n = none ↔ ¬ r.Declares n := by
  have h : n ∈ r.table.symbols.map (·.name) ↔ r.Declares n := by
    rw [map_name_table, mem_namesAfter]
    simp
  rw [← h]
  simp [Scope.find?]

/-- A declaration gives its name a symbol. -/
theorem exists_symbol {d : Declaration} (hd : d ∈ r) :
    ∃ sym ∈ r.table.symbols, sym.name = d.name := by
  have h : d.name ∈ r.table.symbols.map (·.name) := by
    rw [map_name_table, mem_namesAfter]
    exact .inr ⟨d, hd, rfl⟩
  exact List.mem_map.1 h

theorem mem_of_mem_firsts {d : Declaration} (h : d ∈ firsts earlier r) : d ∈ r := by
  induction r generalizing earlier with
  | nil => cases h
  | cons e ds ih =>
    rw [firsts] at h
    split at h
    · exact List.mem_cons_of_mem _ (ih h)
    · rcases List.mem_cons.1 h with rfl | h
      · exact List.mem_cons_self
      · exact List.mem_cons_of_mem _ (ih h)

theorem exists_of_mem_symbolsFrom {sym : Symbol} (h : sym ∈ symbolsFrom k r) :
    ∃ d ∈ r, d.name = sym.name ∧ d.kind = sym.kind := by
  induction r generalizing k with
  | nil => cases h
  | cons d ds ih =>
    rcases List.mem_cons.1 h with rfl | h
    · exact ⟨d, List.mem_cons_self, rfl, rfl⟩
    · obtain ⟨e, he, hsym⟩ := ih h
      exact ⟨e, List.mem_cons_of_mem _ he, hsym⟩

/-- A symbol comes from a declaration. -/
theorem exists_declaration {sym : Symbol} (h : sym ∈ r.table.symbols) :
    ∃ d ∈ r, d.name = sym.name ∧ d.kind = sym.kind := by
  obtain ⟨d, hd, hsym⟩ := exists_of_mem_symbolsFrom h
  exact ⟨d, mem_of_mem_firsts hd, hsym⟩

end Region

/-- Each name of the table has one symbol, whose index is its position. -/
structure Scope.Numbered (sc : Scope) : Prop where
  distinct : (sc.symbols.map (·.name)).Nodup
  index : ∀ (i : Nat) (sym : Symbol), sc.symbols[i]? = some sym → sym.index = i

namespace Region

variable {r a ds : Region} {k i : Nat}

theorem index_symbolsFrom {sym : Symbol} (h : (symbolsFrom k r)[i]? = some sym) :
    sym.index = k + i := by
  induction r generalizing k i with
  | nil => cases h
  | cons d ds ih =>
    cases i with
    | zero =>
      cases h
      rfl
    | succ i =>
      rw [ih (k := k + 1) (i := i) h]
      omega

theorem numbered_table (r : Region) : r.table.Numbered where
  distinct := map_name_table ▸ nodup_namesAfter List.nodup_nil
  index i sym h := by
    rw [index_symbolsFrom h, Nat.zero_add]

/-! ### Declaring names one after the other -/

theorem find?_isSome_table {n : Bytes} : (r.table.find? n).isSome ↔ n ∈ namesAfter [] r := by
  rw [mem_namesAfter, ← not_iff_not, Option.not_isSome_iff_eq_none, find?_table_eq_none]
  simp

/-- One more declaration after those of a region. -/
theorem declare_table (r : Region) (p : Param) (kind : SymbolKind) :
    ∃ sym, r.table.declare p.name kind =
      ((r ++ [p.declaration kind]).table, sym, decide (p.name ∈ namesAfter [] r)) := by
  have hname : (p.declaration kind).name = p.name := rfl
  unfold Scope.declare
  cases h : r.table.find? p.name with
  | some prev =>
    have hmem : p.name ∈ namesAfter [] r := find?_isSome_table.1 (by rw [h]; rfl)
    refine ⟨prev, ?_⟩
    simp [table, firsts_append, firsts, hname, hmem]
  | none =>
    have hmem : p.name ∉ namesAfter [] r := fun hm => by
      have := find?_isSome_table.2 hm
      simp [h] at this
    refine ⟨⟨p.name, kind, r.table.symbols.length⟩, ?_⟩
    simp only [table, firsts_append, firsts, hname, hmem, if_false, symbolsFrom_append, symbolsFrom,
      length_symbolsFrom, Nat.zero_add, decide_false]
    rfl

/-- Declaring some names after those of a region gives the table of all of them, and tells the
repeated ones. -/
theorem declareAll_table (r : Region) (ps : List Param) (kind : SymbolKind) :
    Scope.declareAll kind r.table ps =
      ((r ++ ps.map (·.declaration kind)).table,
        (repeats (namesAfter [] r) (ps.map (·.declaration kind))).map (·.param)) := by
  induction ps generalizing r with
  | nil => simp [Scope.declareAll, repeats]
  | cons p ps ih =>
    obtain ⟨sym, hd⟩ := declare_table r p kind
    have hname : (p.declaration kind).name = p.name := rfl
    have hafter : namesAfter [] (r ++ [p.declaration kind]) =
        if p.name ∈ namesAfter [] r then namesAfter [] r else namesAfter [] r ++ [p.name] := by
      rw [namesAfter, firsts_append, firsts, hname]
      split <;> simp [namesAfter, firsts, hname]
    rw [Scope.declareAll, hd]
    simp only [ih, List.append_assoc, List.singleton_append, List.map_cons, repeats, hname, hafter]
    by_cases hm : p.name ∈ namesAfter [] r
    · simp only [hm, decide_true, if_true]
      rfl
    · simp only [hm, decide_false, if_false]
      rfl

end Region

/-! ### Sites -/

/-- A name that is used as a variable, with the regions around it, the innermost first. -/
structure NameUse where
  pos : Position
  name : Bytes
  regions : List Region

/-- A place where names matter. -/
inductive Site where
  | name (use : NameUse)
  | call (pos : Position) (name : Bytes)
  | region (r : Region)

/-- The region of a block that also holds what the enclosing statement has declared in it. -/
def Block.region (b : Block) (given : Region) : Region :=
  given ++ b.declares.map (·.declaration .localVar)

mutual

/-- The sites in an expression that stands in the regions `rs`. -/
def Expr.sites (rs : List Region) : Expr → List Site
  | .literal .. | .null _ => []
  | .name p n => [.name ⟨p, n, rs⟩]
  | .unary _ _ x | .member x _ _ _ => x.sites rs
  | .binary x _ _ y | .assign x _ y => x.sites rs ++ y.sites rs
  | .index x _ args _ | .method x _ _ _ _ args _ | .new _ x _ args _ =>
    x.sites rs ++ exprsSites rs args
  | .call p n _ args _ => .call p n :: exprsSites rs args
  | .list _ items _ => exprsSites rs items
  | .template b => b.sites rs []

/-- The sites in several expressions. -/
def exprsSites (rs : List Region) : List Expr → List Site
  | [] => []
  | x :: xs => x.sites rs ++ exprsSites rs xs

/-- The sites in a block in whose region `given` is declared already. -/
def Block.sites (rs : List Region) (given : Region) : Block → List Site
  | b@(.mk _ stmts _ _) => .region (b.region given) :: stmtsSites (b.region given :: rs) stmts

/-- The sites in a block that may be missing. -/
def optBlockSites (rs : List Region) : Option Block → List Site
  | none => []
  | some b => b.sites rs []

/-- The sites in several statements. -/
def stmtsSites (rs : List Region) : List Stmt → List Site
  | [] => []
  | st :: sts => st.sites rs ++ stmtsSites rs sts

/-- The sites in the initial values of variables. -/
def varDefsSites (rs : List Region) : List VarDef → List Site
  | [] => []
  | .mk _ _ none :: vs => varDefsSites rs vs
  | .mk _ _ (some x) :: vs => x.sites rs ++ varDefsSites rs vs

/-- The sites in the arms of a switch. -/
def casesSites (rs : List Region) : List SwitchCase → List Site
  | [] => []
  | .mk _ values body :: cs => exprsSites rs values ++ body.sites rs [] ++ casesSites rs cs

/-- The sites in the condition on the elements of a loop. -/
def whereSites (rs : List Region) (var : Param) : Option WhereClause → List Site
  | none => []
  | some (.mk _ x) =>
    let r := [var.declaration .parameter]
    .region r :: x.sites (r :: rs)

/-- The sites in a statement. -/
def Stmt.sites (rs : List Region) : Stmt → List Site
  | .block b => b.sites rs []
  | .text .. | .ret _ none | .leave _ | .again _ => []
  | .define _ vars => varDefsSites rs vars
  | .output _ xs => exprsSites rs xs
  | .expr x | .ret _ (some x) => x.sites rs
  | .cond _ test yes no => test.sites rs ++ yes.sites rs [] ++ optBlockSites rs no
  | .loop _ test body => test.sites rs ++ body.sites rs []
  | .each _ p var x filter body between =>
    let given := [Param.declaration .localVar ⟨p, var⟩]
    x.sites rs ++ whereSites rs ⟨p, var⟩ filter ++ body.sites rs given ++
      optBlockSites (body.region given :: rs) between
  | .switch _ x cases dflt _ => x.sites rs ++ casesSites rs cases ++ optBlockSites rs dflt

end

/-- The sites in a function. -/
def FunctionDecl.sites (rs : List Region) (f : FunctionDecl) : List Site :=
  let r := f.params.map (·.declaration .parameter)
  .region r :: f.body.sites (r :: rs) []

/-- The functions and global variables of a module, in the order in which they are declared. -/
def Module.declares (m : Module) : List Param :=
  m.functions.map (fun f => ⟨f.namePos, f.name⟩) ++
    m.defs.flatMap fun d => (Stmt.define d.pos d.vars).declares

/-- The region of a module: the roots of the loaded namespaces, each once, then its functions and
global variables. -/
def Module.region (m : Module) (env : ResolveEnv) : Region :=
  Region.firsts [] ((m.loaded env).1.map fun root => ⟨default, root, .nspace⟩) ++
    m.declares.map (·.declaration .global)

/-- The sites of a module. -/
def Module.sites (m : Module) (env : ResolveEnv) : List Site :=
  let rs := [m.region env]
  .region (m.region env) :: m.functions.flatMap (·.sites rs) ++
    m.defs.flatMap (fun d => varDefsSites rs d.vars) ++ stmtsSites rs m.stmts

/-- The use of a name at a site. -/
def Site.name? : Site → Option NameUse
  | .name u => some u
  | _ => none

/-- The free call at a site. -/
def Site.call? : Site → Option Param
  | .call p n => some ⟨p, n⟩
  | _ => none

/-- The region at a site. -/
def Site.region? : Site → Option Region
  | .region r => some r
  | _ => none

/-- The uses of names in a module, in source order. -/
def Module.nameUses (m : Module) (env : ResolveEnv) : List NameUse :=
  (m.sites env).filterMap Site.name?

/-- The free calls in a module, in source order. -/
def Module.freeCalls (m : Module) (env : ResolveEnv) : List Param :=
  (m.sites env).filterMap Site.call?

/-- The regions of a module, its own first. -/
def Module.regions (m : Module) (env : ResolveEnv) : List Region :=
  (m.sites env).filterMap Site.region?

/-! ### What lexical scope says -/

/-- What a name means in some regions, the innermost first, if `isPredeclared` tells the names
that are provided from outside. -/
inductive Means (isPredeclared : Bytes → Bool) (n : Bytes) : List Region → Referent → Prop where
  | declared {r rs sym} : sym ∈ r.table.symbols → sym.name = n →
      Means isPredeclared n (r :: rs) (.symbol sym)
  | outer {r rs ref} : ¬ r.Declares n → Means isPredeclared n rs ref →
      Means isPredeclared n (r :: rs) ref
  | predeclared : isPredeclared n = true → Means isPredeclared n [] .predeclared
  | undeclared : isPredeclared n = false → Means isPredeclared n [] .undeclared

/-- No region around the use declares its name, and it is not predeclared. -/
def NameUse.IsUndeclared (isPredeclared : Bytes → Bool) (u : NameUse) : Prop :=
  (∀ r ∈ u.regions, ¬ r.Declares u.name) ∧ isPredeclared u.name = false

instance (isPredeclared : Bytes → Bool) : DecidablePred (NameUse.IsUndeclared isPredeclared) :=
  fun _ => inferInstanceAs (Decidable (_ ∧ _))

/-- A use of a name as analysis met it, and what the name was taken for. -/
def Finding.use? : Finding → Option (Position × Bytes × Referent)
  | .ident span n _ ref => some (span.first, n, ref)
  | _ => none

/-- The table of a region that analysis met. -/
def Finding.scope? : Finding → Option Scope
  | .region _ _ _ _ sc => some sc
  | _ => none

/-- The reports of a kind. -/
def Module.reports (m : Module) (env : ResolveEnv) (code : DiagnosticCode) : List Diagnostic :=
  (m.diagnose env).filter (·.problem.code = code)

/-- Analysis resolves the names of the module by lexical scope. -/
structure Module.LexicallyScoped (m : Module) (env : ResolveEnv) : Prop where
  /-- Every use of a name is met, and the name is taken for what it means there. -/
  bound : List.Forall₂ (fun u f => f.1 = u.pos ∧ f.2.1 = u.name ∧
      Means env.isPredeclared u.name u.regions f.2.2)
    (m.nameUses env) ((m.findings env).2.filterMap Finding.use?)
  /-- A predeclared name that is used becomes a global symbol of the module. -/
  predeclared : ∀ u ∈ m.nameUses env, Means env.isPredeclared u.name u.regions .predeclared →
    ∃ i, ⟨u.name, .global, i⟩ ∈ (m.fullScope env).symbols
  /-- The undeclared names are reported, each where it is used. -/
  identifiers : (m.reports env .undeclaredIdentifier).Perm
    (((m.nameUses env).filter (·.IsUndeclared env.isPredeclared)).map
      fun u => ⟨u.pos, .undeclaredIdentifier u.name⟩)
  /-- The free calls of names that are neither names of the module nor predeclared are
  reported. -/
  functions : (m.reports env .undeclaredFunction).Perm
    (((m.freeCalls env).filter fun c =>
      ¬ (m.region env).Declares c.name ∧ env.isPredeclared c.name = false).map
      fun c => ⟨c.pos, .undeclaredFunction c.name⟩)
  /-- The declarations that repeat a name of their region are reported, each once. -/
  duplicates : (m.reports env .duplicateDeclaration).Perm
    (((m.regions env).flatMap (Region.repeats [])).map
      fun d => ⟨d.pos, .duplicateDeclaration d.name⟩)
  /-- The tables of symbols are those of the regions. -/
  tables : (m.findings env).1 :: (m.findings env).2.filterMap Finding.scope? =
    (m.regions env).map Region.table
  /-- The symbols of the module stay what they are when predeclared names are added. -/
  kept : (m.findings env).1.symbols <+: (m.fullScope env).symbols
  /-- In each table a name has one symbol, whose index is its position. -/
  numbered : ∀ sc ∈ (m.fullScope env) :: (m.findings env).2.filterMap Finding.scope?, sc.Numbered

/-! ### Meanings -/

/-- What analysis takes a name for, in the tables of some regions. -/
def meaning (isPredeclared : Bytes → Bool) (rs : List Region) (n : Bytes) : Referent :=
  match Scope.lookup (rs.map Region.table) n with
  | some sym => .symbol sym
  | none => if isPredeclared n then .predeclared else .undeclared

section

variable {isPredeclared : Bytes → Bool} {rs : List Region} {n : Bytes}

theorem means_meaning : Means isPredeclared n rs (meaning isPredeclared rs n) := by
  induction rs with
  | nil =>
    unfold meaning
    cases h : isPredeclared n with
    | true => simpa [Scope.lookup] using .predeclared h
    | false => simpa [Scope.lookup] using .undeclared h
  | cons r rs ih =>
    unfold meaning at ih ⊢
    rw [List.map_cons, Scope.lookup]
    cases h : r.table.find? n with
    | none => exact .outer (Region.find?_table_eq_none.1 h) ih
    | some sym =>
      exact .declared (List.mem_of_find?_eq_some h) (by simpa using List.find?_some h)

/-- A name that no region declares means what it is outside of the module. -/
theorem Means.of_undeclared {ref : Referent} (h : Means isPredeclared n rs ref)
    (hr : ∀ r ∈ rs, ¬ r.Declares n) :
    ref = if isPredeclared n then .predeclared else .undeclared := by
  induction h with
  | @declared r rs sym hsym hname =>
    refine absurd ?_ (hr r List.mem_cons_self)
    by_contra hn
    have := List.find?_eq_none.1 (Region.find?_table_eq_none.2 hn) sym hsym
    simp [hname] at this
  | outer _ _ ih => exact ih fun r hm => hr r (List.mem_cons_of_mem _ hm)
  | predeclared h => rw [if_pos h]
  | undeclared h => rw [h]; rfl

/-- A name that has the meaning of no symbol is declared nowhere. -/
theorem Means.not_declares {ref : Referent} (h : Means isPredeclared n rs ref)
    (href : ∀ sym, ref ≠ .symbol sym) : ∀ r ∈ rs, ¬ r.Declares n := by
  induction h with
  | @declared _ _ sym _ _ => exact absurd rfl (href sym)
  | outer hn _ ih =>
    exact List.forall_mem_cons.2 ⟨hn, ih href⟩
  | predeclared _ => exact nofun
  | undeclared _ => exact nofun

theorem meaning_eq_undeclared : meaning isPredeclared rs n = .undeclared ↔
    (∀ r ∈ rs, ¬ r.Declares n) ∧ isPredeclared n = false := by
  have h : Means isPredeclared n rs (meaning isPredeclared rs n) := means_meaning
  constructor
  · intro hu
    have hr := h.not_declares fun sym => by rw [hu]; nofun
    refine ⟨hr, ?_⟩
    have := h.of_undeclared hr
    rw [hu] at this
    by_contra hp
    rw [Bool.not_eq_false] at hp
    simp [hp] at this
  · rintro ⟨hr, hp⟩
    rw [h.of_undeclared hr, hp]
    rfl

end

end Stencil
