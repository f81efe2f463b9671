import Stencil.Proofs.Association
import Stencil.Proofs.Generation.Simulation
import Stencil.Program.Run
import Stencil.Machine.Evaluate

/-!
# Code is generated for every accepted module

The main statement: when a text is parsed and analysis finds nothing wrong with it,
generation succeeds, the visit of every node on the way has the effect on the assembly stack
that its kind says, and every operation in the code has the operands its call site asks for.
The code is the one that lowering states, so what is proved of lowering holds of what
`compile` produces.
-/

namespace Stencil

open Gen

section Accepted

variable {m : Module} {env : ResolveEnv} {roots : List (Bytes × Namespace)}

/-- The walk over an accepted module runs to its end. -/
theorem Module.runs_accepted (hdef : m.NoDefinitions) (h : m.diagnose env = [])
    (hr : roots.map (·.1) = (m.loaded env).1) (debug : Bool) :
    ∃ g, Runs debug roots (m.walk env.isPredeclared (roots.map (·.1))) {} g ∧
      g.stack = [⟨m.span.first, (m.lower (m.lowerEnv debug env.isPredeclared roots)).code⟩] := by
  have hc := m.clean_findings h
  simp only [Module.findings, ← hr, clean_append, clean_flatMap, clean_duplicates] at hc
  obtain ⟨⟨⟨⟨-, hdup⟩, hf⟩, hd⟩, hs⟩ := hc
  exact m.runs_walk hdef hdup hf hd hs

theorem sound_start : Generator.Sound {} := by simp [Generator.Sound]

theorem Module.generate_of_runs {debug : Bool} {isPredeclared : Bytes → Bool} {g : Generator}
    {p : Position} {f : Lambda}
    (h : Runs debug roots (m.walk isPredeclared (roots.map (·.1))) {} g)
    (hs : g.stack = [⟨p, f.code⟩]) : m.generate debug isPredeclared roots = .ok f := by
  simp only [Runs] at h
  simp only [Module.generate, h, bind, Except.bind, hs, Lambda.code]
  rfl

theorem Module.saturated_of_runs {debug : Bool} {isPredeclared : Bytes → Bool} {g : Generator}
    {p : Position} {f : Lambda}
    (h : Runs debug roots (m.walk isPredeclared (roots.map (·.1))) {} g)
    (hs : g.stack = [⟨p, f.code⟩]) : f.code.Saturated := by
  rw [walk_module] at h
  obtain ⟨items, -, hstack, hsat⟩ := adds_walk _ _ {} g sound_start h
  have hitems : [⟨p, f.code⟩] = items ++ [] := hs.symm.trans hstack
  rw [List.append_nil] at hitems
  exact hsat ⟨p, f.code⟩ (hitems ▸ List.mem_singleton_self _)

/-- The code of an accepted module is its lowering. -/
theorem Module.generate_eq_lower (hdef : m.NoDefinitions) (h : m.diagnose env = [])
    (hr : roots.map (·.1) = (m.loaded env).1) (debug : Bool) :
    m.generate debug env.isPredeclared roots =
      .ok (m.lower (m.lowerEnv debug env.isPredeclared roots)) := by
  obtain ⟨g, hrun, hs⟩ := m.runs_accepted hdef h hr debug
  exact m.generate_of_runs hrun hs

end Accepted

/-- Generation never fails on a module that was parsed and accepted. Whatever node is
visited on the walk, the visit leaves exactly the items on the stack that the kind of the
node says, above those that were there when it began; at the end the stack holds one item,
the lambda of the module, in which every operation has its operands. -/
theorem generate_accepted {file src : Bytes} {m : Module} (hp : parseModule file src = .ok m)
    {env : ResolveEnv} (h : m.diagnose env = []) {roots : List (Bytes × Namespace)}
    (hr : roots.map (·.1) = (m.loaded env).1) (debug : Bool) :
    ∃ f, m.generate debug env.isPredeclared roots = .ok f ∧ f.code.Saturated ∧
      (∃ g p, Runs debug roots (m.walk env.isPredeclared (roots.map (·.1))) {} g ∧
        g.stack = [⟨p, f.code⟩]) ∧
      ∀ (n : SyntaxNode) (s : Surroundings) (earlier later : List Event),
        m.walk env.isPredeclared (roots.map (·.1)) = earlier ++ (n.walk s ++ later) →
        ∃ g g' items, Runs debug roots earlier {} g ∧ Runs debug roots (n.walk s) g g' ∧
          g'.stack = items ++ g.stack ∧ items.length = n.effect := by
  obtain ⟨g, hrun, hs⟩ := m.runs_accepted (parseModule_noDefinitions hp) h hr debug
  refine ⟨m.lower (m.lowerEnv debug env.isPredeclared roots), m.generate_of_runs hrun hs,
    m.saturated_of_runs hrun hs, ⟨g, _, hrun, hs⟩, ?_⟩
  intro n s earlier later hw
  rw [hw] at hrun
  obtain ⟨g₁, h₁, hrest⟩ := runs_append.1 hrun
  obtain ⟨g₂, h₂, -⟩ := runs_append.1 hrest
  obtain ⟨items, hl, hstack, -⟩ := adds_walk s n g₁ g₂ (sound_runs sound_start h₁) h₂
  exact ⟨g₁, g₂, items, h₁, h₂, hstack, hl⟩

/-- A loop with a condition on its elements, a jump and a part between its rounds. -/
theorem generate_accepted_loop :
    let src := Bytes.ofString "function f(a) <|$for (x in a where x > 1) " ++
      Bytes.ofString "<|$if (x == a) <|$continue;$|>$,$x$|> between <|;|>$|>"
    let env : ResolveEnv := { isPredeclared := fun _ => false, load := fun _ => ([], []) }
    ∃ m f, parseModule [] src = .ok m ∧ m.diagnose env = [] ∧
      m.generate true (fun _ => false) [] = .ok f ∧ f.code.Saturated := by
  intro src env
  have h : (parseModule [] src).toOption.map (fun m => (m.diagnose env).isEmpty) = some true := by
    decide +kernel
  cases hp : parseModule [] src with
  | error e =>
    rw [hp] at h
    cases h
  | ok m =>
    rw [hp] at h
    have hd : m.diagnose env = [] := List.isEmpty_iff.1 (Option.some.inj h)
    have hr : ([] : List (Bytes × Namespace)).map (·.1) = (m.loaded env).1 := by
      simp [Module.loaded, env]
    obtain ⟨f, hf, hs, -⟩ := generate_accepted hp hd hr true
    exact ⟨m, f, rfl, hd, hf, hs⟩

/-! ### Compilation -/

/-- The roots of loaded namespaces have the same names whatever stamp they carry. -/
theorem map_fst_insertType {a b : Nat} {l l' : List (Bytes × Namespace)}
    (h : l.map (·.1) = l'.map (·.1)) (t : TypeRef) :
    (insertType a l t).map (·.1) = (insertType b l' t).map (·.1) := by
  unfold insertType
  split
  · simp only [map_fst_setAssoc, h]
  · exact h

theorem map_fst_foldl_insertType {a b : Nat} {l l' : List (Bytes × Namespace)}
    (h : l.map (·.1) = l'.map (·.1)) (ts : List TypeRef) :
    (ts.foldl (insertType a) l).map (·.1) = (ts.foldl (insertType b) l').map (·.1) := by
  induction ts generalizing l l' with
  | nil => exact h
  | cons t ts ih => exact ih (map_fst_insertType h t)

theorem map_fst_foldl_add {a b : Nat} {types : Listing} {l l' : Loaded}
    (h : l.roots.map (·.1) = l'.roots.map (·.1)) (names : List Bytes) :
    (names.foldl (Loaded.add types a) l).roots.map (·.1) =
      (names.foldl (Loaded.add types b) l').roots.map (·.1) := by
  induction names generalizing l l' with
  | nil => exact h
  | cons name names ih =>
    apply ih
    unfold Loaded.add
    split
    · exact h
    · exact map_fst_foldl_insertType h _

theorem map_fst_roots (source : Option TypeSource) (a b : Nat) (names : List Bytes) :
    (loadNamespaces source a names).roots.map (·.1) =
      (loadNamespaces source b names).roots.map (·.1) := by
  have sort (l : List (Bytes × Namespace)) :
      (l.mergeSort fun x y => Bytes.le x.1 y.1).map (·.1) = (l.map (·.1)).mergeSort Bytes.le :=
    List.map_mergeSort fun _ _ _ _ => rfl
  simp only [loadNamespaces, loadListed, sort]
  exact congrArg (·.mergeSort Bytes.le) (map_fst_foldl_add rfl names)

/-- The namespaces that code is generated with are those that analysis knew. -/
theorem Module.map_fst_roots_eq_loaded (m : Module) (opts : Options) (stamp : Nat) :
    (loadNamespaces opts.catalog stamp (m.loadNames opts.resolveEnv)).roots.map (·.1) =
      (m.loaded opts.resolveEnv).1 := by
  unfold Module.loaded
  split
  · rename_i h
    simp [loadNamespaces, loadListed, List.isEmpty_iff.1 h]
  · exact map_fst_roots ..

/-- The surroundings that a module is compiled in. -/
def Module.compileEnv (m : Module) (opts : Options) (stamp : Nat) : LowerEnv :=
  m.lowerEnv opts.debugInfo opts.isPredeclared
    (loadNamespaces opts.catalog stamp (m.loadNames opts.resolveEnv)).roots

/-- An accepted module compiles to its lowering. -/
theorem Module.compile_eq_lower {m : Module} (hdef : m.NoDefinitions) {opts : Options}
    (h : m.diagnose opts.resolveEnv = []) (stamp : Nat) :
    m.compile opts stamp = .ok (m.lower (m.compileEnv opts stamp)) := by
  have hg := m.generate_eq_lower hdef h (m.map_fst_roots_eq_loaded opts stamp) opts.debugInfo
  have hp : opts.resolveEnv.isPredeclared = opts.isPredeclared := rfl
  rw [hp] at hg
  simp only [Module.compile, h, hg]
  rfl

/-- Source text that compiles was parsed and accepted, and its code is its lowering. -/
theorem compile_ok {file src : Bytes} {opts : Options} {stamp : Nat} {f : Lambda}
    (h : compile file src opts stamp = .ok f) :
    ∃ m, parseModule file src = .ok m ∧ m.diagnose opts.resolveEnv = [] ∧
      f = m.lower (m.compileEnv opts stamp) := by
  unfold compile at h
  split at h
  · rename_i m hp
    cases hd : m.diagnose opts.resolveEnv with
    | nil =>
      rw [m.compile_eq_lower (parseModule_noDefinitions hp) hd] at h
      cases h
      exact ⟨m, hp, hd, rfl⟩
    | cons d ds => simp [Module.compile, hd] at h
  · cases h

/-! ### Units of compiled code

A store holds the code of any number of texts, each compiled on its own, with its own options.
What is proved of the lowering of a module holds of each of these units.
-/

/-- Every unit is the code of a text that compiled. -/
def Compiled (units : Array (List Lambda)) : Prop :=
  ∀ fs ∈ units, ∃ file src opts stamp f, compile file src opts stamp = .ok f ∧ fs = f.lambdas

variable {units : Array (List Lambda)}

/-- A unit with a lambda is the lowering of a module that was parsed and accepted. -/
theorem Compiled.lower (h : Compiled units) {unit : Nat} {f : Lambda}
    (hf : f ∈ units.getD unit []) :
    ∃ (file src : Bytes) (m : Module) (opts : Options) (stamp : Nat),
      parseModule file src = .ok m ∧ m.diagnose opts.resolveEnv = [] ∧
        units.getD unit [] = (m.lower (m.compileEnv opts stamp)).lambdas := by
  have hmem : units.getD unit [] ∈ units := by
    rw [Array.getD_eq_getD_getElem?] at hf ⊢
    cases hu : units[unit]? with
    | none =>
      rw [hu] at hf
      cases hf
    | some fs => exact Array.mem_of_getElem? hu
  obtain ⟨file, src, opts, stamp, g, hg, hfs⟩ := h _ hmem
  obtain ⟨m, hp, hd, rfl⟩ := compile_ok hg
  exact ⟨file, src, m, opts, stamp, hp, hd, hfs⟩

/-- Compiled code is linked as one more unit. -/
theorem Compiled.push (h : Compiled units) {file src : Bytes} {opts : Options} {stamp : Nat}
    {f : Lambda} (hf : compile file src opts stamp = .ok f) : Compiled (units.push f.lambdas) := by
  intro fs hfs
  rcases Array.mem_push.1 hfs with hfs | rfl
  · exact h fs hfs
  · exact ⟨file, src, opts, stamp, f, hf, rfl⟩

theorem compiled_empty : Compiled #[] := fun _ h => absurd h (Array.not_mem_empty _)

end Stencil
