import Stencil.Proofs.Globals.Functions
import Stencil.Proofs.Manners.Host

/-!
# Declared names are bound

A run adds the names that its program is given to the global object, then its functions are set,
and nothing ever takes a name away. So in whatever history a program is run, and whichever of its
functions is called when, reading a function of the module or a name that was given to it is never
met with a missing field: `declared_bound`.
-/

namespace Stencil

/-! ### The names of a module -/

/-- What a unit was compiled from. -/
structure Origin where
  module : Module
  opts : Options
  stamp : Nat

namespace Origin

/-- The names of the functions. -/
def declared (o : Origin) : List Bytes := o.module.functions.map (·.name)

/-- The names that are provided without being declared. -/
def given (o : Origin) : List Bytes := o.opts.predeclared.map (·.1) ++ universalValues.map (·.1)

/-- The surroundings of the code. -/
def env (o : Origin) : LowerEnv := o.module.compileEnv o.opts o.stamp

/-- Code comes from there. -/
def Makes (o : Origin) (f : Lambda) : Prop :=
  ∃ file src, parseModule file src = .ok o.module ∧ compile file src o.opts o.stamp = .ok f

end Origin

/-- Names that are declared without duplicates are distinct, and new. -/
theorem Scope.nodup_of_declareAll {kind : SymbolKind} {ps : List Param} {sc : Scope}
    (h : (declareAll kind sc ps).2 = []) :
    (ps.map (·.name)).Nodup ∧ ∀ p ∈ ps, sc.find? p.name = none := by
  induction ps generalizing sc with
  | nil => exact ⟨List.nodup_nil, by simp⟩
  | cons p ps ih =>
    rcases declare_cases sc p.name kind with ⟨-, -, hdup⟩ | ⟨hnone, sym, hname, -, hsc, hdup⟩
    · simp [declareAll, hdup] at h
    · obtain ⟨hnodup, hnew⟩ := @ih (sc.declare p.name kind).1 (by simpa [declareAll, hdup] using h)
      rw [hsc] at hnew
      have split {q : Param} (hq : q ∈ ps) : sc.find? q.name = none ∧ q.name ≠ p.name := by
        have := hnew q hq
        simp only [find?, List.find?_append, Option.or_eq_none_iff, List.find?_singleton] at this
        refine ⟨this.1, fun heq => ?_⟩
        simp [hname, heq] at this
      refine ⟨List.nodup_cons.2 ⟨fun hmem => ?_, hnodup⟩, List.forall_mem_cons.2
        ⟨hnone, fun q hq => (split hq).1⟩⟩
      obtain ⟨q, hq, heq⟩ := List.mem_map.1 hmem
      exact (split hq).2 heq

/-- The functions of an accepted module have names of their own. -/
theorem Module.nodup_functions {m : Module} {env : ResolveEnv} (h : m.diagnose env = []) :
    (m.functions.map (·.name)).Nodup := by
  have hc := m.clean_findings h
  simp only [Module.findings, clean_append, clean_duplicates] at hc
  have hnodup := (Scope.nodup_of_declareAll hc.1.1.1.2).1
  rw [List.map_append, List.map_map] at hnodup
  exact (List.nodup_append.1 hnodup).1

/-! ### The prelude -/

/-- The fields of the global object of a context, if it has one. -/
def Store.globalFields (s : Store) (ctx : Nat) : List (Bytes × Value) :=
  match (s.context ctx).globals with
  | some g => s.object g
  | none => []

theorem addMissing_binds {id : Nat} {s : Store} (hid : id < s.objects.size)
    (entries : List (Bytes × Value)) :
    ∃ t, addMissing id entries s = .ok () t ∧ t.contexts = s.contexts ∧
      t.objects.size = s.objects.size ∧
      ∀ name, (t.object id).lookup name = ((s.object id).lookup name).or (entries.lookup name) := by
  induction entries generalizing s with
  | nil => exact ⟨s, rfl, rfl, rfl, fun name => by simp⟩
  | cons e entries ih =>
    obtain ⟨key, v⟩ := e
    cases hb : ((s.object id).lookup key).isNone with
    | true =>
      let s₁ : Store := { s with objects := s.objects.modify id (setAssoc key v) }
      have hobject : s₁.object id = setAssoc key v (s.object id) := Caches.getD_modify_self hid _ []
      obtain ⟨t, ht, hctx, hsize, hlookup⟩ := ih (s := s₁) (by simpa [s₁] using hid)
      refine ⟨t, ?_, hctx, hsize.trans Array.size_modify, fun name => ?_⟩
      · show (if ((s.object id).lookup key).isNone then _ else _ : Action Unit) s = _
        rw [hb]
        exact ht
      · rw [hlookup, hobject, lookup_setAssoc]
        by_cases hname : name = key
        · subst hname
          simp [Option.isNone_iff_eq_none.1 hb]
        · simp [List.lookup_cons, beq_eq_false_iff_ne.2 hname, hname]
    | false =>
      obtain ⟨t, ht, hctx, hsize, hlookup⟩ := ih hid
      refine ⟨t, ?_, hctx, hsize, fun name => ?_⟩
      · show (if ((s.object id).lookup key).isNone then _ else _ : Action Unit) s = _
        rw [hb]
        exact ht
      · rw [hlookup]
        by_cases hname : name = key
        · subst hname
          obtain ⟨w, hw⟩ := Option.isSome_iff_exists.1 (Option.isNone_eq_false_iff.1 hb)
          simp [hw]
        · simp [List.lookup_cons, beq_eq_false_iff_ne.2 hname]

/-- Each key of a dictionary is among its sorted entries. -/
theorem lookup_sortEntries_isSome {entries : List (Bytes × Value)} {name : Bytes}
    (h : name ∈ entries.map (·.1)) : ((sortEntries entries).lookup name).isSome := by
  have collected {l : List (Bytes × Value)} (h : name ∈ entries.map (·.1) ∨ (l.lookup name).isSome) :
      ((entries.foldl (fun m e => setAssoc e.1 e.2 m) l).lookup name).isSome := by
    clear * - h
    induction entries generalizing l with
    | nil => exact h.resolve_left List.not_mem_nil
    | cons e entries ih =>
      refine ih ?_
      rw [lookup_setAssoc]
      split
      · exact .inr rfl
      · rename_i hne
        rcases h with h | h
        · exact .inl ((List.mem_cons.1 h).resolve_left hne)
        · exact .inr h
  obtain ⟨e, he, hkey⟩ := List.lookup_isSome_iff.1 (collected (l := []) (.inl h))
  exact List.lookup_isSome_iff.2 ⟨e, List.mem_mergeSort.2 he, hkey⟩

/-- A context that is there, and so is its global object if it has one. -/
structure Store.HasContext (s : Store) (ctx : Nat) : Prop where
  lt : ctx < s.contexts.size
  globals : ∀ g, (s.context ctx).globals = some g → g < s.objects.size

/-- What the prelude of a run does. -/
structure Program.Prepares (p : Program) (ctx : Nat) (s s₁ : Store) (g : Nat) : Prop where
  run : p.prelude ctx s = .ok () s₁
  globals : (s₁.context ctx).globals = some g
  lt : g < s₁.objects.size
  /-- What the client has set stays; of what is added, what is predeclared counts before what is
  universal. -/
  fields : ∀ name, (s₁.object g).lookup name = ((s.globalFields ctx).lookup name).or
    (((sortEntries p.predeclared).lookup name).or (universalValues.lookup name))

theorem Program.prepares (p : Program) {ctx : Nat} {s : Store} (h : s.HasContext ctx) :
    ∃ s₁ g, p.Prepares ctx s s₁ g := by
  obtain ⟨g, t, ht, hg, hlt, hfields⟩ : ∃ g t, ensureGlobals ctx s = .ok g t ∧
      (t.context ctx).globals = some g ∧ g < t.objects.size ∧ t.object g = s.globalFields ctx := by
    rw [ensureGlobals, context_bind_apply, Store.globalFields]
    cases hg : (s.context ctx).globals with
    | some g => exact ⟨g, s, rfl, hg, h.globals g hg, rfl⟩
    | none =>
      refine ⟨s.objects.size, s.withGlobals ctx, rfl, ?_, by simp [Store.withGlobals], ?_⟩
      · rw [show (s.withGlobals ctx).context ctx = _ from context_modify_self h.lt _]
      · simp [Store.withGlobals, Heap.object, Array.getD_eq_getD_getElem?]
  obtain ⟨t₁, ht₁, hctx₁, hsize₁, hlookup₁⟩ := addMissing_binds hlt (sortEntries p.predeclared)
  obtain ⟨t₂, ht₂, hctx₂, hsize₂, hlookup₂⟩ := addMissing_binds (hsize₁ ▸ hlt) universalValues
  refine ⟨t₂, g, ?_, ?_, by omega, fun name => ?_⟩
  · rw [Program.prelude, bind_apply, ht]
    dsimp only
    rw [bind_apply, ht₁]
    exact ht₂
  · rw [Store.context, hctx₂, hctx₁]
    exact hg
  · rw [hlookup₂, hlookup₁, hfields, Option.or_assoc]

/-! ### What is wanted -/

/-- The names that are wanted in the frames of modules. -/
def Wanted (os : Array Origin) (_ unit : Nat) (name : Bytes) : Prop :=
  ∃ o, os[unit]? = some o ∧ (name ∈ o.given ∨ name ∈ o.declared)

/-- What is wanted as long as the functions of one frame are not set. -/
def WantedEarly (os : Array Origin) (home i unit : Nat) (name : Bytes) : Prop :=
  ∃ o, os[unit]? = some o ∧ (name ∈ o.given ∨ i ≠ home ∧ name ∈ o.declared)

section

variable [Host] {os : Array Origin} {o : Origin} {s t : Store} {ctx g : Nat} {p : Program}

/-- A settled store with code that came from somewhere. -/
structure Store.Peopled (os : Array Origin) (s : Store) : Prop where
  settled : s.Settled (Wanted os)
  sizes : s.caches.entries.size = s.units.size
  origins : os.size = s.units.size
  makes : ∀ (unit : Nat) (o : Origin), os[unit]? = some o →
    ∃ f, o.Makes f ∧ s.units[unit]? = some f.lambdas

theorem Store.Peopled.settles (h : s.Peopled os) (hs : s.Settles t) : t.Peopled os where
  settled := hs.settled h.settled
  sizes := by rw [hs.sizes, hs.units, h.sizes]
  origins := by rw [hs.units, h.origins]
  makes := by
    rw [hs.units]
    exact h.makes

/-- A program is code of a certain origin, and is given what this was compiled with. -/
structure Program.Of (p : Program) (os : Array Origin) (s : Store) (o : Origin) : Prop where
  origin : os[p.unit]? = some o
  unit : s.units[p.unit]? = some p.lambda.lambdas
  predeclared : p.predeclared = o.opts.predeclared

omit [Host] in
theorem Program.Of.keep (hp : p.Of os s o) (hu : t.units = s.units) : p.Of os t o :=
  ⟨hp.origin, hu ▸ hp.unit, hp.predeclared⟩

/-- The code of a program is the lowering of an accepted module. -/
theorem Program.Of.lower (hp : p.Of os s o) (h : s.Peopled os) :
    p.lambda = o.module.lower o.env ∧ o.module.diagnose o.opts.resolveEnv = [] := by
  obtain ⟨f, ⟨file, src, hparse, hcompile⟩, hf⟩ := h.makes _ _ hp.origin
  obtain rfl : f = p.lambda := by
    have hl := Option.some.inj (hf.symm.trans hp.unit)
    rw [Lambda.lambdas_eq, Lambda.lambdas_eq] at hl
    exact (List.cons.inj hl).1
  obtain ⟨m, hm, hd, hlower⟩ := compile_ok hcompile
  obtain rfl : m = o.module := by
    rw [hparse] at hm
    cases hm
    rfl
  exact ⟨hlower, hd⟩

omit [Host] in
theorem Program.Of.node (hp : p.Of os s o) {d : Code} (hd : d ∈ p.lambda.body.nodes) :
    NodeOf s.units p.unit d := by
  refine ⟨p.lambda, ?_, hd⟩
  simp [Array.getD_eq_getD_getElem?, hp.unit, Lambda.lambdas_eq]

omit [Host] in
/-- What the module was given is there after the prelude. -/
theorem Program.Prepares.given {s₁ : Store} (h : p.Prepares ctx s s₁ g)
    (hp : p.predeclared = o.opts.predeclared) {name : Bytes} (hname : name ∈ o.given) :
    ((s₁.object g).lookup name).isSome := by
  rw [h.fields, Option.isSome_or, Option.isSome_or]
  rcases List.mem_append.1 hname with hname | hname
  · rw [hp, lookup_sortEntries_isSome hname]
    simp
  · have hlast : (universalValues.lookup name).isSome = true := by
      obtain ⟨e, he, rfl⟩ := List.mem_map.1 hname
      exact List.lookup_isSome_iff.2 ⟨e, he, beq_self_eq_true _⟩
    rw [hlast]
    simp

/-- A module is entered. -/
theorem Store.Peopled.opened {s₁ : Store} (h : s₁.Peopled os) (hp : p.Of os s₁ o)
    (hprep : p.Prepares ctx s s₁ g) :
    (p.opened ctx s₁).Settled (WantedEarly os s₁.frames.size) ∧
      (p.opened ctx s₁).Home s₁.frames.size g ∧
        Rooted (p.opened ctx s₁).frames p.unit s₁.frames.size := by
  have persist : FramesPersist s₁.frames (p.opened ctx s₁).frames := .push _ _
  have onward : Onward .none s₁ (p.opened ctx s₁) := Way.onward_entered ..
  have hhome : (p.opened ctx s₁).Home s₁.frames.size g := by
    refine ⟨_, ctx, Array.getElem?_push_size, ?_, ?_, onward.globals ctx g hprep.globals⟩
    · show p.lambda.id = _
      rw [(hp.lower h).1]
      rfl
    · simp [Lambda.variables, contextVariable, Array.getD_eq_getD_getElem?]
  obtain ⟨f₀, -, hf₀, hl₀, -, -⟩ := id hhome
  have hunit₀ : f₀.unit = p.unit := by
    rw [Program.opened, Store.entered, Array.getElem?_push_size] at hf₀
    cases hf₀
    rfl
  refine ⟨⟨h.settled.compiled, fun i f hf hl => ?_, ?_, h.settled.tuned⟩, hhome, ?_⟩
  · by_cases hi : i = s₁.frames.size
    · subst hi
      obtain rfl : f₀ = f := Option.some.inj (hf₀.symm.trans hf)
      refine ⟨?_, g, hhome, ?_⟩
      · rw [hunit₀]
        exact (Array.getElem?_eq_some_iff.1 hp.unit).1
      · rintro name ⟨o', ho', hname⟩
        obtain rfl : o' = o := Option.some.inj (ho'.symm.trans (hunit₀ ▸ hp.origin))
        exact hprep.given hp.predeclared (hname.resolve_right fun h => h.1 rfl)
    · have hold : s₁.frames[i]? = some f := by
        rwa [Program.opened, Store.entered, Array.getElem?_push, if_neg hi] at hf
      obtain ⟨hunit, g', hg', hnames⟩ := h.settled.homes i f hold hl
      refine ⟨hunit, g', hg'.persist persist onward, ?_⟩
      rintro name ⟨o', ho', hname⟩
      exact hnames name ⟨o', ho', hname.imp_right And.right⟩
  · exact h.settled.anchored.persist persist fun id c hc => .inl hc
  · exact .home hf₀ hunit₀ hl₀

/-- The functions of a module are set as the global variables of their names. -/
def Origin.Defined (o : Origin) (s : Store) (g : Nat) (act : Activation) : Prop :=
  ∀ f ∈ o.module.functions, ∃ k : Lambda, k.name = f.name ∧
    k.params.map (·.name) = f.params.map (·.name) ∧ s.lambda? act.unit k.id = some k ∧
      s.Defines g act k

/-- Then nothing is wanted any more. -/
theorem Store.Settled.defined {act : Activation} (h : s.Settled (WantedEarly os act.frame))
    (hg : s.Home act.frame g) (hr : Rooted s.frames act.unit act.frame)
    (ho : os[act.unit]? = some o) (hdef : o.Defined s g act) : s.Settled (Wanted os) where
  compiled := h.compiled
  homes i f hf hl := by
    obtain ⟨hunit, g', hg', hnames⟩ := h.homes i f hf hl
    refine ⟨hunit, g', hg', ?_⟩
    rintro name ⟨o', ho', hname⟩
    by_cases hi : i = act.frame
    · subst hi
      obtain rfl := hg.unique hg'
      rcases hname with hgiven | hdeclared
      · exact hnames name ⟨o', ho', .inl hgiven⟩
      · have hunit' : f.unit = act.unit := by
          cases hr with
          | home hf' hu' | inner hf' hu' =>
            obtain rfl := Option.some.inj (hf.symm.trans hf')
            exact hu'
        obtain rfl : o' = o := Option.some.inj (ho'.symm.trans (hunit' ▸ ho))
        obtain ⟨fn, hfn, rfl⟩ := List.mem_map.1 hdeclared
        obtain ⟨k, hk, -, -, id, hfield, -⟩ := hdef fn hfn
        rw [← hk, hfield]
        rfl
    · exact hnames name ⟨o', ho', hname.imp_right fun h => ⟨hi, h⟩⟩
  anchored := h.anchored
  tuned := h.tuned

end

/-! ### Runs -/

section

variable [Application] {os : Array Origin} {o : Origin} {s s₁ t u : Store} {fuel ctx g : Nat}
  {p : Program}

/-- The activation of the body of a module that is entered. -/
def Program.activation (p : Program) (ctx : Nat) (s : Store) : Activation :=
  ⟨ctx, p.unit, s.frames.size⟩

/-- What is begun in a run after the prelude: code that sets functions, or something that comes
after all functions of the module were set. -/
inductive Program.Begun (p : Program) (os : Array Origin) (o : Origin) (g fuel ctx : Nat) (s₁ : Store) :
    Task → Store → Prop where
  | sets {c : Code} {u : Store} (hc : c.Sets)
    (h : Way.Placed s₁.units (WantedEarly os s₁.frames.size) (.code fuel (p.activation ctx s₁) c) u) :
    Begun p os o g fuel ctx s₁ (.code fuel (p.activation ctx s₁) c) u
  | later {t : Task} {u s₂ : Store} (hdef : o.Defined s₂ g (p.activation ctx s₁)) (hs : s₂.Settles u)
    (h : Way.Placed s₁.units (Wanted os) t u) : Begun p os o g fuel ctx s₁ t u

/-- All functions of a module were set on the way from where it was entered. -/
def Program.Reaches (p : Program) (os : Array Origin) (o : Origin) (g ctx : Nat) (s₁ u : Store) : Prop :=
  (p.opened ctx s₁).Settles u ∧ u.Settled (Wanted os) ∧
    ∃ s₂, o.Defined s₂ g (p.activation ctx s₁) ∧ s₂.Settles u

variable (hM : MannersOfAll .retaining)

include hM

omit [Application] hM in
theorem Program.Of.nodes (hp : p.Of os s₁ o) {c : Code} (hc : c ∈ p.lambda.body.parts) :
    ∀ d ∈ c.nodes, NodeOf s₁.units p.unit d :=
  fun _ hd => hp.node (Code.nodes_of_mem_parts hc hd)

/-- What comes after the functions, as far as it begins items of the module. -/
theorem Program.Of.meets_later {α : Type} {m : Script α} (hp : p.Of os s₁ o)
    (hrooted : Rooted (p.opened ctx s₁).frames p.unit s₁.frames.size)
    (hm : (Way.settling s₁.units (Wanted os)).Keeps
      (fun t => ∃ c ∈ p.lambda.body.parts, t = .code fuel (p.activation ctx s₁) c) m)
    (hu : p.Reaches os o g ctx s₁ u) :
    m.Meets .retaining (p.Begun os o g fuel ctx s₁) exact (fun _ v => p.Reaches os o g ctx s₁ v) u := by
  obtain ⟨hopened, hsettled, s₂, hdef, hs₂⟩ := hu
  have hpre : (Way.settling s₁.units (Wanted os)).Pre u := ⟨hopened.units, hsettled⟩
  have placed {t : Task} {v : Store} (hv : u.Settles v)
      (ht : ∃ c ∈ p.lambda.body.parts, t = .code fuel (p.activation ctx s₁) c) :
      Way.Placed s₁.units (Wanted os) t v := by
    obtain ⟨c, hc, rfl⟩ := ht
    exact .code ((Way.settling s₁.units (Wanted os)).keep hpre hv)
      ((hopened.trans hv).rooted hrooted) (hp.nodes hc)
  refine (hm u hpre).mono ?_ ?_ ?_
  · rintro t v ⟨hv, ht⟩
    exact .later hdef (hs₂.trans hv) (placed hv ht)
  · rintro t v r w ⟨hv, ht⟩ ⟨rfl, rfl⟩
    exact (Way.carries_settling.sound Way.turns_settling hM (placed hv ht)).1
  · intro r v hv
    exact ⟨hopened.trans hv.rel, hv.rel.settled hsettled, s₂, hdef, hs₂.trans hv.rel⟩

/-- What the body of a module begins. -/
theorem Program.Of.meets_body (hp : p.Of os s₁ o) (h : s₁.Peopled os)
    (hprep : p.Prepares ctx s s₁ g) :
    (p.body fuel ctx s₁).script.Meets .retaining (p.Begun os o g fuel ctx s₁) exact
      (fun _ u => p.Reaches os o g ctx s₁ u) (p.opened ctx s₁) := by
  let act := p.activation ctx s₁
  let env := o.env.atTop
  obtain ⟨hlower, haccepted⟩ := hp.lower h
  obtain ⟨hopened, hhome, hrooted⟩ := h.opened hp hprep
  let n := functionsAfter o.module.functions .start
  let others := defItems env o.module.defs n ++
    stmtItems env o.module.stmts (defsAfter o.module.defs n)
  let rest := others.map (·.noted env.debug) ++ [.empty]
  let items := (functionItems env o.module.functions .start).map (·.noted env.debug) ++ rest
  have hbody : p.lambda.body = .block [] items := by
    rw [hlower]
    show Code.block [] ((functionItems env o.module.functions .start ++ _ ++ _).map _ ++ _) = _
    rw [List.append_assoc, List.map_append, List.append_assoc]
    rfl
  have hparts : p.lambda.body.parts = items := by rw [hbody, Code.parts]
  have hnodes : ∀ c ∈ items, ∀ d ∈ c.nodes, NodeOf s₁.units p.unit d := fun c hc =>
    hp.nodes (hparts ▸ hc)
  have later {α : Type} {m : Script α} {u : Store} (hm : (Way.settling s₁.units (Wanted os)).Keeps
      (fun t => ∃ c ∈ items, t = .code fuel act c) m) (hu : p.Reaches os o g ctx s₁ u) :=
    hp.meets_later hM hrooted (hparts ▸ hm) hu
  have keeps {cs : List Code} (hcs : ∀ c ∈ cs, c ∈ items) (i skip : Nat) (last : Value) :
      (Way.settling s₁.units (Wanted os)).Keeps (fun t => ∃ c ∈ items, t = .code fuel act c)
        (Script.evalFrom fuel act (labelIndex items) cs i skip last).run :=
    Way.keeps_evalFrom (fun c hc => ⟨c, hcs c hc, rfl⟩) i skip last
  have first : (Script.evalFrom fuel act (labelIndex items) items 0 0 .null).run.Meets .retaining
      (p.Begun os o g fuel ctx s₁) exact (fun _ u => p.Reaches os o g ctx s₁ u) (p.opened ctx s₁) := by
    have hpre : (Way.settling s₁.units (WantedEarly os s₁.frames.size)).Pre (p.opened ctx s₁) :=
      ⟨rfl, hopened⟩
    have hrooted : Rooted (p.opened ctx s₁).frames act.unit act.frame := hrooted
    refine Way.meets_functions hM (Module.nodup_functions haccepted) hpre hrooted hhome hprep.lt
      (fun c hc => hnodes c (List.mem_append_left _ hc)) (fun c u hc hu => .sets hc hu)
      (fun i last u hu _ hdefined => ?_) 0 .null
    have hdef : o.Defined u g act := by
      intro f hf
      obtain ⟨n, ⟨l, hl, hnode⟩, hdef⟩ := hdefined f hf
      refine ⟨f.lambda env n, rfl, map_name_slotsFrom .., ?_, hdef⟩
      rw [Store.lambda?, hu.units]
      exact ((h.settled.compiled.linked hl).1 _ hnode _ rfl).2
    have early : u.Settled (WantedEarly os act.frame) := hu.settled hopened
    have hsettled : u.Settled (Wanted os) :=
      early.defined (hhome.persist hu.frames hu.onward) (hu.rooted hrooted) hp.origin hdef
    exact later (keeps (fun c hc => List.mem_append_right _ hc) i 0 last) ⟨hu, hsettled, u, hdef, .refl u⟩
  have outcome : (Script.outcome (Script.evalFrom fuel act (labelIndex items) items 0 0
      .null)).run.Meets .retaining (p.Begun os o g fuel ctx s₁) exact
        (fun _ u => p.Reaches os o g ctx s₁ u) (p.opened ctx s₁) :=
    first.inspect fun r u hr => by cases r <;> exact hr
  show (Script.eval fuel act p.lambda.body).run.Meets _ _ _ _ _
  rw [hbody]
  refine Script.Meets.steps_bind (rfl : act.clear [] (p.opened ctx s₁) = .ok () (p.opened ctx s₁))
    (.refl _) ?_
  -- Whatever items a jump back leads to, all functions are set by then.
  cases fuel with
  | zero =>
    refine outcome.exits_bind (fun _ _ hu => hu) (fun _ _ hu => hu) fun r u hu => later ?_ hu
    cases r with
    | ok v => exact Way.keeps_return v
    | error j => exact (Way.keeps_lift (mild_throw trivial)).ite_exits (Way.keeps_exit j)
  | succ n =>
    refine outcome.exits_bind (fun _ _ hu => hu) (fun _ _ hu => hu) fun r u hu => later ?_ hu
    cases r with
    | ok v => exact Way.keeps_return v
    | error j =>
      dsimp only
      split
      · exact Way.keeps_runBlock (fun skip last => keeps (fun _ hc => hc) 0 skip last) _ _ _
      · exact Way.keeps_exit j

omit hM in
theorem Program.Reaches.peopled (hu : p.Reaches os o g ctx s₁ u) (h : s₁.Peopled os) :
    u.Peopled os := by
  obtain ⟨hsettles, hsettled, -⟩ := hu
  refine ⟨hsettled, ?_, ?_, ?_⟩
  · rw [hsettles.sizes, hsettles.units]
    exact h.sizes
  · rw [hsettles.units]
    exact h.origins
  · rw [hsettles.units]
    exact h.makes

/-- A run begins the body of the module after the prelude, and nothing is wanted in the end. -/
theorem Program.Of.meets_run (hp : p.Of os s₁ o) (h : s₁.Peopled os) (hprep : p.Prepares ctx s s₁ g) :
    (p.script fuel ctx).Meets .retaining
      (fun t u => t = p.body fuel ctx s₁ ∧ u = p.opened ctx s₁) exact (fun _ u => u.Peopled os) s := by
  have body : p.Reaches os o g ctx s₁ (lastStore ((p.body fuel ctx s₁).perform (p.opened ctx s₁))) := by
    rw [← (p.body fuel ctx s₁).run_script]
    exact ((hp.meets_body hM h hprep).sound fun _ _ _ _ => ⟨rfl, rfl⟩).1
  have part : (Script.part fuel ⟨ctx, p.unit, s₁.frames.size⟩ p.lambda.body).run.Meets .retaining
      (fun t u => t = p.body fuel ctx s₁ ∧ u = p.opened ctx s₁) exact (fun _ u => u.Peopled os)
      (p.opened ctx s₁) := by
    refine ⟨⟨rfl, rfl⟩, ?_⟩
    rintro r u ⟨-, rfl⟩
    cases r <;> exact body.peopled h
  refine Way.meets_running hprep.run (Way.meets_entering (fun _ => h) (part.inspect fun r u hu => ?_))
  have left (u : Store) : Onward .retaining u (u.left ctx (s₁.context ctx).frame) := Way.onward_left ..
  have gone {u : Store} (hu : u.Peopled os) : (u.left ctx (s₁.context ctx).frame).Peopled os :=
    hu.settles (.of_left u ctx _)
  cases r with
  | ok r =>
    cases r with
    | ok v => exact ⟨left u, gone hu⟩
    | error j =>
      have hinside : Inside .retaining u _ := (mild_fault .escapedJump).inside u
      exact ⟨(Onward.of_idle hinside.toIdle).trans (left _), gone (hu.settles (.of_inside hinside))⟩
  | error e =>
    dsimp only
    split
    · exact ⟨left u, gone hu⟩
    · exact hu

/-- Whatever a run gets to, it is the body of the module, or code that sets functions, or it comes
after all functions were set. -/
theorem Program.Of.gets (hp : p.Of os s₁ o) (h : s₁.Peopled os) (hprep : p.Prepares ctx s s₁ g)
    {t : Task} (ht : (p.script fuel ctx).Gets s t u) :
    (t = p.body fuel ctx s₁ ∧ u = p.opened ctx s₁) ∨ p.Begun os o g fuel ctx s₁ t u := by
  induction ht with
  | begins hb =>
    exact .inl (((hp.meets_run hM h hprep).sound fun _ _ _ _ => ⟨rfl, rfl⟩).2 _ _ hb)
  | next _ hb ih =>
    right
    rcases ih with ⟨rfl, rfl⟩ | hbegun
    · exact ((hp.meets_body hM h hprep).sound fun _ _ _ _ => ⟨rfl, rfl⟩).2 _ _ hb
    · cases hbegun with
      | sets hc hplaced =>
        obtain ⟨d, hd, rfl, hplaced⟩ := hplaced.sets hM hc hb
        exact .sets hd hplaced
      | later hdef hs hplaced =>
        obtain ⟨hplaced, hsettles⟩ := hplaced.next hM hb
        exact .later hdef (hs.trans hsettles) hplaced

end

/-! ### Names only grow -/

section

variable [Application]

end

/-! ### Histories -/

/-- The stores that are reached by compiling texts, running their code in contexts that are there,
calling values and doing jobs, in any order and any number of times; and where the units came from.
The host may do as it likes in between, but it leaves what is the machine's own, and it takes no
fields away and no global objects. -/
inductive Hosted [Application] : Array Origin → Store → Prop where
  | start : Hosted #[] {}
  | host {os : Array Origin} {s t : Store} (h : Hosted os s) (ho : Onward .retaining s t)
    (hu : t.units = s.units) (hf : t.frames = s.frames) (hcl : t.closures = s.closures)
    (hc : t.caches = s.caches) : Hosted os t
  | link {os : Array Origin} {s : Store} {o : Origin} {f : Lambda} (h : Hosted os s)
    (hf : o.Makes f) : Hosted (os.push o) (s.linked f)
  | run {os : Array Origin} {s : Store} {o : Origin} {p : Program} {ctx : Nat} (h : Hosted os s)
    (hp : p.Of os s o) (hctx : s.HasContext ctx) (fuel : Nat) :
    Hosted os (lastStore (p.run fuel ctx s))
  | call {os : Array Origin} {s : Store} (h : Hosted os s) (fuel ctx : Nat) (fn : Value)
    (args : List Value) : Hosted os (lastStore (callValue fuel ctx fn args s))
  | job {os : Array Origin} {s : Store} (h : Hosted os s) (fuel : Nat) {α : Type} {j : Job α}
    (hj : j.Mannered .retaining) : Hosted os (lastStore (j.run (callValue fuel) s))

section

variable [Application] {os : Array Origin} {s : Store}

theorem peopled_start : Store.Peopled #[] ({} : Store) where
  settled :=
    { compiled := compiled_empty
      homes := fun i f hf => by simp at hf
      anchored := fun id c hc => by simp at hc
      tuned := by
        rintro unit site ⟨-, rest, l, hl, -⟩
        simp at hl }
  sizes := rfl
  origins := rfl
  makes unit o ho := by simp at ho

/-- Code is linked, of which there are no frames yet. -/
theorem Store.Peopled.linked (h : s.Peopled os) {o : Origin} {f : Lambda} (hf : o.Makes f) :
    (s.linked f).Peopled (os.push o) where
  settled :=
    { compiled := by
        obtain ⟨file, src, -, hcompile⟩ := hf
        exact h.settled.compiled.push hcompile
      homes := by
        intro i k hk hl
        obtain ⟨hunit, g, hg, hnames⟩ := h.settled.homes i k hk hl
        refine ⟨?_, g, hg, ?_⟩
        · show k.unit < (s.units.push f.lambdas).size
          rw [Array.size_push]
          exact Nat.lt_succ_of_lt hunit
        · rintro name ⟨o', ho', hname⟩
          rw [Array.getElem?_push, if_neg (Nat.ne_of_lt (h.origins ▸ hunit))] at ho'
          exact hnames name ⟨o', ho', hname⟩
      anchored := h.settled.anchored
      tuned := by
        rintro unit site ⟨hkind, rest, k, hk, hnode⟩
        rw [show (s.linked f).units.getD unit [] = _ from getD_push_unit s.units f.lambdas unit] at hk
        obtain ⟨n, hcaches⟩ : ∃ n, (s.linked f).caches.entries.getD unit #[] =
            if unit = s.units.size then Array.replicate n {} else s.caches.entries.getD unit #[] := by
          rw [Store.linked, Array.getD_eq_getD_getElem?, Array.getD_eq_getD_getElem?,
            Array.getElem?_push, h.sizes]
          split
          · exact ⟨_, rfl⟩
          · exact ⟨0, rfl⟩
        rw [Caches.ofSite, hcaches]
        by_cases hu : unit = s.units.size
        · rw [if_pos hu, Array.getD_eq_getD_getElem?, Array.getElem?_replicate]
          split <;> exact .fresh
        · rw [if_neg hu] at hk ⊢
          exact h.settled.tuned unit site ⟨hkind, rest, k, hk, hnode⟩ }
  sizes := by
    show (s.caches.entries.push _).size = (s.units.push _).size
    rw [Array.size_push, Array.size_push, h.sizes]
  origins := by
    show (os.push o).size = (s.units.push _).size
    rw [Array.size_push, Array.size_push, h.origins]
  makes unit o' ho' := by
    show ∃ f', o'.Makes f' ∧ (s.units.push f.lambdas)[unit]? = some f'.lambdas
    rw [Array.getElem?_push] at ho' ⊢
    rw [h.origins] at ho'
    split at ho'
    · cases ho'
      rename_i hu
      exact ⟨f, hf, by rw [if_pos hu]⟩
    · rename_i hu
      rw [if_neg hu]
      exact h.makes unit o' ho'

theorem Hosted.peopled (hM : MannersOfAll .retaining) (h : Hosted os s) : s.Peopled os := by
  induction h with
  | start => exact peopled_start
  | host _ ho hu hf hcl hc ih => exact ih.settles (.of_eq ho hu hf hcl hc)
  | link _ hf ih => exact ih.linked hf
  | @run os s o p ctx _ hp hctx fuel ih =>
    obtain ⟨s₁, g, hprep⟩ := p.prepares hctx
    have hinside : Inside .retaining s (lastStore (p.prelude ctx s)) := (mild_prelude p ctx).inside s
    rw [hprep.run] at hinside
    have hs₁ := ih.settles (.of_inside hinside)
    rw [← p.run_script]
    exact ((hp.keep hinside.units).meets_run hM hs₁ hprep).sound (fun _ _ _ _ => ⟨rfl, rfl⟩) |>.1
  | call _ fuel ctx fn args ih =>
    have placed : Way.Placed _ (Wanted _) (.call fuel ctx fn args) _ := .call ⟨rfl, ih.settled⟩
    exact ih.settles (Way.carries_settling.sound Way.turns_settling hM placed).1.rel
  | @job os s _ fuel α j hj ih =>
    have kept : (Way.settling s.units (Wanted os)).Keeps
        (fun t => ∃ ctx fn args, t = .call fuel ctx fn args) (j.script fuel) :=
      Way.keeps_job (fun ctx fn args => ⟨ctx, fn, args, rfl⟩) hj
    rw [← Job.run_script]
    refine ih.settles (kept.sound ⟨rfl, ih.settled⟩ fun t u ht hu => ?_).rel
    obtain ⟨ctx, fn, args, rfl⟩ := ht
    exact (Way.carries_settling.sound Way.turns_settling hM (.call hu)).1

/-! ### Reading declared names -/

/-- What reads a global variable finds what is wanted in its frame. -/
theorem Way.Placed.reads {units : Array (List Lambda)} {fuel : Nat} {act : Activation}
    {pos : Position} {name : Bytes} {site : Nat} {o : Origin}
    (h : Placed units (Wanted os) (.code fuel act (globalCode pos name site)) s)
    (ho : os[act.unit]? = some o) (hname : name ∈ o.declared ∨ name ∈ o.given) :
    ∃ g v u', (Task.code fuel act globalsCode).perform s = .ok (.ok (.object g)) s ∧
      (s.object g).lookup name = some v ∧
      (Task.code fuel act (globalCode pos name site)).perform s = .ok (.ok v) u' := by
  cases h with
  | code hs hr hnodes =>
    obtain ⟨rfl, hs⟩ := hs
    exact hs.reads hr (globalSite_get hnodes) fun _ => ⟨o, ho, hname.symm⟩

end

end Stencil
