import Stencil.Proofs.Globals.Settled

/-!
# Global variables are read and functions are set

In a settled store, what reads a global variable comes to the field of the global object, if that
is wanted there; and what sets a function as a global variable does just that, begins nothing but
its own parts, and calls nothing.
-/

namespace Stencil

section

variable [Host] {units : Array (List Lambda)} {unit : Nat} {site : CallSite} {s : Store}

omit [Host] in
theorem GlobalSite.not_stray (h : GlobalSite units unit site) (g : Nat) (y : Value) :
    site.isStray (.object g) y = false := by
  rcases h.1 with hk | hk <;> simp [CallSite.isStray, Value.isDisguised, hk]

/-- At the site of a global variable, what is found is what is resolved for objects. -/
theorem Store.Tuned.found (h : s.Tuned) (hsite : GlobalSite s.units unit site) (g : Nat) (y : Value) :
    s.found site unit (.object g) y = (site.resolve s.toHeap (.object g) y).toOption := by
  rw [Store.found]
  cases hf : (s.caches.ofSite unit site.id).find? (site.shape s.toHeap (.object g) y) with
  | none => rfl
  | some b =>
    rw [(h unit site hsite).resolve (hsite.not_stray g y) hf]
    rfl

end

section

variable [Application] {units : Array (List Lambda)} {B : Nat → Nat → Bytes → Prop} {s : Store}
  {fuel : Nat} {act : Activation} {pos : Position} {name : Bytes} {site : Nat}

/-- What reads a global variable comes to the field of the global object. -/
theorem Store.Settled.reads (h : s.Settled B) (hr : Rooted s.frames act.unit act.frame)
    (hsite : GlobalSite s.units act.unit { id := site, kind := .getMember, name, pos })
    (hname : ∀ i, B i act.unit name) :
    ∃ g v u, (Task.code fuel act globalsCode).perform s = .ok (.ok (.object g)) s ∧
      (s.object g).lookup name = some v ∧
        (Task.code fuel act (globalCode pos name site)).perform s = .ok (.ok v) u := by
  obtain ⟨j, g, -, -, hglobals, hnames⟩ := h.eval_globals hr (callValue fuel) fuel
  obtain ⟨v, hv⟩ := Option.isSome_iff_exists.1 (hnames name (hname j))
  let member : CallSite := { id := site, kind := .getMember, name, pos }
  have hfound : s.found member act.unit (.object g) .null = some .getAttr := h.tuned.found hsite g .null
  let t := (s.strayed member (.object g) .null).begun member act.unit (.object g) .null
  have hget : (getAttr (.object g) name).run (callValue fuel) t = .ok v t := by
    unfold getAttr
    rw [run_bind_ok run_get]
    dsimp only
    rw [show (t.toHeap.object g).lookup name = some v from hv]
    rfl
  have hperform : (member.perform fuel [.object g] .getAttr).run (callValue fuel) t =
      .ok (.value v) t := by
    show (getAttr (.object g) name >>= fun x => return Reply.value x).run (callValue fuel) t = _
    rw [run_bind_ok hget]
    rfl
  have hcarry : member.carryOut (callValue fuel) fuel act.ctx [.object g] .getAttr t = .ok v t := by
    rw [CallSite.carryOut, bind_apply, hperform]
    rfl
  have hdispatch : dispatch (callValue fuel) fuel act.ctx act.unit member [.object g] s = .ok v t := by
    show dispatchOn (callValue fuel) fuel act.ctx act.unit member [.object g] (.object g) .null s = _
    rw [(dispatchOn_begins ..).1 _ hfound, hcarry]
  have hargs : (evalArgs (callValue fuel) fuel act [globalsCode]).run s = .ok (.ok [.object g]) s := by
    rw [evalArgs, run_bind_apply, hglobals]
    rfl
  refine ⟨g, v, t, hglobals, hv, ?_⟩
  show ((Code.dynamic member [globalsCode]).eval (callValue fuel) fuel act).run s = _
  rw [Code.eval, run_bind_apply, hargs]
  show (liftM (dispatch (callValue fuel) fuel act.ctx act.unit member [.object g]) : Eval Value).run s = _
  rw [run_lift_apply, hdispatch]

/-! ### Functions -/

/-- The function value of a lambda. -/
def Lambda.value (k : Lambda) (id : Nat) : Value := .function id ⟨k.name, k.params.map (·.name)⟩

/-- Tasks end as they do. -/
abbrev exact : Endings := fun t s r u => r = ending (t.perform s) ∧ u = lastStore (t.perform s)

variable (fuel) in
/-- What sets a function begins its parts alone, and the function is set. -/
theorem Store.Settled.meets_set (h : s.Settled B) (hr : Rooted s.frames act.unit act.frame)
    (hsite : GlobalSite s.units act.unit { id := site, kind := .setMember, name, pos })
    (k : Lambda) :
    ∃ j g, findFrame s.frames contextVariable.owner s.frames.size act.frame = some j ∧ s.Home j g ∧
      (Script.eval fuel act (setGlobalCode pos name k.code site)).run.Meets .retaining
        (fun t _ => ∃ d ∈ (setGlobalCode pos name k.code site).parts, t = .code fuel act d) exact
        (fun r u => r = .ok (.ok (k.value s.closures.size)) ∧
          u.objects = s.objects.modify g (setAssoc name (k.value s.closures.size)) ∧
          u.closures = s.closures.push ⟨act.unit, k.id, some act.frame⟩) s := by
  obtain ⟨j, g, hfind, hhome, hglobals, -⟩ := h.eval_globals hr (callValue fuel) fuel
  refine ⟨j, g, hfind, hhome, ?_⟩
  let member : CallSite := { id := site, kind := .setMember, name, pos }
  let x : Value := .object g
  let y : Value := k.value s.closures.size
  let t := s.closed act k.id
  have part {P : Task → Store → Prop} {c : Code} {a : Except Jump Value} {s t : Store}
      (hP : P (.code fuel act c) s) (hc : (Task.code fuel act c).perform s = .ok a t) :
      (Script.part fuel act c).run.Meets .retaining P exact (fun r u => r = .ok a ∧ u = t) s := by
    refine ⟨hP, fun r u hr => ?_⟩
    obtain ⟨rfl, rfl⟩ := hr
    rw [hc]
    exact ⟨rfl, rfl⟩
  have hlambda : (Task.code fuel act k.code).perform s = .ok (.ok y) t := by
    show ((Code.lambda k.id k.name k.params k.slots k.body).eval (callValue fuel) fuel act).run s = _
    rw [Code.eval]
    rfl
  have hfound : t.found member act.unit x .null = some .setField :=
    Store.Tuned.found (s := t) h.tuned hsite g .null
  let u := (t.strayed member x .null).begun member act.unit x .null
  have hperform : member.perform fuel [x, y] .setField =
      Job.setField g name y >>= fun _ => return Reply.value y := rfl
  have function : (Script.evalArgs fuel act [k.code]).run.Meets .retaining
      (fun t _ => ∃ d ∈ [globalsCode, k.code], t = .code fuel act d) exact
      (fun r u => r = .ok (.ok [y]) ∧ u = t) s := by
    refine (part ⟨k.code, by simp, rfl⟩ hlambda).exits_bind (by simp) (by simp) ?_
    rintro _ _ ⟨⟨⟩, rfl⟩
    exact ⟨rfl, rfl⟩
  have operands : (Script.evalArgs fuel act [globalsCode, k.code]).run.Meets .retaining
      (fun t _ => ∃ d ∈ [globalsCode, k.code], t = .code fuel act d) exact
      (fun r u => r = .ok (.ok [x, y]) ∧ u = t) s := by
    refine (part ⟨globalsCode, by simp, rfl⟩ hglobals).exits_bind (by simp) (by simp) ?_
    rintro _ _ ⟨⟨⟩, rfl⟩
    refine function.exits_bind (by simp) (by simp) ?_
    rintro _ _ ⟨⟨⟩, rfl⟩
    exact ⟨rfl, rfl⟩
  refine operands.exits_bind (by simp) (by simp) ?_
  rintro _ _ ⟨⟨⟩, rfl⟩
  refine Script.Meets.inspect (Q := fun r u' => r = .ok y ∧
    u' = { u with objects := s.objects.modify g (setAssoc name y) }) ?_ ?_
  · show (Script.dispatch fuel act.ctx act.unit member [x, y]).Meets _ _ _ _ t
    refine Script.Meets.act_bind (rfl : (liftM (operand [x, y] 0) : Action Value) t = .ok x t) (.refl t) ?_
    show (Script.dispatchOn fuel act.ctx act.unit member [x, y] x .null).Meets _ _ _ _ t
    rw [Script.dispatchOn, Script.Meets, Script.Meets]
    refine ⟨⟨Manners.retaining.refl _, fun _ _ h => h⟩, ?_⟩
    rw [hfound]
    show (Script.carryOut fuel act.ctx member [x, y] .setField).Meets _ _ _ _ u
    rw [Script.carryOut, hperform]
    exact ⟨⟨.setField u.toHeap g name y, fun _ _ h => h⟩, rfl, rfl⟩
  · rintro _ _ ⟨rfl, rfl⟩
    exact ⟨rfl, rfl, rfl⟩

/-- Code that sets a function as a global variable, and the parts of such code. -/
inductive Code.Sets : Code → Prop where
  | noted {pos : Position} {c : Code} (h : c.Sets) : Sets (.debug pos c)
  | set {pos : Position} {name : Bytes} {site : Nat} (k : Lambda) :
    Sets (setGlobalCode pos name k.code site)
  | globals : Sets globalsCode
  | var (v : Variable) : Sets (.var v)
  | lambda (k : Lambda) : Sets k.code

omit [Application] in
/-- The parts of such code are such code. -/
theorem Code.Sets.parts {c d : Code} (h : c.Sets) (hd : d ∈ c.parts) : d.Sets := by
  cases h with
  | noted h =>
    obtain rfl := List.mem_singleton.1 hd
    exact h
  | set k =>
    rcases List.mem_cons.1 hd with rfl | hd
    · exact .globals
    · obtain rfl := List.mem_singleton.1 hd
      exact .lambda k
  | globals =>
    obtain rfl := List.mem_singleton.1 hd
    exact .var _
  | var | lambda => cases hd

omit [Application] in
/-- The site of code that sets a global variable. -/
theorem globalSite_set {unit : Nat} {x : Code}
    (h : ∀ d ∈ (setGlobalCode pos name x site).nodes, NodeOf units unit d) :
    GlobalSite units unit { id := site, kind := .setMember, name, pos } :=
  ⟨.inr rfl, _, h _ (Code.mem_nodes (by simp [setGlobalCode]))⟩

omit [Application] in
/-- The site of code that reads a global variable. -/
theorem globalSite_get {unit : Nat} (h : ∀ d ∈ (globalCode pos name site).nodes, NodeOf units unit d) :
    GlobalSite units unit { id := site, kind := .getMember, name, pos } :=
  ⟨.inl rfl, _, h _ (Code.mem_nodes (by simp [globalCode]))⟩

omit [Application] in
/-- The lambda is a node of the code that sets it. -/
theorem setGlobalCode_nodes (debug : Bool) (p : Position) (k : Lambda) :
    k.code ∈ (noteAt debug p (setGlobalCode pos name k.code site)).nodes := by
  have inner : k.code ∈ (setGlobalCode pos name k.code site).nodes :=
    List.mem_cons_of_mem _ (mem_nodesOf.2 ⟨k.code, by simp, Code.mem_nodes (by simp [Lambda.code])⟩)
  unfold noteAt
  split
  · exact inner
  · exact List.mem_cons_of_mem _ inner

/-- Code that sets functions begins its parts alone. -/
theorem Way.Placed.begins_parts {c : Code} {t : Task} {u : Store}
    (h : Placed units B (.code fuel act c) s) (hc : c.Sets)
    (hb : (Task.code fuel act c).script.Begins s t u) : ∃ d ∈ c.parts, t = .code fuel act d := by
  let Ok (t : Task) := ∃ d ∈ c.parts, t = .code fuel act d
  have part {d : Code} (hd : d ∈ c.parts) : any.Keeps Ok (Script.part fuel act d).run :=
    keeps_part ⟨d, hd, rfl⟩
  have kept (hk : any.Keeps Ok (Script.eval fuel act c).run) : Ok t := by
    refine ((Script.Meets.sound (hk s trivial) fun t u _ _ => ?_).2 t u hb).2
    exact ⟨⟨trivial, fun _ _ => trivial⟩, rfl, rfl, False.elim⟩
  cases hc with
  | @noted pos c hc =>
    refine kept ((keeps_lift (mild_moveTo act pos)).exits_bind fun _ => ?_)
    refine (part List.mem_cons_self).inspect fun r _ => ?_
    have report (e : Failure) : any.Keeps Ok (Script.act (act.report pos e) : Script (Except Jump Value)) :=
      keeps_act ((mild_moveTo act pos).bind fun _ => (mild_callStack _).bind fun _ => mild_throw trivial)
    cases r with
    | ok r => exact keeps_pure r
    | error e =>
      cases e with
      | missing msg => exact report _
      | plain msg b => exact report _
      | _ => exact keeps_throw trivial
  | set k =>
    cases h with
    | code hs hr hnodes =>
      obtain ⟨rfl, hs⟩ := hs
      obtain ⟨j, g, -, -, hset⟩ := hs.meets_set fuel hr (globalSite_set hnodes) k
      exact (hset.sound fun _ _ _ _ => ⟨rfl, rfl⟩).2 t u hb
  | globals =>
    refine kept ((part List.mem_cons_self).exits_bind fun target => ?_)
    cases target with
    | context id => exact keeps_lift (mild_callContext _ _ _)
    | _ => exact keeps_lift (mild_callContext _ _ _)
  | var v => exact kept (keeps_lift (mild_read v))
  | lambda k =>
    refine kept fun s _ => ?_
    refine Script.Meets.inspect (Script.Meets.of_act (m := newClosure act k.id _) (Q := any.After s)
      ⟨trivial, fun _ _ h => h⟩ ⟨trivial, fun _ _ => trivial⟩) fun r u hr => ?_
    cases r with
    | ok v => exact hr.ok _
    | error e => exact hr.error

/-- Code that sets functions begins such code only. -/
theorem Way.Placed.sets (hM : MannersOfAll .retaining) {c : Code} {t : Task} {u : Store}
    (h : Placed units B (.code fuel act c) s) (hc : c.Sets)
    (hb : (Task.code fuel act c).script.Begins s t u) :
    ∃ d, d.Sets ∧ t = .code fuel act d ∧ Placed units B t u := by
  obtain ⟨d, hd, rfl⟩ := h.begins_parts hc hb
  exact ⟨d, hc.parts hd, rfl, (h.next hM hb).1⟩

/-! ### One function after the other -/

/-- A store after a function was made and set as a global variable of its name. -/
structure Store.Gains (s : Store) (g : Nat) (act : Activation) (k : Lambda) (u : Store) : Prop where
  settles : s.Settles u
  objects : u.objects = s.objects.modify g (setAssoc k.name (k.value s.closures.size))
  closures : u.closures = s.closures.push ⟨act.unit, k.id, some act.frame⟩

omit [Application] in
/-- In the frame of a module, this is what variables of the module are found in. -/
theorem Store.Home.find {i g : Nat} (h : s.Home i g) :
    findFrame s.frames contextVariable.owner s.frames.size i = some i := by
  obtain ⟨f, ctx, hf, hl, -, -⟩ := h
  obtain ⟨n, hn⟩ : ∃ n, s.frames.size = n + 1 :=
    ⟨s.frames.size - 1, by have := (Array.getElem?_eq_some_iff.1 hf).1; omega⟩
  rw [hn, findFrame, frames_getD hf, if_pos hl]

variable (hM : MannersOfAll .retaining)

include hM

/-- The code that defines a function sets it. -/
theorem Way.Placed.gains {k : Lambda} {g : Nat} {debug : Bool} {p : Position}
    (h : Placed units B (.code fuel act (noteAt debug p (setGlobalCode pos k.name k.code site))) s)
    (hg : s.Home act.frame g) : ∃ v u,
      (Task.code fuel act (noteAt debug p (setGlobalCode pos k.name k.code site))).perform s =
        .ok (.ok v) u ∧ s.Gains g act k u := by
  have plain {s : Store} (h : Placed units B (.code fuel act (setGlobalCode pos k.name k.code site)) s)
      (hg : s.Home act.frame g) : ∃ v u,
        (Task.code fuel act (setGlobalCode pos k.name k.code site)).perform s = .ok (.ok v) u ∧
          s.Gains g act k u := by
    have settles := (carries_settling.sound turns_settling hM h).1.rel
    cases h with
    | code hs hr hnodes =>
      obtain ⟨rfl, hs⟩ := hs
      obtain ⟨j, g', hfind, hg', hset⟩ := hs.meets_set fuel hr (globalSite_set hnodes) k
      obtain rfl : act.frame = j := Option.some.inj (hg.find.symm.trans hfind)
      obtain rfl := hg.unique hg'
      have hend := (hset.sound fun _ _ _ _ => ⟨rfl, rfl⟩).1
      have hrun := (Task.code fuel act (setGlobalCode pos k.name k.code site)).run_script
      rw [Task.script] at hrun
      rw [hrun] at hend
      cases hr : (Task.code fuel act (setGlobalCode pos k.name k.code site)).perform s with
      | ok r u =>
        rw [hr] at hend settles
        obtain ⟨hv, hobjects, hclosures⟩ := hend
        cases hv
        exact ⟨_, u, rfl, settles, hobjects, hclosures⟩
      | error e u =>
        rw [hr] at hend
        cases hend.1
  unfold noteAt at h ⊢
  split at h
  · rename_i hno
    rw [if_pos hno]
    exact plain h hg
  · rename_i hno
    rw [if_neg hno]
    -- The place is noted before the function is set, and nothing fails.
    have hinside : Inside .retaining s (act.moved p s) := (mild_moveTo act p).inside s
    have moved := Store.Settles.of_inside hinside
    cases h with
    | code hs hr hnodes =>
      have inner : Placed units B (.code fuel act (setGlobalCode pos k.name k.code site)) (act.moved p s) :=
        .code ((settling units B).keep hs moved) (moved.rooted hr) fun d hd =>
          hnodes d (List.mem_cons_of_mem _ hd)
      obtain ⟨v, u, hset, hgains⟩ := plain inner (hg.persist moved.frames moved.onward)
      refine ⟨v, u, ?_, moved.trans hgains.settles, hgains.objects, hgains.closures⟩
      show ((Code.debug p (setGlobalCode pos k.name k.code site)).eval (callValue fuel) fuel act).run s = _
      have hset : ((setGlobalCode pos k.name k.code site).eval (callValue fuel) fuel act).run
          (act.moved p s) = .ok (.ok v) u := hset
      rw [Code.eval, run_bind_apply, run_lift_apply, Activation.moveTo_apply]
      dsimp only
      rw [run_locate_apply, hset]

omit [Application] hM in
/-- A global variable holds the function value of a lambda, made in the frame of the module. -/
def Store.Defines (s : Store) (g : Nat) (act : Activation) (k : Lambda) : Prop :=
  ∃ id, (s.object g).lookup k.name = some (k.value id) ∧
    s.closures[id]? = some ⟨act.unit, k.id, some act.frame⟩

namespace Store.Gains

variable {u : Store} {g : Nat} {k l : Lambda}

omit hM in
theorem lookup (h : s.Gains g act k u) (hg : g < s.objects.size) (name : Bytes) :
    (u.object g).lookup name =
      if name = k.name then some (k.value s.closures.size) else (s.object g).lookup name := by
  have hobject : u.object g = setAssoc k.name (k.value s.closures.size) (s.object g) := by
    rw [Heap.object, h.objects]
    exact Caches.getD_modify_self hg _ []
  rw [hobject, lookup_setAssoc]

omit hM in
theorem defines (h : s.Gains g act k u) (hg : g < s.objects.size) : u.Defines g act k := by
  refine ⟨s.closures.size, ?_, ?_⟩
  · rw [h.lookup hg, if_pos rfl]
  · rw [h.closures, Array.getElem?_push_size]

omit hM in
/-- Variables of other names keep their functions. -/
theorem keeps (h : s.Gains g act k u) (hg : g < s.objects.size) (hl : s.Defines g act l)
    (hne : l.name ≠ k.name) : u.Defines g act l := by
  obtain ⟨id, hfield, hid⟩ := hl
  refine ⟨id, ?_, ?_⟩
  · rw [h.lookup hg, if_neg hne, hfield]
  · rw [h.closures, Array.getElem?_push, if_neg (Nat.ne_of_lt (Array.getElem?_eq_some_iff.1 hid).1)]
    exact hid

end Store.Gains

/-- What the code of functions of a module leads to, before the code after it is evaluated. -/
theorem Way.meets_functions {P : Task → Store → Prop}
    {Q : Except Failure (Except Jump Value) → Store → Prop} {labels : Target → Option Nat}
    {rest : List Code} {env : LowerEnv} {debug : Bool} {g : Nat} {fs : List FunctionDecl}
    {n : Numbering} (hdistinct : (fs.map (·.name)).Nodup) (hs : (settling units B).Pre s)
    (hr : Rooted s.frames act.unit act.frame) (hg : s.Home act.frame g) (hsize : g < s.objects.size)
    (hnodes : ∀ c ∈ (functionItems env fs n).map (·.noted debug), ∀ d ∈ c.nodes,
      NodeOf units act.unit d)
    (hP : ∀ c u, c.Sets → Placed units B (.code fuel act c) u → P (.code fuel act c) u)
    (hrest : ∀ i last u, s.Settles u →
      (∀ k, s.Defines g act k → (∀ f ∈ fs, f.name ≠ k.name) → u.Defines g act k) →
      (∀ f ∈ fs, ∃ n, NodeOf units act.unit (f.lambda env n).code ∧ u.Defines g act (f.lambda env n)) →
      (Script.evalFrom fuel act labels rest i 0 last).run.Meets .retaining P exact Q u)
    (i : Nat) (last : Value) :
    (Script.evalFrom fuel act labels ((functionItems env fs n).map (·.noted debug) ++ rest) i 0
      last).run.Meets .retaining P exact Q s := by
  induction fs generalizing s n i last with
  | nil => exact hrest i last s (.refl s) (fun _ h _ => h) (by simp)
  | cons f fs ih =>
    obtain ⟨hfresh, hdistinct⟩ := List.nodup_cons.1 hdistinct
    obtain ⟨hfirst, hnodes⟩ := List.forall_mem_cons.1 hnodes
    let k := f.lambda env n
    let site := (f.body.after (n.nextTarget.enter f.params.length)).sites
    let c := noteAt debug f.pos (setGlobalCode f.namePos k.name k.code site)
    have placed : Placed units B (.code fuel act c) s := .code hs hr hfirst
    obtain ⟨v, u, hset, hgains⟩ := placed.gains hM hg
    have sets : c.Sets := by
      show Code.Sets (noteAt debug f.pos (setGlobalCode f.namePos k.name k.code site))
      unfold noteAt
      split
      · exact .set k
      · exact .noted (.set k)
    have hsettles := hgains.settles
    refine ⟨hP c s sets placed, ?_⟩
    rintro r t ⟨hending, hlast⟩
    have hending : r = ending ((Task.code fuel act c).perform s) := hending
    have hlast : t = lastStore ((Task.code fuel act c).perform s) := hlast
    rw [hset] at hending hlast
    subst hending hlast
    refine ih hdistinct ((settling units B).keep hs hsettles) (hsettles.rooted hr)
      (hg.persist hsettles.frames hsettles.onward)
      (Nat.lt_of_lt_of_le hsize hsettles.onward.heap.size) hnodes (fun i last t ht hkeeps hdefined => ?_)
      (i + 1) v
    refine hrest i last t (hsettles.trans ht) (fun l hl hne => ?_) (List.forall_mem_cons.2 ⟨⟨n, ?_, ?_⟩, hdefined⟩)
    · obtain ⟨hne, hothers⟩ := List.forall_mem_cons.1 hne
      exact hkeeps l (hgains.keeps hsize hl fun h => hne h.symm) hothers
    · exact hfirst k.code (setGlobalCode_nodes debug f.pos k)
    · refine hkeeps k (hgains.defines hsize) fun f' hf' heq => hfresh ?_
      exact List.mem_map.2 ⟨f', hf', heq⟩

end

end Stencil
