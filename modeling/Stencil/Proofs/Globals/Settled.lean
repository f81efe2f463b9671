import Stencil.Proofs.Dispatch.Transparency
import Stencil.Proofs.Machine.Way
import Stencil.Proofs.Safety.Runs

/-!
# Settled stores

Code finds the global object of its module by way of frames: those around it lead to a frame of the
module, which holds the context that the module runs in, and the context has a global object. A
store is settled if all this is in place, if the fields that the modules count on are there, and if
the caches of the call sites that read and set global variables hold what is resolved for objects.

Whatever the machine does in a settled store leaves it settled, and so does what jobs do that take no
field away from an object. This is told by a way, `Way.settling`, on which every task is carried
that stands in frames of its own unit.
-/

namespace Stencil

/-! ### Frames of modules -/

/-- From a frame outwards there are frames of one unit, the last of which is that of a module. -/
inductive Rooted (frames : Array Frame) (unit : Nat) : Nat → Prop where
  | home {i : Nat} {f : Frame} (hf : frames[i]? = some f) (hu : f.unit = unit)
    (hl : f.lambda = contextVariable.owner) : Rooted frames unit i
  | inner {i o : Nat} {f : Frame} (hf : frames[i]? = some f) (hu : f.unit = unit)
    (hl : f.lambda ≠ contextVariable.owner) (ho : f.outer = some o) (hlt : o < i)
    (h : Rooted frames unit o) : Rooted frames unit i

namespace Rooted

variable {frames frames' : Array Frame} {unit i : Nat}

theorem persist (h : Rooted frames unit i) (hp : FramesPersist frames frames') :
    Rooted frames' unit i := by
  induction h with
  | home hf hu hl =>
    obtain ⟨g, hg, hfg⟩ := hp _ _ hf
    exact .home hg (hfg.unit.trans hu) (hfg.lambda.trans hl)
  | inner hf hu hl ho hlt _ ih =>
    obtain ⟨g, hg, hfg⟩ := hp _ _ hf
    exact .inner hg (hfg.unit.trans hu) (fun h => hl (hfg.lambda.symm.trans h)) (hfg.outer.trans ho)
      hlt ih

theorem lt (h : Rooted frames unit i) : i < frames.size := by
  cases h with
  | home hf | inner hf => exact (Array.getElem?_eq_some_iff.1 hf).1

/-- The frame of the module is found. -/
theorem find (h : Rooted frames unit i) {n : Nat} (hn : i < n) :
    ∃ j f, findFrame frames contextVariable.owner n i = some j ∧ frames[j]? = some f ∧
      f.unit = unit ∧ f.lambda = contextVariable.owner := by
  induction h generalizing n with
  | @home i f hf hu hl =>
    obtain ⟨n, rfl⟩ : ∃ m, n = m + 1 := ⟨n - 1, by omega⟩
    refine ⟨i, f, ?_, hf, hu, hl⟩
    rw [findFrame, frames_getD hf, if_pos hl]
  | @inner i o f hf hu hl ho hlt _ ih =>
    obtain ⟨n, rfl⟩ : ∃ m, n = m + 1 := ⟨n - 1, by omega⟩
    obtain ⟨j, g, hfind, hg⟩ := ih (n := n) (by omega)
    refine ⟨j, g, ?_, hg⟩
    rw [findFrame, frames_getD hf, if_neg hl, ho]
    exact hfind

end Rooted

/-! ### The code of units -/

theorem Code.mem_nodes {c : Code} (h : c ≠ .absent) : c ∈ c.nodes := by
  cases c with
  | absent => exact absurd rfl h
  | _ => simp [nodes]

/-- A node of the code of a unit. -/
def NodeOf (units : Array (List Lambda)) (unit : Nat) (d : Code) : Prop :=
  ∃ g ∈ units.getD unit [], d ∈ g.body.nodes

/-- A call site that gets or sets a member of the global object. -/
def GlobalSite (units : Array (List Lambda)) (unit : Nat) (site : CallSite) : Prop :=
  (site.kind = .getMember ∨ site.kind = .setMember) ∧
    ∃ rest, NodeOf units unit (.dynamic site (globalsCode :: rest))

section

variable {units : Array (List Lambda)} {unit : Nat} {d e : Code} {site site' : CallSite}

/-- Nodes with call sites of the same number are one. -/
theorem Compiled.node_unique (h : Compiled units) (hd : NodeOf units unit d) (he : NodeOf units unit e)
    (hs : d.site? = some site) (hs' : e.site? = some site') (hid : site.id = site'.id) : d = e := by
  obtain ⟨g, hg, hd⟩ := hd
  obtain ⟨g', hg', he⟩ := he
  obtain ⟨-, -, m, opts, stamp, -, -, hl⟩ := h.lower hg
  rw [hl] at hg hg'
  have hnodup := (m.counted (m.compileEnv opts stamp)).sites.nodup
  rw [← map_id_sites, Code.sites, List.map_filterMap] at hnodup
  have hpair := List.pairwise_filterMap.1 hnodup
  by_contra hne
  have symm : Std.Symm fun a b : Code => ∀ i, a.site?.map (·.id) = some i →
      ∀ j, b.site?.map (·.id) = some j → i ≠ j := ⟨fun a b h i hi j hj hij => h j hj i hi hij.symm⟩
  have hdiff := hpair.forall (Code.nodes_of_mem_lambdas hg hd) (Code.nodes_of_mem_lambdas hg' he) hne
  exact hdiff site.id (by simp [hs]) site'.id (by simp [hs']) hid

theorem Compiled.written_ne (h : Compiled units) (hd : NodeOf units unit d) :
    ∀ v ∈ d.written, v.key ≠ contextVariable.key := by
  obtain ⟨g, hg, hd⟩ := hd
  obtain ⟨user, huser, hplaced⟩ := h.placed hg (d := d) (List.mem_cons_of_mem _ hd)
  have user {v : Variable} (hv : user v.key) : v.key ≠ contextVariable.key := huser _ hv
  rcases hplaced with hbracket | ⟨Γ, r, htyped⟩
  · cases hbracket with
    | capture hu => exact List.forall_mem_singleton.2 (user hu)
    | _ => exact List.forall_mem_nil _
  · induction htyped with
    | assign _ hu => exact List.forall_mem_singleton.2 (user hu)
    | block hv => exact fun v hm => user (hv v hm).2
    | template _ _ hu => exact List.forall_mem_singleton.2 (user hu)
    | start hs => exact List.forall_mem_singleton.2 hs.ne_context
    | each hv hs =>
      exact List.forall_mem_append.2 ⟨fun v hm => user (hv v hm).2,
        List.forall_mem_singleton.2 hs.ne_context⟩
    | present _ ih | asValue _ ih => exact ih hd
    | _ => exact List.forall_mem_nil _

theorem Compiled.lambda_ne (h : Compiled units) {id size : Nat} {name : Bytes}
    {params : List Variable} {body : Code} (hd : NodeOf units unit (.lambda id name params size body)) :
    id ≠ contextVariable.owner := by
  obtain ⟨g, hg, hd⟩ := hd
  exact ((h.linked hg).1 _ hd _ rfl).1

end

/-! ### Settled stores -/

section

variable [Host]

omit [Host] in
/-- Without a cache nothing is found. -/
theorem Caches.ofSite_of_not_has {c : Caches} {unit id : Nat} (h : ¬ c.Has unit id) :
    c.ofSite unit id = {} := by
  rw [ofSite, Array.getD_eq_getD_getElem?, Array.getElem?_eq_none (Nat.le_of_not_lt h),
    Option.getD_none]

omit [Host] in
theorem Caches.size_begun (c : Caches) (d : Beginning) : (c.begun d).entries.size = c.entries.size := by
  unfold begun
  split
  · simp [modify, lookup]
  · simp [lookup]

/-- The cache of a call site stays as dispatches leave it when one more begins. -/
theorem Caches.touched_begun {c : Caches} {site : CallSite} {unit : Nat} {heap : Heap} {x y : Value}
    (h : Stencil.Touched site (c.ofSite unit site.id)) (hs : site.isStray x y = false) :
    Stencil.Touched site ((c.begun (site.beginning unit heap x y)).ofSite unit site.id) := by
  by_cases hhas : c.Has unit site.id
  · have hbegun := Caches.ofSite_begun (d := site.beginning unit heap x y) hhas
    simp only [CallSite.beginning] at hbegun ⊢
    rw [hbegun]
    unfold InlineCache.begun
    split
    · rename_i hres
      cases hr : site.resolve heap x y with
      | ok b =>
        rw [hr] at hres
        cases hres
        exact (h.lookup _).store hs hr
      | error e =>
        rw [hr] at hres
        cases hres
    · exact h.lookup _
  · have hempty : (c.begun (site.beginning unit heap x y)).ofSite unit site.id = {} := by
      refine Caches.ofSite_of_not_has fun hbegun => hhas ?_
      exact Caches.has_begun.1 hbegun
    rw [hempty]
    exact .fresh

/-- The caches of the sites of global variables hold what is resolved for objects. -/
def Store.Tuned (s : Store) : Prop :=
  ∀ unit site, GlobalSite s.units unit site → Touched site (s.caches.ofSite unit site.id)

/-- Function values stand for functions in frames of their modules. -/
def Store.Anchored (s : Store) : Prop :=
  ∀ (id : Nat) (c : Closure), s.closures[id]? = some c →
    c.lambda ≠ contextVariable.owner ∧ ∃ o, c.env = some o ∧ Rooted s.frames c.unit o

/-- A frame is that of a module which runs in a context with a global object. -/
def Store.Home (s : Store) (i g : Nat) : Prop :=
  ∃ f ctx, s.frames[i]? = some f ∧ f.lambda = contextVariable.owner ∧
    f.vars.getD contextVariable.index .null = .context ctx ∧ (s.context ctx).globals = some g

/-- The frames of modules have global objects, and the fields are there that are wanted for each
frame and its unit. -/
structure Store.Settled (B : Nat → Nat → Bytes → Prop) (s : Store) : Prop where
  compiled : Compiled s.units
  homes : ∀ (i : Nat) (f : Frame), s.frames[i]? = some f → f.lambda = contextVariable.owner →
    f.unit < s.units.size ∧ ∃ g, s.Home i g ∧
      ∀ name, B i f.unit name → ((s.object g).lookup name).isSome
  anchored : s.Anchored
  tuned : s.Tuned

/-- What leaves a store settled. -/
structure Store.Settles (s t : Store) : Prop where
  units : t.units = s.units
  frames : FramesPersist s.frames t.frames
  homes : ∀ (i : Nat) (f : Frame), t.frames[i]? = some f → f.lambda = contextVariable.owner →
    i < s.frames.size
  onward : Onward .retaining s t
  anchored : s.Anchored → t.Anchored
  sizes : t.caches.entries.size = s.caches.entries.size
  tuned : Compiled s.units → s.Tuned → t.Tuned

variable {B : Nat → Nat → Bytes → Prop} {s t u : Store} {act : Activation}

omit [Host] in
/-- The global object of a frame is no other as long as frames and contexts keep theirs. -/
theorem Store.Home.persist {M : Manners} {i g : Nat} (h : s.Home i g)
    (hf : FramesPersist s.frames t.frames) (ho : Onward M s t) : t.Home i g := by
  obtain ⟨f, ctx, hi, hl, hctx, hg⟩ := h
  obtain ⟨f', hi', hff'⟩ := hf i f hi
  exact ⟨f', ctx, hi', hff'.lambda.trans hl, (hff'.home hl).trans hctx, ho.globals ctx g hg⟩

omit [Host] in
theorem Store.Home.unique {i g g' : Nat} (h : s.Home i g) (h' : s.Home i g') : g = g' := by
  obtain ⟨f, ctx, hi, -, hctx, hg⟩ := h
  obtain ⟨f', ctx', hi', -, hctx', hg'⟩ := h'
  obtain rfl : f = f' := Option.some.inj (hi.symm.trans hi')
  obtain rfl : ctx = ctx' := by
    rw [hctx] at hctx'
    injection hctx'
  exact Option.some.inj (hg.symm.trans hg')

omit [Host] in
theorem Store.Anchored.persist (h : s.Anchored) (hf : FramesPersist s.frames t.frames)
    (hc : ∀ (id : Nat) (c : Closure), t.closures[id]? = some c → s.closures[id]? = some c ∨
      c.lambda ≠ contextVariable.owner ∧ ∃ o, c.env = some o ∧ Rooted t.frames c.unit o) :
    t.Anchored := by
  intro id c hid
  rcases hc id c hid with hold | hnew
  · obtain ⟨hl, o, ho, hr⟩ := h id c hold
    exact ⟨hl, o, ho, hr.persist hf⟩
  · exact hnew

namespace Store.Settles

/-- Code, frames, functions and caches stay as they are. -/
theorem of_eq (ho : Onward .retaining s t) (hu : t.units = s.units) (hf : t.frames = s.frames)
    (hcl : t.closures = s.closures) (hc : t.caches = s.caches) : s.Settles t where
  units := hu
  frames := hf ▸ .refl _
  homes i f h _ := hf ▸ (Array.getElem?_eq_some_iff.1 h).1
  onward := ho
  anchored h := h.persist (hf ▸ .refl _) fun id c hid => .inl (hcl ▸ hid)
  sizes := by rw [hc]
  tuned _ h := by
    intro unit site hsite
    rw [hc]
    exact h unit site (hu ▸ hsite)

theorem of_inside (h : Inside .retaining s t) : s.Settles t :=
  .of_eq (.of_idle h.toIdle) h.units h.frames h.closures h.caches

theorem refl (s : Store) : s.Settles s := .of_eq (.refl s) rfl rfl rfl rfl

theorem trans (h : s.Settles t) (h' : t.Settles u) : s.Settles u where
  units := h'.units.trans h.units
  frames := h.frames.trans h'.frames
  homes i f hf hl := by
    have hi := h'.homes i f hf hl
    obtain ⟨g, hg⟩ : ∃ g, t.frames[i]? = some g := ⟨_, Array.getElem?_eq_getElem hi⟩
    obtain ⟨f', hf', hfg⟩ := h'.frames i g hg
    obtain rfl : f' = f := Option.some.inj (hf'.symm.trans hf)
    exact h.homes i g hg (hfg.lambda.symm.trans hl)
  onward := h.onward.trans h'.onward
  anchored hs := h'.anchored (h.anchored hs)
  sizes := h'.sizes.trans h.sizes
  tuned hu hs := h'.tuned (h.units ▸ hu) (h.tuned hu hs)

/-- A settled store stays settled. -/
theorem settled (h : s.Settles t) (hs : s.Settled B) : t.Settled B where
  compiled := h.units ▸ hs.compiled
  homes i f hf hl := by
    have hi := h.homes i f hf hl
    obtain ⟨g, hg⟩ : ∃ g, s.frames[i]? = some g := ⟨_, Array.getElem?_eq_getElem hi⟩
    obtain ⟨f', hf', hgf⟩ := h.frames i g hg
    obtain rfl : f' = f := Option.some.inj (hf'.symm.trans hf)
    obtain ⟨hunit, o, ho, hnames⟩ := hs.homes i g hg (hgf.lambda.symm.trans hl)
    refine ⟨by rwa [h.units, hgf.unit], o, ho.persist h.frames h.onward, fun name hn => ?_⟩
    exact h.onward.heap.fields o name (hnames name (hgf.unit ▸ hn))
  anchored := h.anchored hs.anchored
  tuned := h.tuned hs.compiled hs.tuned

/-- Frames that stand where they did. -/
theorem rooted (h : s.Settles t) {unit i : Nat} (hr : Rooted s.frames unit i) :
    Rooted t.frames unit i := hr.persist h.frames

/-- An assignment to a variable that is not the context of a module. -/
theorem of_write {v : Variable} (hv : v.key ≠ contextVariable.key) (x : Value) (s : Store) :
    s.Settles (lastStore (act.write v x s)) := by
  have persist := (@passes_write s.units true act v hv x s rfl).frames
  have honward : Onward .retaining s (lastStore (act.write v x s)) := .of_idle (idle_write v x s)
  rcases home_cases act v s with ⟨id, h, hfind, hi⟩ | ⟨msg, f, h⟩
  · rw [write_apply h] at persist honward ⊢
    refine ⟨rfl, persist, fun i f hf _ => ?_, honward, fun hs => ?_, rfl, fun _ hs => hs⟩
    · have hlt := (Array.getElem?_eq_some_iff.1 hf).1
      rwa [lastStore, Store.assigned, Array.size_modify] at hlt
    · exact hs.persist persist fun id c hid => .inl hid
  · have hw : act.write v x s = .error (.panic msg false) { s with faults := f :: s.faults } := by
      rw [Activation.write, bind_apply, h]
    rw [hw] at honward ⊢
    exact .of_eq honward rfl rfl rfl rfl

/-- A function is made in a frame of its module. -/
theorem of_closed {id : Nat} (hid : id ≠ contextVariable.owner)
    (hr : Rooted s.frames act.unit act.frame) : s.Settles (s.closed act id) where
  units := rfl
  frames := .refl _
  homes i f h _ := (Array.getElem?_eq_some_iff.1 h).1
  onward := .of_idle (.of_eq rfl rfl rfl rfl)
  anchored h := h.persist (.refl _) fun j c hj => by
    change (s.closures.push _)[j]? = some c at hj
    rw [Array.getElem?_push] at hj
    split at hj
    · cases hj
      exact .inr ⟨hid, _, rfl, hr⟩
    · exact .inl hj
  sizes := rfl
  tuned _ h := h

/-- A function is entered whose value there is. -/
theorem of_entered {id : Nat} {f : Closure} (hs : s.Anchored) (hf : s.closures[id]? = some f)
    (ctx : Nat) (name : Bytes) (vars : Array Value) : s.Settles (s.entered ctx f name vars) where
  units := rfl
  frames := .push _ _
  homes i g h hl := by
    rw [Store.entered, Array.getElem?_push] at h
    split at h
    · cases h
      exact absurd hl (hs id f hf).1
    · exact (Array.getElem?_eq_some_iff.1 h).1
  onward := Way.onward_entered ..
  anchored h := h.persist (.push _ _) fun id c hc => .inl hc
  sizes := rfl
  tuned _ h := h

theorem of_left (s : Store) (ctx : Nat) (caller : Option Nat) : s.Settles (s.left ctx caller) :=
  .of_eq (Way.onward_left ..) rfl rfl rfl rfl

/-- A dispatch begins. That of a site of a global variable is applied to an object. -/
theorem of_begun {unit : Nat} {site : CallSite} {d : Code} {x : Value} (y : Value)
    (hd : NodeOf s.units unit d) (hsite : d.site? = some site)
    (hx : GlobalSite s.units unit site → ∃ g, x = .object g) :
    s.Settles ((s.strayed site x y).begun site unit x y) where
  units := rfl
  frames := .refl _
  homes i f h _ := (Array.getElem?_eq_some_iff.1 h).1
  onward := ⟨Manners.retaining.refl _, fun _ _ h => h⟩
  anchored h := h.persist (.refl _) fun id c hc => .inl hc
  sizes := Caches.size_begun ..
  tuned hu h := by
    intro unit' site' hsite'
    show Touched site' ((s.caches.begun (site.beginning unit s.toHeap x y)).ofSite unit' site'.id)
    cases hat : (site.beginning unit s.toHeap x y).isAt unit' site'.id with
    | false =>
      rw [Caches.ofSite_begun_of_ne hat]
      exact h unit' site' hsite'
    | true =>
      obtain ⟨rfl, hid⟩ : unit = unit' ∧ site.id = site'.id := by
        simpa [Beginning.isAt, CallSite.beginning] using hat
      obtain ⟨rest, hnode⟩ := hsite'.2
      obtain rfl := hu.node_unique hd hnode hsite rfl hid
      obtain rfl : site' = site := Option.some.inj hsite
      obtain ⟨g, rfl⟩ := hx hsite'
      refine Caches.touched_begun (h unit site' hsite') ?_
      rcases hsite'.1 with hk | hk <;> simp [CallSite.isStray, Value.isDisguised, hk]

end Store.Settles

/-! ### The global object -/

/-- Code of a module finds the global object, and the fields are there that are wanted for its
frame. -/
theorem Store.Settled.eval_globals (h : s.Settled B) (hr : Rooted s.frames act.unit act.frame)
    (call : Callback) (fuel : Nat) :
    ∃ j g, findFrame s.frames contextVariable.owner s.frames.size act.frame = some j ∧ s.Home j g ∧
      (globalsCode.eval call fuel act).run s = .ok (.ok (.object g)) s ∧
        ∀ name, B j act.unit name → ((s.object g).lookup name).isSome := by
  obtain ⟨j, f, hfind, hf, hunit, hl⟩ := hr.find hr.lt
  obtain ⟨-, g, ⟨f', ctx, hf', -, hctx, hg⟩, hnames⟩ := h.homes j f hf hl
  obtain rfl : f = f' := Option.some.inj (hf.symm.trans hf')
  refine ⟨j, g, hfind, ⟨f, ctx, hf, hl, hctx, hg⟩, ?_, hunit ▸ hnames⟩
  have hslot : contextVariable.index < (s.frames.getD j default).vars.size := by
    rw [frames_getD hf]
    by_contra hno
    rw [Array.getD_eq_getD_getElem?, Array.getElem?_eq_none (Nat.le_of_not_lt hno)] at hctx
    cases hctx
  have hread : act.read contextVariable s = .ok (.context ctx) s := by
    rw [read_apply (home_of_found hfind hslot), frames_getD hf, hctx]
  have hvar : ((Code.var contextVariable).eval call fuel act).run s =
      .ok (.ok (.context ctx)) s := by
    rw [Code.eval, run_lift_apply, hread]
  have hcall : callContext .getGlobals (.context ctx) [] s = .ok (.object g) s := by
    rw [callContext, context_bind_apply, hg]
    rfl
  rw [globalsCode, contextCode, Code.eval, run_bind_apply, hvar]
  dsimp only
  rw [run_bind_apply, evalArgs, run_pure_apply]
  dsimp only
  rw [run_lift_apply, hcall]

end

/-! ### The way -/

section

variable {units : Array (List Lambda)} {B : Nat → Nat → Bytes → Prop}

/-- A way on which stores stay settled. Global variables are got from objects, and set there. -/
def Way.settling [Host] (units : Array (List Lambda)) (B : Nat → Nat → Bytes → Prop) : Way where
  manners := .retaining
  Pre s := s.units = units ∧ s.Settled B
  Rel := Store.Settles
  Site unit site x := (∃ d, NodeOf units unit d ∧ d.site? = some site) ∧
    (GlobalSite units unit site → ∃ g, x = .object g)
  trans := .trans
  keep hs h := ⟨h.units.trans hs.1, h.settled hs.2⟩
  heap h := h.onward.heap
  inside _ h := .of_inside h
  begins := by
    rintro s unit site x y ⟨rfl, -⟩ ⟨⟨d, hd, hsite⟩, hx⟩
    exact .of_begun y hd hsite hx
  kept _ _ := trivial
  calm := False

namespace Way

/-- The tasks that are carried: code in a frame of its unit, and calls. -/
inductive Placed [Host] (units : Array (List Lambda)) (B : Nat → Nat → Bytes → Prop) :
    Task → Store → Prop where
  | code {fuel : Nat} {act : Activation} {c : Code} {s : Store} (hs : (settling units B).Pre s)
    (hr : Rooted s.frames act.unit act.frame) (hc : ∀ d ∈ c.nodes, NodeOf units act.unit d) :
    Placed units B (.code fuel act c) s
  | call {fuel ctx : Nat} {fn : Value} {args : List Value} {s : Store}
    (hs : (settling units B).Pre s) : Placed units B (.call fuel ctx fn args) s

/-- A function is entered in the frame that its value was made in, and left. -/
theorem turns_settling [Application] : (settling units B).Turns := by
  rintro s ctx id f name vars ⟨hunits, hs⟩ hf
  have entered := Store.Settles.of_entered hs.anchored hf ctx name vars
  constructor
  · exact ⟨hunits, entered.settled hs⟩
  · exact fun t h => (entered.trans h).trans (.of_left t ctx _)
  · exact .inr fun t h => entered.trans h

variable [Application] {fuel : Nat} {act : Activation} {c : Code} {s : Store}

/-- Code in a frame of its unit is what the way asks for. -/
theorem suits_settling (hs : (settling units B).Pre s) (hr : Rooted s.frames act.unit act.frame)
    (hc : ∀ d ∈ c.nodes, NodeOf units act.unit d) : (settling units B).Suits fuel act c s := by
  obtain ⟨rfl, hs⟩ := hs
  have node (h : c ≠ .absent) : NodeOf s.units act.unit c := hc c (Code.mem_nodes h)
  constructor
  · intro site hsite x hfirst
    have node := node (by rintro rfl; cases hsite)
    refine ⟨⟨c, node, hsite⟩, ?_⟩
    rintro ⟨-, rest, hglobal⟩
    obtain rfl := hs.compiled.node_unique node hglobal hsite rfl rfl
    obtain ⟨u, u', hu, hx⟩ := hfirst _ _ rfl
    obtain ⟨j, g, -, -, hg, -⟩ := (hu.settled hs).eval_globals (hu.rooted hr) (callValue fuel) fuel
    have same : (Task.code fuel act globalsCode).perform u = .ok (.ok (.object g)) u := hg
    rw [same] at hx
    cases hx
    exact ⟨g, rfl⟩
  · intro v hv u x hu
    have node := node (by rintro rfl; cases hv)
    exact hu.trans (.of_write (hs.compiled.written_ne node v hv) x u)
  · rintro id name params size body rfl
    exact .of_closed (hs.compiled.lambda_ne (node (by simp))) hr
  · exact fun _ _ _ _ _ _ _ _ => trivial

theorem carries_settling : (settling units B).Carries (Placed units B) where
  pre h := by cases h <;> assumption
  admits h := by
    cases h with
    | code hs hr hc => exact .code (suits_settling hs hr hc)
    | call hs => exact .call
  begins h _ hl := by
    cases hl with
    | part hd hu =>
      cases h with
      | code hs hr hc =>
        exact .code ((settling units B).keep hs hu) (hu.rooted hr) fun e he =>
          hc e (Code.nodes_of_mem_parts hd he)
    | call hu =>
      cases h with
      | code hs hr hc => exact .call ((settling units B).keep hs hu)
    | callback hu =>
      cases h with
      | call hs => exact .call ((settling units B).keep hs hu)
    | @enter _ ctx id heading args s f g hf hg =>
      cases h with
      | call hs =>
        obtain ⟨rfl, hs⟩ := hs
        obtain ⟨hl, o, ho, hr⟩ := hs.anchored id f hf
        have entered := Store.Settles.of_entered hs.anchored hf ctx g.name (g.variables args)
        refine .code ⟨rfl, entered.settled hs⟩ ?_ fun d hd => ⟨g, ?_, hd⟩
        · exact .inner Array.getElem?_push_size rfl hl ho hr.lt (entered.rooted hr)
        · exact List.mem_of_find?_eq_some hg
  calm h := h.elim

/-- What a task begins is carried too, and stores stay settled until then. -/
theorem Placed.next (hM : MannersOfAll .retaining) {t t' : Task} {u : Store} (h : Placed units B t s)
    (hb : t.script.Begins s t' u) : Placed units B t' u ∧ s.Settles u := by
  have hl := (carries_settling.sound turns_settling hM h).2 t' u hb
  refine ⟨carries_settling.begins h hb hl, ?_⟩
  cases hl with
  | part _ hu | call hu | callback hu => exact hu
  | enter hf =>
    cases h with
    | call hs => exact .of_entered hs.2.anchored hf _ _ _

end Way

end

end Stencil
