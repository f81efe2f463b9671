import Stencil.Proofs.Dispatch.Shape
import Stencil.Proofs.Machine.Aligned
import Stencil.Proofs.Machine.Service

/-!
# Caches do not matter

Whatever was looked up, stored or reset in the cache of a call site before, in whatever order and
for whichever operands, an entry holds the target of the call site for its shape. So a dispatch
that finds an entry does what a dispatch does that finds none, and so do the calls made from it.
-/

namespace Stencil

section

variable [Host]

/-! ### The history of a cache -/

/-- A cache as the dispatches of a call site may leave it: after any number of lookups, of entries
that were resolved for some operands, and of resets, in any order. -/
inductive Touched (site : CallSite) : InlineCache Binding → Prop where
  | fresh : Touched site {}
  | lookup {c : InlineCache Binding} (shape : Shape) : Touched site c →
    Touched site (c.lookup shape).2
  | store {c : InlineCache Binding} {heap : Heap} {x y : Value} {b : Binding} : Touched site c →
    site.isStray x y = false → site.resolve heap x y = .ok b →
    Touched site (c.store (site.shape heap x y) b)
  | reset {c : InlineCache Binding} : Touched site c → Touched site c.reset

omit [Host] in
theorem InlineCache.entry_lookup (c : InlineCache Binding) (shape : Shape) :
    (c.lookup shape).2.entry = c.entry := by
  unfold lookup
  split <;> rfl

omit [Host] in
theorem InlineCache.fst_lookup (c : InlineCache Binding) (shape : Shape) :
    (c.lookup shape).1 = c.find? shape := by
  unfold lookup
  split <;> simp [*]

/-- An entry holds the target for its shape. -/
theorem Touched.target {site : CallSite} {c : InlineCache Binding} (h : Touched site c)
    {shape : Shape} {b : Binding} (he : c.entry = some (shape, b)) : site.target shape = some b := by
  induction h with
  | fresh => cases he
  | lookup shape' _ ih =>
    rw [InlineCache.entry_lookup] at he
    exact ih he
  | store _ hstray hres _ =>
    cases he
    rw [← site.toOption_resolve _ hstray, hres]
    rfl
  | reset => cases he

/-- What is found for the shape of operands is what is resolved for them. -/
theorem Touched.resolve {site : CallSite} {c : InlineCache Binding} (h : Touched site c)
    {heap : Heap} {x y : Value} {b : Binding} (hs : site.isStray x y = false)
    (hb : c.find? (site.shape heap x y) = some b) : site.resolve heap x y = .ok b := by
  have htarget : site.target (site.shape heap x y) = some b := by
    unfold InlineCache.find? at hb
    split at hb
    · rename_i shape target he
      split at hb
      · rename_i heq
        obtain rfl := LawfulBEq.eq_of_beq heq
        cases hb
        exact h.target he
      · cases hb
    · cases hb
  rw [← site.toOption_resolve heap hs] at htarget
  cases hr : site.resolve heap x y with
  | ok b' =>
    rw [hr] at htarget
    cases htarget
    rfl
  | error e =>
    rw [hr] at htarget
    cases htarget

/-! ### The caches of a store -/

/-- The call sites in the code of a unit. -/
def sitesIn (fs : List Lambda) : List CallSite := fs.flatMap (·.body.sites)

/-- The cache of a call site of a unit. -/
def Caches.ofSite (c : Caches) (unit id : Nat) : InlineCache Binding :=
  (c.entries.getD unit #[]).getD id {}

/-- All caches are as dispatches leave them. -/
def Caches.Touched (c : Caches) (units : Array (List Lambda)) : Prop :=
  ∀ unit, ∀ site ∈ sitesIn (units.getD unit []), Stencil.Touched site (c.ofSite unit site.id)

/-- In each unit, call sites are told apart by their numbers. -/
def DistinctSites (units : Array (List Lambda)) : Prop :=
  ∀ unit, ∀ site ∈ sitesIn (units.getD unit []), ∀ site' ∈ sitesIn (units.getD unit []),
    site.id = site'.id → site = site'

theorem Caches.touched_empty (units : Array (List Lambda)) : Caches.Touched {} units := by
  intro unit site _
  have : Caches.ofSite {} unit site.id = {} := by simp [ofSite]
  rw [this]
  exact .fresh

variable {units : Array (List Lambda)} {c : Caches}

omit [Host] in
theorem Caches.ofSite_lookup (c : Caches) (unit id u i : Nat) (shape : Shape) :
    (c.lookup unit id shape).2.ofSite u i = c.ofSite u i ∨
      u = unit ∧ i = id ∧
        (c.lookup unit id shape).2.ofSite u i = ((c.ofSite unit id).lookup shape).2 := by
  simp only [ofSite, lookup]
  rcases getD_modify c.entries unit u (·.setIfInBounds id
    (((c.entries.getD unit #[]).getD id {}).lookup shape).2) #[] with h | ⟨rfl, h⟩
  · rw [h]
    exact .inl rfl
  · rw [h]
    rcases getD_setIfInBounds (c.entries.getD u #[]) id i
      (((c.entries.getD u #[]).getD id {}).lookup shape).2 {} with h | ⟨rfl, h⟩
    · exact .inl h
    · exact .inr ⟨rfl, rfl, h⟩

omit [Host] in
theorem Caches.ofSite_modify (c : Caches) (unit id u i : Nat)
    (f : InlineCache Binding → InlineCache Binding) :
    (c.modify unit id f).ofSite u i = c.ofSite u i ∨
      u = unit ∧ i = id ∧ (c.modify unit id f).ofSite u i = f (c.ofSite unit id) := by
  simp only [ofSite, modify]
  rcases getD_modify c.entries unit u (·.modify id f) #[] with h | ⟨rfl, h⟩
  · rw [h]
    exact .inl rfl
  · rw [h]
    rcases getD_modify (c.entries.getD u #[]) id i f {} with h | ⟨rfl, h⟩
    · exact .inl h
    · exact .inr ⟨rfl, rfl, h⟩

theorem Caches.Touched.lookup (h : c.Touched units) (hd : DistinctSites units) {unit : Nat}
    {site : CallSite} (hsite : site ∈ sitesIn (units.getD unit [])) (shape : Shape) :
    (c.lookup unit site.id shape).2.Touched units := by
  intro u site' hsite'
  rcases c.ofSite_lookup unit site.id u site'.id shape with heq | ⟨rfl, hid, heq⟩
  · rw [heq]
    exact h u site' hsite'
  · obtain rfl := hd u site' hsite' site hsite hid
    rw [heq]
    exact (h u site' hsite').lookup shape

theorem Caches.Touched.store (h : c.Touched units) (hd : DistinctSites units) {unit : Nat}
    {site : CallSite} (hsite : site ∈ sitesIn (units.getD unit [])) {heap : Heap} {x y : Value}
    {b : Binding} (hs : site.isStray x y = false) (hb : site.resolve heap x y = .ok b) :
    (c.modify unit site.id (·.store (site.shape heap x y) b)).Touched units := by
  intro u site' hsite'
  rcases c.ofSite_modify unit site.id u site'.id (·.store (site.shape heap x y) b) with
    heq | ⟨rfl, hid, heq⟩
  · rw [heq]
    exact h u site' hsite'
  · obtain rfl := hd u site' hsite' site hsite hid
    rw [heq]
    exact (h u site' hsite').store hs hb

/-! ### Dispatch -/

section

variable {call : Callback} {fuel ctx unit : Nat} {site : CallSite} {args : List Value}
  {x y : Value} {s : Store}

/-- Perform the operation of a call site without its cache, for the operands that decide what it
is. -/
def resolveOn (call : Callback) (fuel ctx : Nat) (site : CallSite) (args : List Value)
    (x y : Value) : Action Value :=
  site.bind x y >>= site.carryOut call fuel ctx args

/-- Perform the operation of a call site without its cache. -/
def dispatchAfresh (call : Callback) (fuel ctx : Nat) (site : CallSite) (args : List Value) :
    Action Value := do
  let x ← operand args 0
  let y ← if site.kind = .binary then operand args 1 else pure .null
  resolveOn call fuel ctx site args x y

theorem CallSite.bind_apply (s : Store) : site.bind x y s =
    match site.resolve s.toHeap x y with
    | .ok b => .ok b s
    | .error e => .error (.plain e.message false) s := by
  show (match site.resolve s.toHeap x y with
    | .ok b => pure b
    | .error e => Action.fail e.message : Action Binding) s = _
  cases site.resolve s.toHeap x y <;> rfl

theorem resolveOn_apply (s : Store) : resolveOn call fuel ctx site args x y s =
    match site.resolve s.toHeap x y with
    | .ok b => site.carryOut call fuel ctx args b s
    | .error e => .error (.plain e.message false) s := by
  rw [resolveOn, bind_apply, CallSite.bind_apply]
  cases site.resolve s.toHeap x y <;> rfl

/-- A store with other caches. -/
def Store.withCaches (s : Store) (c : Caches) : Store := { s with caches := c }

omit [Host] in
@[simp]
theorem Store.toHeap_withCaches (s : Store) (c : Caches) : (s.withCaches c).toHeap = s.toHeap := rfl

theorem dispatchOn_apply (hs : site.isStray x y = false) (s : Store) :
    dispatchOn call fuel ctx unit site args x y s =
      let looked := s.caches.lookup unit site.id (site.shape s.toHeap x y)
      match looked.1 with
      | some b => site.carryOut call fuel ctx args b (s.withCaches looked.2)
      | none => resolveOn call fuel ctx site args x y (s.withCaches
        (match site.resolve s.toHeap x y with
        | .ok b => looked.2.modify unit site.id (·.store (site.shape s.toHeap x y) b)
        | .error _ => looked.2)) := by
  have hcount : Action.count (fun t => { t with strays := t.strays + (site.isStray x y).toNat }) s =
      .ok () s := by
    rw [hs]
    rfl
  have hlookup : lookupCache unit site.id (site.shape s.toHeap x y) s =
      .ok (s.caches.lookup unit site.id (site.shape s.toHeap x y)).1
        (s.withCaches (s.caches.lookup unit site.id (site.shape s.toHeap x y)).2) := rfl
  rw [dispatchOn, bind_apply, hcount]
  dsimp only
  rw [bind_apply]
  show (lookupCache unit site.id (site.shape s.toHeap x y) >>= _) s = _
  rw [bind_apply, hlookup]
  generalize s.caches.lookup unit site.id (site.shape s.toHeap x y) = looked
  obtain ⟨found, c⟩ := looked
  cases found with
  | some b => rfl
  | none =>
    dsimp only
    rw [bind_apply, CallSite.bind_apply, resolveOn_apply]
    simp only [Store.toHeap_withCaches]
    cases site.resolve s.toHeap x y <;> rfl

/-- A dispatch is a resolution from a store that may have other caches. -/
theorem dispatchOn_touched (call : Callback) (fuel ctx : Nat) (args : List Value)
    (hd : DistinctSites s.units) (hc : s.caches.Touched s.units)
    (hsite : site ∈ sitesIn (s.units.getD unit [])) (hs : site.isStray x y = false) :
    ∃ c, c.Touched s.units ∧ dispatchOn call fuel ctx unit site args x y s =
      resolveOn call fuel ctx site args x y (s.withCaches c) := by
  have hlooked := hc.lookup hd hsite (site.shape s.toHeap x y)
  have hfound : (s.caches.lookup unit site.id (site.shape s.toHeap x y)).1 =
      (s.caches.ofSite unit site.id).find? (site.shape s.toHeap x y) :=
    InlineCache.fst_lookup ..
  rw [dispatchOn_apply hs]
  dsimp only
  rw [hfound]
  cases hf : (s.caches.ofSite unit site.id).find? (site.shape s.toHeap x y) with
  | some b =>
    refine ⟨_, hlooked, ?_⟩
    have hres := (hc unit site hsite).resolve hs hf
    dsimp only
    rw [resolveOn_apply, Store.toHeap_withCaches, hres]
  | none =>
    refine ⟨_, ?_, rfl⟩
    cases hres : site.resolve s.toHeap x y with
    | ok b => exact hlooked.store hd hsite hs hres
    | error e => exact hlooked

end

/-! ### Stores that differ in their caches -/

/-- Caches as dispatches leave them on both sides, as long as no more strays are met. -/
def AnyCaches (units : Array (List Lambda)) (strays : Nat) : Likeness where
  placed := true
  units
  units' := units
  Rel c d := c.Touched units ∧ d.Touched units
  base := { strays }
  Allowed t := t.strays ≤ strays
  allowed_of_le h h' := Nat.le_trans (Tally.le_def.1 h).2.2.2.2 h'
  unseen _ := .inl rfl

section

variable {strays : Nat} {call call' : Callback} {fuel : Nat} {act : Activation} {site : CallSite}
  {args : List Value} {x y : Value}

/-- What is left of a dispatch when strays have been counted. -/
theorem steady_dispatchOn
    (h : ∀ b, Steady units (site.carryOut call fuel act.ctx args b)) :
    Steady units (do
      let shape := site.shape (← get).toHeap x y
      match ← lookupCache act.unit site.id shape with
      | some b => site.carryOut call fuel act.ctx args b
      | none =>
        let b ← site.bind x y
        modifyCache act.unit site.id (·.store shape b)
        site.carryOut call fuel act.ctx args b) := by
  refine Steady.bind (fun _ hs => ⟨hs, le_rfl⟩) fun s => ?_
  refine (steady_lookupCache units _ _ _).bind fun found => ?_
  cases found with
  | some b => exact h b
  | none =>
    have bound : Steady units (site.bind x y) := (aligned_bindSite (C := AnyCaches units 0) (p := true) site x y).left
    exact bound.bind fun b => (steady_modifyCache units _ _ _).bind fun _ => h b

/-- A dispatch and a resolution both amount to a resolution from twins. -/
theorem Twin.dispatchOn {s t : Store} (hst : Twin (AnyCaches units strays) s t)
    (hd : DistinctSites units) (hsite : site ∈ sitesIn (units.getD act.unit []))
    (hcarry : ∀ b, Steady units (site.carryOut call fuel act.ctx args b))
    (hend : (lastStore (dispatchOn call fuel act.ctx act.unit site args x y s)).tally.strays ≤ strays) :
    ∃ c, c.Touched units ∧ site.isStray x y = false ∧
      dispatchOn call fuel act.ctx act.unit site args x y s =
        resolveOn call fuel act.ctx site args x y (s.withCaches c) := by
  have hunits : s.units = units := hst.left
  cases hs : site.isStray x y with
  | true =>
    -- The stray has been counted.
    have hle := (steady_dispatchOn (x := x) (y := y) hcarry
      { s with tally.strays := s.tally.strays + (site.isStray x y).toNat } hunits).2
    have hle : s.tally.strays + (site.isStray x y).toNat ≤
        (lastStore (Stencil.dispatchOn call fuel act.ctx act.unit site args x y s)).tally.strays :=
      (Tally.le_def.1 hle).2.2.2.2
    have hbase : strays ≤ s.tally.strays := (Tally.le_def.1 hst.base).2.2.2.2
    rw [hs, Bool.toNat_true] at hle
    omega
  | false =>
    subst hunits
    obtain ⟨c, hc, heq⟩ := dispatchOn_touched call fuel act.ctx args hd hst.caches.1 hsite hs
    exact ⟨c, hc, rfl, heq⟩

variable (hd : DistinctSites units) (h : AlignedCalls (AnyCaches units strays) call call')
  (hsite : site ∈ sitesIn (units.getD act.unit []))

include h in
theorem aligned_resolveOn :
    Aligned (AnyCaches units strays) true (resolveOn call fuel act.ctx site args x y)
      (resolveOn call' fuel act.ctx site args x y) :=
  (aligned_bindSite site x y).bind fun b => aligned_carryOut h fuel act.ctx site args b

include hd h hsite

theorem aligned_dispatchOn :
    Aligned (AnyCaches units strays) true (dispatchOn call fuel act.ctx act.unit site args x y)
      (dispatchOn call' fuel act.ctx act.unit site args x y) := by
  have carry (b : Binding) := aligned_carryOut h fuel act.ctx site args b
  have hcount (t : Tally) : t ≤ { t with strays := t.strays + (site.isStray x y).toNat } :=
    Tally.le_def.2 (by simp)
  refine ⟨(steady_count hcount).bind fun _ => steady_dispatchOn fun b => (carry b).left,
    (steady_count hcount).bind fun _ => steady_dispatchOn fun b => (carry b).right,
    fun s t hst hend => ?_⟩
  obtain ⟨c, hc, hs, heq⟩ := hst.dispatchOn hd hsite (fun b => (carry b).left) hend
  obtain ⟨c', hc', heq'⟩ : ∃ c', c'.Touched units ∧
      dispatchOn call' fuel act.ctx act.unit site args x y t =
        resolveOn call' fuel act.ctx site args x y (t.withCaches c') := by
    have hunits : t.units = units := hst.right
    subst hunits
    exact dispatchOn_touched call' fuel act.ctx args hd hst.caches.2 hsite hs
  rw [heq] at hend ⊢
  rw [heq']
  exact (aligned_resolveOn h).agree _ _ (hst.setCaches ⟨hc, hc'⟩) hend

theorem aligned_dispatchOn_resolveOn :
    Aligned (AnyCaches units strays) true (dispatchOn call fuel act.ctx act.unit site args x y)
      (resolveOn call' fuel act.ctx site args x y) := by
  have carry (b : Binding) := aligned_carryOut h fuel act.ctx site args b
  refine ⟨(aligned_dispatchOn hd h hsite).left, (aligned_resolveOn h).right, fun s t hst hend => ?_⟩
  obtain ⟨c, hc, hs, heq⟩ := hst.dispatchOn hd hsite (fun b => (carry b).left) hend
  rw [heq] at hend ⊢
  exact (aligned_resolveOn h).agree _ _ (hst.setCaches ⟨hc, hst.caches.2⟩) hend

theorem AlignedCalls.dispatch_any : AlignedSite (AnyCaches units strays) call call' fuel act site := by
  intro args
  refine (aligned_job _).bind fun x => Aligned.ite ?_ (aligned_dispatchOn hd h hsite)
  exact (aligned_job _).bind fun y => aligned_dispatchOn hd h hsite

theorem aligned_dispatchAfresh :
    Aligned (AnyCaches units strays) true (dispatch call fuel act.ctx act.unit site args)
      (dispatchAfresh call' fuel act.ctx site args) := by
  refine (aligned_job _).bind fun x => Aligned.ite ?_ (aligned_dispatchOn_resolveOn hd h hsite)
  exact (aligned_job _).bind fun y => aligned_dispatchOn_resolveOn hd h hsite

end

end

/-! ### Calls -/

/-- A lambda of a unit does the same whatever the caches hold. -/
theorem alike_routine [Host] {units : Array (List Lambda)} (hd : DistinctSites units) {strays unit : Nat}
    {f : Lambda} (hf : f ∈ units.getD unit []) :
    f.routine.Alike (AnyCaches units strays) unit f.routine := by
  refine ⟨rfl, rfl, rfl, fun call call' fuel hcall act hact => ?_⟩
  have node (d : Code) (hdn : d ∈ f.body.nodes) :
      AlignedNode (AnyCaches units strays) true call call' fuel act d := by
    refine ⟨fun site hsite => hcall.dispatch_any hd ?_, fun hp => by cases hp⟩
    rw [hact]
    exact List.mem_flatMap.2 ⟨f, hf, List.mem_filterMap.2 ⟨d, hdn, hsite⟩⟩
  have := aligned_eval hcall f.body node
  rwa [Code.withNotes_true] at this

/-- Calls do not depend on caches. -/
theorem aligned_callValue [Application] {units : Array (List Lambda)} (hd : DistinctSites units)
    (strays fuel : Nat) :
    AlignedCalls (AnyCaches units strays) (callValue fuel) (callValue fuel) := by
  refine aligned_callWith (fun s t hs ht unit id => ?_) fuel
  have hs : s.units = units := hs
  have ht : t.units = units := ht
  simp only [Store.routine?, Store.lambda?, hs, ht]
  cases hf : (units.getD unit []).find? (·.id = id) with
  | none => exact .none
  | some f => exact .some (alike_routine hd (List.mem_of_find?_eq_some hf))

/-- How a computation ends, but for the caches. -/
def forgetCaches {α : Type} : EStateM.Result Failure Store α → EStateM.Result Failure Store α
  | .ok a s => .ok a (s.withCaches {})
  | .error e s => .error e (s.withCaches {})

theorem Agree.forgetCaches [Host] {α : Type} {units : Array (List Lambda)} {strays : Nat}
    {r r' : EStateM.Result Failure Store α} (h : Agree (AnyCaches units strays) true r r') :
    forgetCaches r = forgetCaches r' := by
  have same {s t : Store} (h : Twin (AnyCaches units strays) s t) :
      s.withCaches {} = t.withCaches {} := by
    have hr : (t.withCaches {}).toRecords = (s.withCaches {}).toRecords :=
      Records.ext (h.right.trans h.left.symm) rfl (h.places rfl).symm (h.kept_eq rfl).symm
    have ht : t.withCaches {} = s.withRecords (t.withCaches {}).toRecords := by
      rw [h.rest]
      rfl
    rw [ht, hr]
    rfl
  cases h with
  | ok h => simp only [Stencil.forgetCaches, same h]
  | @error e e' _ _ he h =>
    obtain rfl : e = e' := he
    simp only [Stencil.forgetCaches, same h]

end Stencil
