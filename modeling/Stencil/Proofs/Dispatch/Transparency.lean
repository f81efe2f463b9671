import Stencil.Host.Basic
import Stencil.Proofs.Generation
import Stencil.Proofs.Dispatch.History
import Stencil.Proofs.Counting
import Stencil.Proofs.Machine.Runs

/-!
# Dispatch without caches

The main statement: in a store whose units were compiled, a dispatch comes to what a resolution
of its call site for these operands comes to, with whatever entries the caches hold that earlier
dispatches may have left. For a binary operator that is what the operator comes to.
-/

namespace Stencil

/-! ### Units and their caches -/

/-- Call sites of compiled units are told apart by their numbers. -/
theorem Compiled.distinctSites {units : Array (List Lambda)} (h : Compiled units) :
    DistinctSites units := by
  intro unit site hsite site' hsite' hid
  obtain ⟨f, hf, hmem⟩ := List.mem_flatMap.1 hsite
  obtain ⟨f', hf', hmem'⟩ := List.mem_flatMap.1 hsite'
  obtain ⟨-, -, m, opts, stamp, -, -, hl⟩ := h.lower hf
  rw [hl] at hf hf'
  have inside {g : Lambda} {x : CallSite} (hg : g ∈ (m.lower (m.compileEnv opts stamp)).lambdas)
      (hx : x ∈ g.body.sites) : x ∈ (m.lower (m.compileEnv opts stamp)).code.sites := by
    obtain ⟨d, hd, hdx⟩ := List.mem_filterMap.1 hx
    exact List.mem_filterMap.2 ⟨d, Code.nodes_of_mem_lambdas hg hd, hdx⟩
  exact m.eq_of_siteId_eq _ (inside hf hmem) (inside hf' hmem') hid

/-- The caches of one more unit are fresh. -/
theorem Caches.Touched.push [Host] {units : Array (List Lambda)} {c : Caches}
    (h : c.Touched units) (hsize : c.entries.size = units.size) (fs : List Lambda) (n : Nat) :
    Caches.Touched { c with entries := c.entries.push (Array.replicate n {}) } (units.push fs) := by
  intro unit site hsite
  have split : ∀ {α : Type} (xs : Array α) (x d : α),
      (xs.push x).getD unit d = if unit = xs.size then x else xs.getD unit d := by
    intro α xs x d
    rw [Array.getD_eq_getD_getElem?, Array.getD_eq_getD_getElem?, Array.getElem?_push]
    split <;> rfl
  rw [split] at hsite
  simp only [ofSite, split, hsize]
  by_cases hu : unit = units.size
  · rw [if_pos hu]
    have : (Array.replicate n ({} : InlineCache Binding)).getD site.id {} = {} := by
      rw [Array.getD_eq_getD_getElem?, Array.getElem?_replicate]
      split <;> rfl
    rw [this]
    exact .fresh
  · rw [if_neg hu] at hsite ⊢
    exact h unit site hsite

/-! ### Binary operators -/

section

variable [Host] {call : Callback} {fuel ctx : Nat} {site : CallSite} {x y : Value}

/-- The binding that is found for a binary operator does what the operator does. -/
theorem carryOut_resolveBinary :
    site.carryOut call fuel ctx [x, y] (resolveBinary site.op x y) =
      (applyBinary site.op x y).run call := by
  have general : site.carryOut call fuel ctx [x, y] .binary =
      (applyBinary site.op x y).run call := by
    funext s
    have hp : site.perform fuel [x, y] .binary =
        applyBinary site.op x y >>= fun v => return .value v := rfl
    rw [CallSite.carryOut, hp, Job.run_bind, bind_apply, bind_apply]
    cases (applyBinary site.op x y).run call s <;> rfl
  unfold resolveBinary
  split
  · split
    · rename_i hop
      rw [hop]
      rfl
    · rename_i hop
      rw [hop]
      rfl
    · rename_i m n _ hop
      rw [hop]
      show (pure (.bool (m < n)) : Action Value) =
        pure (.bool ((if m < n then .lt else if n < m then .gt else .eq : Ordering) == .lt))
      split
      · simp [*]
      · split <;> simp [*]
    · rename_i hop
      rw [hop]
      rfl
    · exact general
  · split
    · rename_i hop
      rw [hop]
      rfl
    · rename_i a b _ hop
      rw [hop]
      have heq : (a == b) = decide (a = b) := beq_eq_decide a b
      funext s
      show EStateM.Result.ok (Value.bool (a == b)) s = .ok (.bool (decide (a = b))) s
      rw [heq]
    · exact general
  · exact general

/-- What is resolved for the operands of a binary operator does what the operator does. -/
theorem resolveOn_binary (hk : site.kind = .binary) (s : Store) :
    resolveOn call fuel ctx site [x, y] x y s = (applyBinary site.op x y).run call s := by
  have hres : site.resolve s.toHeap x y = .ok (resolveBinary site.op x y) := by
    rw [CallSite.resolve, hk]
  rw [resolveOn_apply, hres]
  exact congrFun carryOut_resolveBinary s

/-- Resolved afresh, a call site of a binary operator applies the operator. -/
theorem dispatchAfresh_binary (hk : site.kind = .binary) :
    dispatchAfresh call fuel ctx site [x, y] = (applyBinary site.op x y).run call := by
  funext s
  have hon : dispatchAfresh call fuel ctx site [x, y] s = resolveOn call fuel ctx site [x, y] x y s := by
    rw [dispatchAfresh]
    simp only [hk, if_true]
    rfl
  rw [hon, resolveOn_binary hk]

end

/-! ### Dispatch and resolution -/

section

variable [Application] {s : Store} {c : Caches} {unit : Nat} {site : CallSite} {fuel ctx : Nat}
  {args : List Value}

/-- Twins of a store, with other caches. -/
theorem twin_withCaches (hs : s.caches.Touched s.units) (hc : c.Touched s.units) :
    Twin (AnyCaches s.units s.tally.strays) s (s.withCaches c) where
  rest := rfl
  left := rfl
  right := rfl
  base := Tally.le_def.2 (by simp [AnyCaches])
  caches := ⟨hs, hc⟩
  places _ := rfl
  kept := rfl

/-- Caches are not noticed. Take a store whose units were compiled, any call site in it, and
caches with whatever entries earlier dispatches may have left. If no operation meets an operand
that no host hands over, then

* the dispatch of the call site ends like a resolution of it that knows none of these entries:
  with the same value or failure, and with the same store but for caches, and it leaves entries
  that a dispatch may leave;
* at a call site of a binary operator, it ends like the operator;
* a binding found for some operands is the one that is resolved for all others of their shape. -/
theorem dispatch_eq_afresh (hu : Compiled s.units) (hs : s.caches.Touched s.units)
    (hc : c.Touched s.units) (hsite : site ∈ sitesIn (s.units.getD unit []))
    (hstrays : (lastStore (dispatch (callValue fuel) fuel ctx unit site args s)).tally.strays =
      s.tally.strays) :
    (forgetCaches (dispatch (callValue fuel) fuel ctx unit site args s) =
        forgetCaches (dispatchAfresh (callValue fuel) fuel ctx site args (s.withCaches c)) ∧
      (lastStore (dispatch (callValue fuel) fuel ctx unit site args s)).caches.Touched s.units) ∧
    (site.kind = .binary → ∀ x y, args = [x, y] →
      forgetCaches (dispatch (callValue fuel) fuel ctx unit site args s) =
        forgetCaches ((applyBinary site.op x y).run (callValue fuel) (s.withCaches c))) ∧
    ∀ (heap heap' : Heap) (x y x' y' : Value) (b : Binding),
      site.isStray x y = false → site.isStray x' y' = false →
      site.shape heap x y = site.shape heap' x' y' →
      site.resolve heap x y = .ok b → site.resolve heap' x' y' = .ok b := by
  have calls := aligned_callValue hu.distinctSites s.tally.strays fuel
  have aligned := @aligned_dispatchAfresh _ _ _ _ _ fuel ⟨ctx, unit, 0⟩ _ args hu.distinctSites
    calls hsite
  have agree := aligned.agree s (s.withCaches c) (twin_withCaches hs hc) (Nat.le_of_eq hstrays)
  have same := agree.forgetCaches
  refine ⟨⟨same, agree.twin.caches.1⟩, fun hk x y hargs => ?_,
    fun heap heap' x y x' y' b hx hx' hshape hb => ?_⟩
  · subst hargs
    rw [same, dispatchAfresh_binary hk]
  · have target := site.toOption_resolve heap hx
    rw [hb, hshape, ← site.toOption_resolve heap' hx'] at target
    cases hb' : site.resolve heap' x' y' with
    | ok b' =>
      rw [hb'] at target
      cases target
      rfl
    | error e =>
      rw [hb'] at target
      cases target

end

/-- A sum of ints, dispatched after a sum of texts at the same call site, whose binding is cached. -/
theorem dispatch_eq_afresh_sum :
    let src := Bytes.ofString "out 1 + 2;"
    let site : CallSite :=
      { id := 0, kind := .binary, op := .binary .add, pos := ⟨some [], 1, 7⟩ }
    let _ : Application := standalone
    ∃ f, compile [] src {} 0 = .ok f ∧ site ∈ sitesIn f.lambdas ∧
      ∀ fuel,
        let s : Store := { units := #[f.lambdas], caches.entries := #[#[{}]], contexts := #[{}] }
        let t := lastStore (dispatch (callValue fuel) fuel 0 0 site [.string [97], .string [98]] s)
        t.caches.lookups = [(0, 0, false)] ∧
          forgetCaches (dispatch (callValue fuel) fuel 0 0 site [.int 1, .int 2] t) =
            forgetCaches ((applyBinary (.binary .add) (.int 1) (.int 2)).run (callValue fuel)
              (t.withCaches {})) := by
  intro src site _
  have h : (match compile [] src {} 0 with
      | .ok f => decide (site ∈ sitesIn f.lambdas)
      | .error _ => false) = true := by
    decide +kernel
  split at h
  · rename_i f hf
    have hsite : site ∈ sitesIn f.lambdas := of_decide_eq_true h
    refine ⟨f, hf, hsite, fun fuel => ?_⟩
    intro s t
    have hu : Compiled #[f.lambdas] := compiled_empty.push hf
    have hs : Caches.Touched { entries := #[#[{}]] } #[f.lambdas] :=
      Caches.Touched.push (Caches.touched_empty #[]) rfl f.lambdas 1
    -- The dispatch of the sum of texts leaves a binding that this site may have.
    have ht : t.caches.Touched #[f.lambdas] :=
      (@dispatch_eq_afresh _ s {} 0 site fuel 0 [.string [97], .string [98]] hu hs
        (Caches.touched_empty _) hsite rfl).1.2
    exact ⟨rfl, (@dispatch_eq_afresh _ t {} 0 site fuel 0 [.int 1, .int 2] hu ht
      (Caches.touched_empty _) hsite rfl).2.1 rfl _ _ rfl⟩
  · cases h

section

variable [Application] {s : Store} {c : Caches} {fuel ctx : Nat} {p : Program}

/-- Nor are caches noticed in a whole run, which leaves only such entries. -/
theorem run_eq_withCaches (hu : Compiled s.units) (hp : s.units[p.unit]? = some p.lambda.lambdas)
    (hs : s.caches.Touched s.units) (hc : c.Touched s.units)
    (hstrays : (lastStore (p.run fuel ctx s)).tally.strays = s.tally.strays) :
    forgetCaches (p.run fuel ctx s) = forgetCaches (p.run fuel ctx (s.withCaches c)) ∧
      (lastStore (p.run fuel ctx s)).caches.Touched s.units := by
  have hmem : p.lambda ∈ s.units.getD p.unit [] := by
    simp [hp, Lambda.lambdas, Lambda.code, Code.lambdas, Code.nodes, Code.lambda?]
  have calls := aligned_callValue hu.distinctSites s.tally.strays fuel
  have routine := @alike_routine _ _ hu.distinctSites s.tally.strays _ _ hmem
  have aligned := @Program.aligned_runAs (AnyCaches s.units s.tally.strays) p _ rfl ctx _ _
    fun args => Routine.Alike.call (f := p.entry) routine calls fuel ctx args
  have agree := aligned.agree s (s.withCaches c) (twin_withCaches hs hc) (Nat.le_of_eq hstrays)
  exact ⟨agree.forgetCaches, agree.twin.caches.1⟩

end

end Stencil
