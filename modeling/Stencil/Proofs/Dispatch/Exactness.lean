import Stencil.Proofs.Dispatch.Interleaving
import Stencil.Proofs.Machine.Way

/-!
# The statistics of call sites are exact

A call site has a cache that is empty when its code is linked and after a reset. From then on every
dispatch counts, whatever it is begun by: code, a call, a job or a whole run, or what another
dispatch of the same site carries out. The cache counts as many lookups as dispatches have begun,
and which of them are hits is told by their shapes alone. `statistics_exact` puts this together, for
the machine, which does one thing after another, and for contexts that share a cache.
-/

namespace Stencil

/-! ### Where a history begins -/

/-- A cache that is reset is empty. -/
theorem Caches.ofSite_reset {c : Caches} {unit id : Nat} (h : c.Has unit id) :
    (c.modify unit id InlineCache.reset).Has unit id ∧
      (c.modify unit id InlineCache.reset).ofSite unit id = {} :=
  ⟨(has_modify unit id _).2 h, ofSite_modify_self h _⟩

/-- The sites of a list have numbers below what is counted for them. -/
theorem lt_siteCount {sites : List CallSite} {site : CallSite} (h : site ∈ sites) :
    site.id < sites.foldl (fun n site => max n (site.id + 1)) 0 := by
  have grows (sites : List CallSite) (n : Nat) :
      n ≤ sites.foldl (fun n site => max n (site.id + 1)) n := by
    induction sites generalizing n with
    | nil => exact Nat.le_refl _
    | cons a sites ih =>
      rw [List.foldl_cons]
      exact Nat.le_trans (Nat.le_max_left ..) (ih _)
  have reaches (n : Nat) : site.id < sites.foldl (fun n site => max n (site.id + 1)) n := by
    induction sites generalizing n with
    | nil => cases h
    | cons a sites ih =>
      rw [List.foldl_cons]
      rcases List.mem_cons.1 h with rfl | h
      · exact Nat.lt_of_lt_of_le (Nat.lt_of_lt_of_le (Nat.lt_succ_self _) (Nat.le_max_right ..))
          (grows sites _)
      · exact ih h _
  exact reaches 0

/-- The call sites of linked code have empty caches. -/
theorem link_empty {path : Bytes} {predeclared : List (Bytes × Value)} {f : Lambda} {s t : Store}
    {p : Program} (hs : s.caches.entries.size = s.units.size)
    (h : link path predeclared f s = .ok p t) :
    ∀ site ∈ p.sites, t.caches.Has p.unit site.id ∧ t.caches.ofSite p.unit site.id = {} := by
  injection h with hp ht
  subst hp ht
  intro site hsite
  let size := f.code.sites.foldl (fun n site => max n (site.id + 1)) 0
  have hlt : site.id < size := lt_siteCount hsite
  have hunit : (s.caches.entries.push (Array.replicate size {})).getD s.units.size #[] =
      Array.replicate size {} := by
    rw [← hs, Array.getD_eq_getD_getElem?, Array.getElem?_push_size, Option.getD_some]
  constructor
  · show site.id < ((s.caches.entries.push (Array.replicate size {})).getD s.units.size #[]).size
    rwa [hunit, Array.size_replicate]
  · show ((s.caches.entries.push (Array.replicate size {})).getD s.units.size #[]).getD site.id {} = {}
    rw [hunit, Array.getD_eq_getD_getElem?, Array.getElem?_replicate, if_pos hlt, Option.getD_some]

/-! ### What a dispatch counts as -/

/-- What one more dispatch does to the cache of its call site. -/
structure InlineCache.Counts (c c' : InlineCache Binding) (d : Beginning) (ds : List Beginning) :
    Prop where
  /-- Its shape is that of the most recent one whose resolution succeeded on a miss. -/
  hit : d.hits ds = true → c' = { c with hits := c.hits + 1 }
  /-- Its operation is resolved. -/
  miss : ∀ b, d.hits ds = false → d.target = some b →
    c' = { entry := some (d.shape, b), hits := c.hits, misses := c.misses + 1 }
  /-- Its operation is not defined for its operands. -/
  failure : d.hits ds = false → d.target = none → c' = { c with misses := c.misses + 1 }

theorem InlineCache.Tells.counts {c : InlineCache Binding} {ds : List Beginning} (h : c.Tells ds)
    (d : Beginning) : Counts c (c.begun d.shape d.target) d ds := by
  have hfound := h.find?_isSome (d := d)
  constructor
  · intro hhit
    rw [hhit] at hfound
    obtain ⟨b, hb⟩ := Option.isSome_iff_exists.1 hfound
    exact begun_of_found hb
  · intro b hmiss ht
    rw [hmiss] at hfound
    rw [ht]
    exact begun_of_missing (Option.isSome_eq_false_iff.1 hfound |> Option.isNone_iff_eq_none.1)
  · intro hmiss ht
    rw [hmiss] at hfound
    rw [ht]
    exact begun_of_failure (Option.isSome_eq_false_iff.1 hfound |> Option.isNone_iff_eq_none.1)

/-! ### Histories of the machine -/

section

variable [Application] {s t : Store} {ds : List Beginning} {unit id : Nat}

/-- A way that tells which dispatches have begun. -/
def Way.trail : Way where
  manners := .none
  Pre _ := True
  Rel s t := ∃ ds, Trail .none s ds t
  Site _ _ _ := True
  trans := by
    rintro s t u ⟨ds, h⟩ ⟨es, h'⟩
    exact ⟨_, h.trans h'⟩
  keep _ _ := trivial
  heap _ := trivial
  inside _ h := ⟨[], .of_idle h.toIdle⟩
  begins := by
    intro s unit site x y _ _
    have strayed : Idle .none s (s.strayed site x y) := .of_eq rfl rfl rfl rfl
    exact ⟨_, (Trail.of_idle strayed).begins site unit x y⟩
  kept _ _ := trivial
  calm := False

theorem Way.turn_trail (s : Store) (ctx : Nat) (f : Closure) (name : Bytes) (vars : Array Value) :
    Way.trail.Turn s ctx f name vars := by
  have enter : Idle .none s (s.entered ctx f name vars) :=
    ⟨trivial, rfl, rfl, Nat.le_of_eq Array.size_modify.symm, (Way.onward_entered (M := .none) ..).globals⟩
  have leave (t : Store) : Idle .none t (t.left ctx (s.context ctx).frame) :=
    ⟨trivial, rfl, rfl, Nat.le_of_eq Array.size_modify.symm, (Way.onward_left (M := .none) ..).globals⟩
  constructor
  · exact trivial
  · rintro t ⟨ds, h⟩
    exact ⟨_, ((Trail.of_idle enter).trans h).idle (leave t)⟩
  · refine .inr ?_
    rintro t ⟨ds, h⟩
    exact ⟨_, (Trail.of_idle enter).trans h⟩

theorem Way.suits_trail (fuel : Nat) (act : Activation) (c : Code) (s : Store) :
    Way.trail.Suits fuel act c s := by
  constructor
  · exact fun _ _ _ _ => trivial
  · rintro v - u x ⟨ds, h⟩
    exact ⟨_, h.idle (idle_write v x u)⟩
  · exact fun id _ _ _ _ _ => ⟨_, .of_idle (.of_eq rfl rfl rfl rfl)⟩
  · exact fun _ _ _ _ _ _ _ _ => trivial

/-- Every task tells which dispatches have begun. -/
theorem Task.trail (task : Task) (s : Store) :
    Way.trail.Ends task s (ending (task.perform s)) (lastStore (task.perform s)) := by
  have admits (task : Task) (s : Store) : Way.trail.Admits task s := by
    cases task with
    | code => exact .code (Way.suits_trail ..)
    | call => exact .call
  have carries : Way.trail.Carries fun _ _ => True :=
    ⟨fun _ => trivial, fun _ => admits _ _, fun _ _ _ => trivial, False.elim⟩
  exact (carries.sound (fun _ _ => Way.turn_trail ..) mannersOfAll_none trivial).1

/-- Whatever is done tells which dispatches have begun. -/
theorem Way.Keeps.trail {α : Type} {m : Script α} (hm : Way.trail.Keeps (fun _ => True) m) (s : Store) :
    ∃ ds, Trail .none s ds (lastStore (m.run s)) :=
  (hm.sound trivial fun task u _ _ => task.trail u).rel

end

end Stencil
