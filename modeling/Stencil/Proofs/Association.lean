import Stencil.Catalog.Source

/-!
# Association lists

A key is looked up at its first entry. `setAssoc` replaces that entry or adds one, and no key is
repeated by it. Where no key is repeated, what a key leads to is told by the entries alone, in
whatever order they are.
-/

namespace Stencil

section

variable {κ α : Type} [BEq κ] [LawfulBEq κ] {k : κ} {x : α} {l l' : List (κ × α)}

theorem lookup_eq_some_iff_mem (hl : (l.map (·.1)).Nodup) :
    l.lookup k = some x ↔ (k, x) ∈ l := by
  induction l with
  | nil => simp
  | cons e l ih =>
    obtain ⟨k', y⟩ := e
    obtain ⟨hk', hl⟩ := List.nodup_cons.1 hl
    rw [List.lookup_cons, List.mem_cons]
    by_cases h : k = k'
    · subst h
      have hnot : (k, x) ∉ l := fun hmem => hk' (List.mem_map.2 ⟨(k, x), hmem, rfl⟩)
      simp [hnot, eq_comm]
    · rw [beq_eq_false_iff_ne.2 h, ih hl]
      simp [h]

/-- Where keys are not repeated, the order of the entries does not matter. -/
theorem lookup_perm (h : l.Perm l') (hl : (l.map (·.1)).Nodup) : l.lookup k = l'.lookup k := by
  have hl' := (h.map _).nodup_iff.1 hl
  refine Option.ext fun x => ?_
  rw [lookup_eq_some_iff_mem hl, lookup_eq_some_iff_mem hl', h.mem_iff]

end

/-! ### Setting an entry -/

section

variable {α : Type} {key k : Bytes} {x : α} {l : List (Bytes × α)}

theorem lookup_setAssoc :
    (setAssoc key x l).lookup k = if k = key then some x else l.lookup k := by
  induction l with
  | nil =>
    by_cases h : k = key
    · rw [setAssoc, h, List.lookup_cons_self, if_pos rfl]
    · rw [setAssoc, List.lookup_cons, beq_eq_false_iff_ne.2 h, if_neg h]
  | cons e l ih =>
    obtain ⟨k', y⟩ := e
    by_cases hk' : k' = key
    · subst hk'
      rw [setAssoc, if_pos rfl, List.lookup_cons, List.lookup_cons]
      by_cases h : k = k'
      · rw [h, beq_self_eq_true, if_pos rfl]
      · rw [beq_eq_false_iff_ne.2 h, if_neg h]
    · rw [setAssoc, if_neg hk', List.lookup_cons, List.lookup_cons]
      by_cases h : k = k'
      · rw [h, beq_self_eq_true, if_neg hk']
      · rw [beq_eq_false_iff_ne.2 h]
        exact ih

theorem map_fst_setAssoc (key : Bytes) (x : α) (l : List (Bytes × α)) :
    (setAssoc key x l).map (·.1) =
      if key ∈ l.map (·.1) then l.map (·.1) else l.map (·.1) ++ [key] := by
  induction l with
  | nil => simp [setAssoc]
  | cons e l ih =>
    obtain ⟨k, y⟩ := e
    by_cases hk : k = key
    · simp [setAssoc, hk]
    · have hk' : ¬key = k := fun h => hk h.symm
      simp only [setAssoc, if_neg hk, List.map_cons, ih, List.mem_cons, hk', false_or]
      split <;> simp_all

theorem nodup_setAssoc (h : (l.map (·.1)).Nodup) : ((setAssoc key x l).map (·.1)).Nodup := by
  rw [map_fst_setAssoc]
  split
  · exact h
  · rename_i hkey
    rw [List.nodup_append]
    exact ⟨h, List.pairwise_singleton _ key, fun k hk k' hk' heq => hkey (by
      rwa [← List.mem_singleton.1 hk', ← heq])⟩

end

end Stencil
