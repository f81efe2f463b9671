import Stencil.Proofs.Catalog.Paths

/-!
# Loaded trees

`loadListed_faithful`: where types with one full name are one type, each path of the loaded trees
leads to a namespace or a type of this very name. The types are those that were listed, and of
these a type is missing only if a type stands in its way or a namespace in its place. Namespaces
only stand on the way to listed types.

What comes first keeps its place, so in general the order of the names matters:
`loadListed_order_matters`. It does not where each list that has a type within another listed type
has that other one before it, and where the lists agree on the last type of each name
(`loadListed_perm`). For then the trees are determined by which types are listed: those that lie
within no other are in their places, and namespaces stand on the way to them (`View.Settled`).
-/

namespace Stencil

/-! ### Listings -/

namespace Listing

variable (types : Listing)

/-- The type is listed for the namespace name. -/
def Lists (name : Bytes) (t : TypeRef) : Prop := ∃ ts, types name = .ok ts ∧ t ∈ ts

/-- No two listed types have the same full name. -/
def Distinct : Prop :=
  ∀ a b t u, types.Lists a t → types.Lists b u → t.fullName = u.fullName → t = u

/-- The types listed for some names, in order. -/
def all (names : List Bytes) : List TypeRef :=
  names.flatMap fun name =>
    match types name with
    | .ok ts => ts
    | .error _ => []

/-- The names for which nothing is listed, in order, each with the reason. -/
def refused (names : List Bytes) : List (Bytes × LoadFailure) :=
  names.filterMap fun name =>
    match types name with
    | .ok _ => none
    | .error e => some (name, e)

variable {types}

theorem mem_all {names : List Bytes} {t : TypeRef} :
    t ∈ types.all names ↔ ∃ name ∈ names, types.Lists name t := by
  rw [all, List.mem_flatMap]
  refine exists_congr fun name => and_congr_right fun _ => ?_
  cases h : types name <;> simp [Lists, h]

theorem distinct_registry (names : List Bytes) : (listingOf (some (.registry names))).Distinct := by
  have registered {ns : Bytes} {t : TypeRef}
      (h : (listingOf (some (.registry names))).Lists ns t) : t = .registered t.fullName := by
    obtain ⟨ts, hts, ht⟩ := h
    simp only [listingOf, TypeSource.types, listTypes] at hts
    split at hts
    · cases hts
    · cases hts
      obtain ⟨n, -, rfl⟩ := List.mem_map.1 ht
      rfl
  intro a b t u ht hu h
  rw [registered ht, registered hu, h]

end Listing

/-! ### What the trees are made of -/

section

variable {types : Listing} {stamp : Nat} {names : List Bytes}

theorem foldl_add (l : Loaded) :
    names.foldl (Loaded.add types stamp) l =
      ⟨(types.all names).foldl (insertType stamp) l.roots, l.failures ++ types.refused names⟩ := by
  induction names generalizing l with
  | nil => simp [Listing.all, Listing.refused]
  | cons name names ih =>
    rw [List.foldl_cons, ih, Loaded.add, Listing.all, Listing.all, Listing.refused,
      Listing.refused, List.flatMap_cons, List.filterMap_cons]
    cases types name with
    | ok ts => simp only [List.foldl_append]
    | error e => simp only [List.nil_append, List.append_assoc, List.singleton_append]

theorem failures_loadListed : (loadListed types stamp names).failures = types.refused names := by
  rw [loadListed, foldl_add]
  exact List.nil_append _

theorem nodup_foldl_insertType (ts : List TypeRef) :
    ((ts.foldl (insertType stamp) []).map (·.1)).Nodup := by
  induction ts using List.reverseRecOn with
  | nil => exact List.nodup_nil
  | append_singleton ts t ih =>
    rw [List.foldl_append]
    exact nodup_insertType ih

/-- The trees lead to what the listed types, added one after the other, lead to. -/
theorem viewOf_loadListed : viewOf (loadListed types stamp names).roots =
    viewOf ((types.all names).foldl (insertType stamp) []) := by
  rw [loadListed, foldl_add]
  exact (viewOf_perm (List.mergeSort_perm ..).symm (nodup_foldl_insertType _)).symm

end

/-! ### Adding types one after the other -/

/-- What the view `v` has to do with the types `ts` that were added. -/
structure View.Holds (ts : List TypeRef) (v : View) : Prop where
  named : v.Named (Bytes.join ".")
  added : ∀ p t, v p = some (.type t) → t ∈ ts ∧ segments t.fullName = p
  onward : ∀ p n, v p = some (.nspace n) → ∃ t ∈ ts, Through p (segments t.fullName)
  present : ∀ t ∈ ts, 2 ≤ (segments t.fullName).length →
    v (segments t.fullName) = some (.type t) ∨
      (∃ n, v (segments t.fullName) = some (.nspace n)) ∨ v.Blocks (segments t.fullName)

namespace View.Holds

variable {ts : List TypeRef} {t : TypeRef} {v v' : View}

theorem start : View.Holds [] (viewOf []) := by
  have hnone (p : List Bytes) : viewOf [] p = none := by cases p <;> rfl
  refine ⟨fun p n h => ?_, fun p t h => ?_, fun p n h => ?_, nofun⟩ <;>
    cases (hnone p).symm.trans h

/-- A type whose name has a single segment is not added. -/
theorem skip (h : v.Holds ts) (ht : (segments t.fullName).length < 2) : v.Holds (ts ++ [t]) where
  named := h.named
  added p u hu := ⟨List.mem_append_left _ (h.added p u hu).1, (h.added p u hu).2⟩
  onward p n hn := by
    obtain ⟨u, hu, hp⟩ := h.onward p n hn
    exact ⟨u, List.mem_append_left _ hu, hp⟩
  present u hu hlen := by
    rcases List.mem_append.1 hu with hu | hu
    · exact h.present u hu hlen
    · rw [List.mem_singleton.1 hu] at hlen
      exact absurd hlen (Nat.not_le.2 ht)

/-- One more type is added. A type of the same name is the same type. -/
theorem add (h : v.Holds ts) (hg : Grown (Bytes.join ".") t (segments t.fullName) v v')
    (hd : ∀ u ∈ ts, u.fullName = t.fullName → u = t) : v'.Holds (ts ++ [t]) where
  named := hg.named h.named
  added p u hu := by
    rcases hg.cases hu with hold | ⟨-, ⟨-, -, hnew⟩ | ⟨hp, hnew⟩⟩
    · exact ⟨List.mem_append_left _ (h.added p u hold).1, (h.added p u hold).2⟩
    · cases hnew
    · cases hnew
      exact ⟨List.mem_append_right _ (List.mem_singleton_self t), hp.symm⟩
  onward p n hn := by
    rcases hg.cases hn with hold | ⟨-, ⟨-, hp, -⟩ | ⟨-, hnew⟩⟩
    · obtain ⟨u, hu, hp⟩ := h.onward p n hold
      exact ⟨u, List.mem_append_left _ hu, hp⟩
    · exact ⟨t, List.mem_append_right _ (List.mem_singleton_self t), hp⟩
    · cases hnew
  present u hu hlen := by
    rcases List.mem_append.1 hu with hu | hu
    · rcases h.present u hu hlen with hold | ⟨n, hn⟩ | hb
      · rcases hg.type_stays hold with hstays | ⟨hp, hnew⟩
        · exact .inl hstays
        · have hname : u.fullName = t.fullName := by
            rw [← join_segments u.fullName, hp, join_segments]
          exact .inl (hd u hu hname ▸ hnew)
      · exact .inr (.inl ⟨n, hg.nspace_stays h.named hn⟩)
      · exact .inr (.inr (hg.blocks_stays hb))
    · rw [List.mem_singleton.1 hu]
      by_cases hb : v.Blocks (segments t.fullName)
      · exact .inr (.inr (hg.blocks_stays hb))
      · rcases hg.target hb with ⟨n, -, hn⟩ | ⟨-, ht⟩
        · exact .inr (.inl ⟨n, hn⟩)
        · exact .inl ht

/-- After all types are added. -/
theorem foldl {stamp : Nat} (hd : ∀ t ∈ ts, ∀ u ∈ ts, t.fullName = u.fullName → t = u) :
    (viewOf (ts.foldl (insertType stamp) [])).Holds ts := by
  induction ts using List.reverseRecOn with
  | nil => exact start
  | append_singleton ts t ih =>
    have hts : ∀ u ∈ ts, u ∈ ts ++ [t] := fun u => List.mem_append_left _
    have ht : t ∈ ts ++ [t] := List.mem_append_right _ (List.mem_singleton_self t)
    have h := ih fun u hu w hw => hd u (hts u hu) w (hts w hw)
    rw [List.foldl_append, List.foldl_cons, List.foldl_nil]
    by_cases hlen : 2 ≤ (segments t.fullName).length
    · exact h.add (grown_insertType h.named hlen) fun u hu => hd u (hts u hu) t ht
    · rw [insertType_of_short (Nat.not_le.1 hlen)]
      exact h.skip (Nat.not_le.1 hlen)

end View.Holds

/-! ### Loading -/

/-- What was loaded for some names shows what is listed for them. -/
structure Loaded.Faithful (types : Listing) (names : List Bytes) (l : Loaded) : Prop where
  /-- A path that leads to a namespace is its name, and some listed type lies within it. -/
  namespaces : ∀ p n, viewOf l.roots p = some (.nspace n) → n = Bytes.join "." p ∧
    ∃ name ∈ names, ∃ t, types.Lists name t ∧ Through p (segments t.fullName)
  /-- A path that leads to a type is its full name. -/
  typeNames : ∀ p t, viewOf l.roots p = some (.type t) → t.fullName = Bytes.join "." p
  /-- A listed type is reached by its own path, unless a type stands on the way or a namespace at
  the end. -/
  reached : ∀ name ∈ names, ∀ t, types.Lists name t → 2 ≤ (segments t.fullName).length →
    (viewOf l.roots (segments t.fullName) = some (.type t) ↔
      ¬ (viewOf l.roots).Blocks (segments t.fullName) ∧
        ∀ n, viewOf l.roots (segments t.fullName) ≠ some (.nspace n))
  /-- No other type is reached. -/
  others : ∀ p t, viewOf l.roots p = some (.type t) → ∃ name ∈ names, types.Lists name t
  /-- The names that are not listed are told, in order. -/
  failures : l.failures = types.refused names

theorem loadListed_faithful (types : Listing) (stamp : Nat) (names : List Bytes)
    (hd : types.Distinct) : (loadListed types stamp names).Faithful types names := by
  have h : (viewOf (loadListed types stamp names).roots).Holds (types.all names) := by
    rw [viewOf_loadListed]
    refine .foldl fun t ht u hu => ?_
    obtain ⟨a, -, ht⟩ := Listing.mem_all.1 ht
    obtain ⟨b, -, hu⟩ := Listing.mem_all.1 hu
    exact hd a b t u ht hu
  refine ⟨fun p n hn => ⟨h.named p n hn, ?_⟩, fun p t hp => ?_, fun name hname t ht hlen => ?_,
    fun p t hp => ?_, failures_loadListed⟩
  · obtain ⟨t, ht, hp⟩ := h.onward p n hn
    obtain ⟨name, hname, ht⟩ := Listing.mem_all.1 ht
    exact ⟨name, hname, t, ht, hp⟩
  · rw [← (h.added p t hp).2, join_segments]
  · constructor
    · exact fun hfound => ⟨not_blocks_of_found hfound, fun n hn => by cases hfound.symm.trans hn⟩
    · rintro ⟨hb, hn⟩
      rcases h.present t (Listing.mem_all.2 ⟨name, hname, ht⟩) hlen with hfound | ⟨n, hn'⟩ | hb'
      · exact hfound
      · exact absurd hn' (hn n)
      · exact absurd hb' hb
  · exact Listing.mem_all.1 (h.added p t hp).1

/-- Types one of which has the name of a namespace of another. -/
def Listing.nested : Listing :=
  listingOf (some (.registry ["acme.geo.Point", "acme.geo", "acme.Pair", "solo"]))

/-- The type `acme.geo` comes first and hides `acme.geo.Point`. -/
theorem loadListed_faithful_nested : Listing.nested.Distinct ∧
    (loadListed .nested 0 ["acme", "nope"]).Faithful .nested ["acme", "nope"] ∧
    viewOf (loadListed .nested 0 ["acme", "nope"]).roots ["acme", "geo"] =
      some (.type (.registered "acme.geo")) ∧
    viewOf (loadListed .nested 0 ["acme", "nope"]).roots ["acme", "geo", "Point"] = none := by
  have hd : Listing.nested.Distinct := Listing.distinct_registry _
  exact ⟨hd, loadListed_faithful .nested 0 _ hd, by cbv, by cbv⟩

/-! ### The order of the names -/

/-- The path of the type `t` leads through the type `u`, which is a member of a namespace. -/
def TypeRef.Hides (u t : TypeRef) : Prop :=
  2 ≤ (segments u.fullName).length ∧ Through (segments u.fullName) (segments t.fullName)

instance (u t : TypeRef) : Decidable (u.Hides t) := by
  unfold TypeRef.Hides Through
  infer_instance

/-- The last of the types with the name. -/
def lastNamed (ts : List TypeRef) (name : Bytes) : Option TypeRef :=
  ts.reverse.find? fun t => t.fullName = name

/-- Whatever of `among` hides a type of the list comes before it, or one of the same name does. -/
def Foremost (among ts : List TypeRef) : Prop :=
  ∀ pre t, pre ++ [t] <+: ts → ∀ u ∈ among, u.Hides t → ∃ w ∈ pre, w.fullName = u.fullName

/-- The type is in a place of its own once all the types are added: it is hidden by none. -/
def Placed (ts : List TypeRef) (t : TypeRef) : Prop :=
  t ∈ ts ∧ 2 ≤ (segments t.fullName).length ∧ ∀ u ∈ ts, ¬ u.Hides t

section

variable {among ts us : List TypeRef} {t u w : TypeRef} {name : Bytes}

/-! ### The last type of a name -/

theorem segments_inj {a b : Bytes} (h : segments a = segments b) : a = b := by
  rw [← join_segments a, h, join_segments]

theorem lastNamed_concat :
    lastNamed (ts ++ [t]) name = if t.fullName = name then some t else lastNamed ts name := by
  rw [lastNamed, List.reverse_append, List.reverse_singleton, List.singleton_append,
    List.find?_cons]
  by_cases h : t.fullName = name
  · rw [if_pos h, decide_eq_true h]
  · rw [if_neg h, decide_eq_false h, lastNamed]

theorem lastNamed_append :
    lastNamed (ts ++ us) name = (lastNamed us name).or (lastNamed ts name) := by
  rw [lastNamed, List.reverse_append, List.find?_append]
  rfl

theorem mem_of_lastNamed (h : lastNamed ts name = some t) : t ∈ ts ∧ t.fullName = name := by
  constructor
  · exact List.mem_reverse.1 (List.mem_of_find?_eq_some h)
  · simpa using List.find?_some h

theorem lastNamed_of_mem (h : t ∈ ts) : ∃ u, lastNamed ts t.fullName = some u := by
  rw [← Option.isSome_iff_exists, lastNamed, List.find?_isSome]
  exact ⟨t, List.mem_reverse.2 h, decide_eq_true rfl⟩

/-! ### Types that hide others -/

namespace TypeRef.Hides

theorem irrefl (t : TypeRef) : ¬ t.Hides t := fun h => h.2.2 rfl

theorem length_lt (h : u.Hides t) :
    (segments u.fullName).length < (segments t.fullName).length :=
  Nat.lt_of_le_of_ne h.2.1.length_le fun heq => h.2.2 (h.2.1.eq_of_length heq)

theorem trans (h : w.Hides u) (h' : u.Hides t) : w.Hides t := by
  refine ⟨h.1, h.2.1.trans h'.2.1, fun heq => ?_⟩
  have hlt := Nat.lt_trans h.length_lt h'.length_lt
  rw [heq] at hlt
  exact Nat.lt_irrefl _ hlt

/-- Only the names of the types matter. -/
theorem congr {u' t' : TypeRef} (h : u.Hides t) (hu : u'.fullName = u.fullName)
    (ht : t'.fullName = t.fullName) : u'.Hides t' := by
  unfold Hides at *
  rwa [hu, ht]

end TypeRef.Hides

namespace Foremost

/-- The same by positions. -/
theorem iff_take : Foremost among ts ↔
    ∀ i (hi : i < ts.length), ∀ u ∈ among, u.Hides ts[i] →
      ∃ w ∈ ts.take i, w.fullName = u.fullName := by
  constructor
  · intro h i hi
    refine h (ts.take i) ts[i] ?_
    rw [← List.take_succ_eq_append_getElem hi]
    exact List.take_prefix (i + 1) ts
  · rintro h pre t ⟨post, rfl⟩ u hu hh
    have hat := h pre.length (by simp) u hu (by simpa using hh)
    simpa using hat

instance : Decidable (Foremost among ts) := decidable_of_iff _ iff_take.symm

theorem left (h : Foremost (ts ++ us) (ts ++ us)) : Foremost ts ts := fun pre t hpre u hu =>
  h pre t (hpre.trans (List.prefix_append ts us)) u (List.mem_append_left us hu)

/-- What hides a type of the list is in the list before any more types are added. -/
theorem earlier (h : Foremost (ts ++ [t]) (ts ++ [t])) (hu : u ∈ ts) (hh : t.Hides u) :
    ∃ w ∈ ts, w.fullName = t.fullName := by
  obtain ⟨pre, post, rfl⟩ := List.append_of_mem hu
  have hpre : pre ++ [u] <+: pre ++ u :: post ++ [t] := ⟨post ++ [t], by simp⟩
  obtain ⟨w, hw, hname⟩ := h pre u hpre t (by simp) hh
  exact ⟨w, List.mem_append_left _ hw, hname⟩

theorem append (hts : Foremost among ts) (hus : Foremost among us) :
    Foremost among (ts ++ us) := by
  intro pre t hpre u hu hh
  obtain ⟨post, hpost⟩ := hpre
  rcases List.append_eq_append_iff.1 hpost with ⟨rest, rfl, -⟩ | ⟨mid, hmid, rfl⟩
  · exact hts pre t (List.prefix_append _ rest) u hu hh
  · rcases List.eq_nil_or_concat' mid with rfl | ⟨mid, t', rfl⟩
    · exact hts pre t ⟨[], by rw [hmid, List.append_nil, List.append_nil]⟩ u hu hh
    · rw [← List.append_assoc] at hmid
      obtain ⟨rfl, ht⟩ := List.append_inj' hmid rfl
      cases ht
      obtain ⟨w, hw, hname⟩ := hus mid t (List.prefix_append _ post) u hu hh
      exact ⟨w, List.mem_append_right _ hw, hname⟩

theorem flatMap {α : Type} {f : α → List TypeRef} {l : List α}
    (h : ∀ a ∈ l, Foremost among (f a)) : Foremost among (l.flatMap f) := by
  induction l with
  | nil => exact fun pre t hpre => absurd (List.prefix_nil.1 hpre) (by simp)
  | cons a l ih =>
    rw [List.flatMap_cons]
    exact (h a List.mem_cons_self).append (ih fun b hb => h b (List.mem_cons_of_mem a hb))

end Foremost

namespace Placed

theorem congr (h : Placed ts t) (hu : u ∈ ts) (hname : u.fullName = t.fullName) :
    Placed ts u := by
  refine ⟨hu, ?_, fun w hw hh => h.2.2 w hw (hh.congr rfl hname.symm)⟩
  rw [hname]
  exact h.2.1

/-- Adding one more type hides no type that was in its place. -/
theorem concat (h : Foremost (ts ++ [t]) (ts ++ [t])) :
    Placed (ts ++ [t]) u ↔ Placed ts u ∨
      u = t ∧ 2 ≤ (segments t.fullName).length ∧ ∀ w ∈ ts, ¬ w.Hides t := by
  constructor
  · rintro ⟨hu, hlen, hno⟩
    have hno' : ∀ w ∈ ts, ¬ w.Hides u := fun w hw => hno w (List.mem_append_left _ hw)
    rcases List.mem_append.1 hu with hu | hu
    · exact .inl ⟨hu, hlen, hno'⟩
    · obtain rfl := List.mem_singleton.1 hu
      exact .inr ⟨rfl, hlen, hno'⟩
  · rintro (⟨hu, hlen, hno⟩ | ⟨rfl, hlen, hno⟩)
    · refine ⟨List.mem_append_left _ hu, hlen, fun w hw hh => ?_⟩
      rcases List.mem_append.1 hw with hw | hw
      · exact hno w hw hh
      · obtain rfl := List.mem_singleton.1 hw
        obtain ⟨w', hw', hname⟩ := h.earlier hu hh
        exact hno w' hw' (hh.congr hname rfl)
    · refine ⟨List.mem_append_right _ (List.mem_singleton_self u), hlen, fun w hw => ?_⟩
      rcases List.mem_append.1 hw with hw | hw
      · exact hno w hw
      · rw [List.mem_singleton.1 hw]
        exact TypeRef.Hides.irrefl u

/-- The outermost of the types that hide a type is in its place. -/
theorem outermost {u : TypeRef} (hu : u ∈ ts) (hh : u.Hides t) :
    ∃ w, lastNamed ts w.fullName = some w ∧ Placed ts w ∧ w.Hides t := by
  by_cases hout : ∃ w ∈ ts, w.Hides u
  case pos =>
    obtain ⟨w, hw, hwu⟩ := hout
    have := hwu.length_lt
    exact outermost hw (hwu.trans hh)
  case neg =>
    have hplaced : Placed ts u := ⟨hu, hh.1, fun w hw hwu => hout ⟨w, hw, hwu⟩⟩
    obtain ⟨w, hlast⟩ := lastNamed_of_mem hu
    obtain ⟨hw, hname⟩ := mem_of_lastNamed hlast
    exact ⟨w, by rw [hname, hlast], hplaced.congr hw hname, hh.congr hname rfl⟩
termination_by (segments u.fullName).length

end Placed

end

/-! ### What the trees come to -/

/-- What stands at the end of each path is told by which types were added. -/
structure View.Settled (ts : List TypeRef) (v : View) : Prop where
  named : v.Named (Bytes.join ".")
  types : ∀ p t, v p = some (.type t) ↔
    segments t.fullName = p ∧ lastNamed ts t.fullName = some t ∧ Placed ts t
  nspaces : ∀ p, (∃ n, v p = some (.nspace n)) ↔
    p ≠ [] ∧ ∃ t, Placed ts t ∧ Through p (segments t.fullName)

namespace View.Settled

variable {ts us : List TypeRef} {t u : TypeRef} {v v' : View}

theorem blocks_iff (h : v.Settled ts) :
    v.Blocks (segments t.fullName) ↔ ∃ u ∈ ts, u.Hides t := by
  constructor
  · rintro ⟨p, u, hp, hu⟩
    obtain ⟨rfl, -, hplaced⟩ := (h.types p u).1 hu
    exact ⟨u, hplaced.1, hplaced.2.1, hp⟩
  · rintro ⟨u, hu, hh⟩
    obtain ⟨w, hlast, hplaced, hw⟩ := Placed.outermost hu hh
    exact ⟨_, w, hw.2, (h.types _ w).2 ⟨rfl, hlast, hplaced⟩⟩

theorem start : View.Settled [] (viewOf []) := by
  have hnone (p : List Bytes) : viewOf [] p = none := by cases p <;> rfl
  constructor
  case named =>
    intro p n h
    cases (hnone p).symm.trans h
  case types =>
    intro p t
    rw [hnone]
    exact ⟨nofun, fun ⟨_, _, hplaced⟩ => absurd hplaced.1 List.not_mem_nil⟩
  case nspaces =>
    intro p
    rw [hnone]
    exact ⟨nofun, fun ⟨_, _, hplaced, _⟩ => absurd hplaced.1 List.not_mem_nil⟩

/-- A type whose name has a single segment changes nothing. -/
theorem skip (h : v.Settled ts) (hf : Foremost (ts ++ [t]) (ts ++ [t]))
    (ht : ¬ 2 ≤ (segments t.fullName).length) : v.Settled (ts ++ [t]) := by
  have hplaced (u : TypeRef) : Placed (ts ++ [t]) u ↔ Placed ts u := by
    rw [Placed.concat hf, or_iff_left]
    exact fun hnew => ht hnew.2.1
  refine ⟨h.named, fun p u => ?_, fun p => ?_⟩
  · rw [h.types, hplaced, lastNamed_concat]
    refine and_congr_right fun _ => and_congr_left fun hu => ?_
    rw [if_neg fun hname => ht (by rw [hname]; exact hu.2.1)]
  · simp only [h.nspaces, hplaced]

/-- One more type is added. -/
theorem add (h : v.Settled ts) (hf : Foremost (ts ++ [t]) (ts ++ [t]))
    (hlen : 2 ≤ (segments t.fullName).length)
    (hg : Grown (Bytes.join ".") t (segments t.fullName) v v') : v'.Settled (ts ++ [t]) := by
  have blocks : ¬ v.Blocks (segments t.fullName) ↔ ∀ w ∈ ts, ¬ w.Hides t := by
    rw [h.blocks_iff]
    push Not
    rfl
  constructor
  case named => exact hg.named h.named
  case types =>
    intro p u
    rw [Placed.concat hf, lastNamed_concat]
    constructor
    · intro hp
      rcases hg.cases hp with hold | ⟨hb, ⟨-, -, hnew⟩ | ⟨rfl, hnew⟩⟩
      · obtain ⟨rfl, hlast, hu⟩ := (h.types p u).1 hold
        refine ⟨rfl, ?_, .inl hu⟩
        by_cases hname : t.fullName = u.fullName
        · have hb : ¬ v.Blocks (segments t.fullName) :=
            blocks.2 fun w hw hh => hu.2.2 w hw (hh.congr rfl hname.symm)
          rw [if_pos hname]
          rcases hg.target hb with ⟨n, hn, -⟩ | ⟨-, ht⟩
          · rw [hname] at hn
            cases hold.symm.trans hn
          · rw [hname] at ht
            cases ht.symm.trans hp
            rfl
        · rw [if_neg hname, hlast]
      · cases hnew
      · cases hnew
        exact ⟨rfl, if_pos rfl, .inr ⟨rfl, hlen, blocks.1 hb⟩⟩
    · rintro ⟨rfl, hlast, hu⟩
      by_cases hname : t.fullName = u.fullName
      · rw [if_pos hname] at hlast
        cases hlast
        have hb : ¬ v.Blocks (segments t.fullName) := blocks.2 (hu.elim (·.2.2) (·.2.2))
        rcases hg.target hb with ⟨n, hn, -⟩ | ⟨-, ht⟩
        · -- a type that a namespace stands for would hide what is in that namespace
          obtain ⟨-, w, hw, hthrough⟩ := (h.nspaces _).1 ⟨n, hn⟩
          have hh : t.Hides w := ⟨hlen, hthrough⟩
          obtain ⟨w', hw', hname⟩ := hf.earlier hw.1 hh
          exact absurd (hh.congr hname rfl) (hw.2.2 w' hw')
        · exact ht
      · rw [if_neg hname] at hlast
        have hu' : Placed ts u := hu.resolve_right fun hnew => hname (by rw [hnew.1])
        rcases hg.type_stays ((h.types _ u).2 ⟨rfl, hlast, hu'⟩) with hstays | ⟨hq, -⟩
        · exact hstays
        · exact absurd (segments_inj hq).symm hname
  case nspaces =>
    intro p
    simp only [Placed.concat hf]
    constructor
    · rintro ⟨n, hn⟩
      rcases hg.cases hn with hold | ⟨hb, ⟨hp0, hp, -⟩ | ⟨-, hnew⟩⟩
      · obtain ⟨hp0, u, hu, hp⟩ := (h.nspaces p).1 ⟨n, hold⟩
        exact ⟨hp0, u, .inl hu, hp⟩
      · exact ⟨hp0, t, .inr ⟨rfl, hlen, blocks.1 hb⟩, hp⟩
      · cases hnew
    · rintro ⟨hp0, u, hu | ⟨rfl, -, hu⟩, hp⟩
      · obtain ⟨n, hn⟩ := (h.nspaces p).2 ⟨hp0, u, hu, hp⟩
        exact ⟨n, hg.nspace_stays h.named hn⟩
      · exact ⟨_, hg.way (blocks.2 hu) p hp0 hp⟩

/-- After all types are added. -/
theorem foldl (stamp : Nat) (hf : Foremost ts ts) :
    (viewOf (ts.foldl (insertType stamp) [])).Settled ts := by
  induction ts using List.reverseRecOn with
  | nil => exact start
  | append_singleton ts t ih =>
    rw [List.foldl_append, List.foldl_cons, List.foldl_nil]
    by_cases hlen : 2 ≤ (segments t.fullName).length
    · exact (ih hf.left).add hf hlen (grown_insertType (ih hf.left).named hlen)
    · rw [insertType_of_short (Nat.not_le.1 hlen)]
      exact (ih hf.left).skip hf hlen

/-- Views are the same where the same types are listed and each name has the same last type. -/
theorem unique (h : v.Settled ts) (h' : v'.Settled us) (hmem : ∀ t, t ∈ ts ↔ t ∈ us)
    (hlast : ∀ name, lastNamed ts name = lastNamed us name) : v = v' := by
  have hplaced (t : TypeRef) : Placed ts t ↔ Placed us t := by simp only [Placed, hmem]
  have htypes (p : List Bytes) (t : TypeRef) : v p = some (.type t) ↔ v' p = some (.type t) := by
    rw [h.types, h'.types, hlast, hplaced]
  have hnspaces (p : List Bytes) (n : Bytes) :
      v p = some (.nspace n) ↔ v' p = some (.nspace n) := by
    have hex : (∃ n, v p = some (.nspace n)) ↔ ∃ n, v' p = some (.nspace n) := by
      rw [h.nspaces, h'.nspaces]
      simp only [hplaced]
    constructor
    · intro hn
      obtain ⟨n', hn'⟩ := hex.1 ⟨n, hn⟩
      rw [hn', h.named p n hn, h'.named p n' hn']
    · intro hn
      obtain ⟨n', hn'⟩ := hex.2 ⟨n, hn⟩
      rw [hn', h'.named p n hn, h.named p n' hn']
  funext p
  refine Option.ext fun e => ?_
  cases e with
  | nspace n => exact hnspaces p n
  | type t => exact htypes p t

end View.Settled

/-! ### Loading -/

/-- The lists of the named namespaces tell without their order what stands where. -/
structure Listing.Orderly (types : Listing) (names : List Bytes) : Prop where
  /-- If a list has a type within another listed type, it has that other one first. -/
  foremost : ∀ name ∈ names, ∀ ts, types name = .ok ts → Foremost (types.all names) ts
  /-- The lists that have types of some name have the same one last. -/
  agree : ∀ a ∈ names, ∀ ts, types a = .ok ts → ∀ b ∈ names, ∀ us, types b = .ok us →
    ∀ name t u, lastNamed ts name = some t → lastNamed us name = some u → t = u

namespace Listing

variable {types : Listing} {names names' : List Bytes} {t : TypeRef} {name : Bytes}

/-- Where types with one full name are one type, only types within others matter. -/
theorem Distinct.orderly (hd : types.Distinct)
    (hf : ∀ name ∈ names, ∀ ts, types name = .ok ts → Foremost (types.all names) ts) :
    types.Orderly names where
  foremost := hf
  agree a _ ts hts b _ us hus name t u ht hu := by
    obtain ⟨ht, htname⟩ := mem_of_lastNamed ht
    obtain ⟨hu, huname⟩ := mem_of_lastNamed hu
    exact hd a b t u ⟨ts, hts, ht⟩ ⟨us, hus, hu⟩ (htname.trans huname.symm)

theorem Orderly.perm (h : types.Orderly names) (hp : names.Perm names') :
    types.Orderly names' where
  foremost a ha ts hts pre t hpre u hu :=
    h.foremost a (hp.mem_iff.2 ha) ts hts pre t hpre u ((hp.flatMap_right _).mem_iff.2 hu)
  agree a ha ts hts b hb us hus :=
    h.agree a (hp.mem_iff.2 ha) ts hts b (hp.mem_iff.2 hb) us hus

theorem Orderly.all (h : types.Orderly names) : Foremost (types.all names) (types.all names) := by
  refine Foremost.flatMap fun a ha => ?_
  cases hts : types a with
  | ok ts => exact h.foremost a ha ts hts
  | error e => exact fun pre t hpre => absurd (List.prefix_nil.1 hpre) (by simp)

/-- The last of all the types with the name is the last one in some list. -/
theorem exists_of_lastNamed_all (h : lastNamed (types.all names) name = some t) :
    ∃ a ∈ names, ∃ ts, types a = .ok ts ∧ lastNamed ts name = some t := by
  induction names with
  | nil => cases h
  | cons a names ih =>
    rw [Listing.all, List.flatMap_cons, lastNamed_append, Option.or_eq_some_iff] at h
    rcases h with h | ⟨-, h⟩
    · obtain ⟨b, hb, hlast⟩ := ih h
      exact ⟨b, List.mem_cons_of_mem a hb, hlast⟩
    · cases hts : types a with
      | ok ts => exact ⟨a, List.mem_cons_self, ts, hts, by simpa [hts] using h⟩
      | error e => simp [hts, lastNamed] at h

theorem Orderly.lastNamed_of_perm (h : types.Orderly names) (hp : names.Perm names')
    (hlast : lastNamed (types.all names) name = some t) :
    lastNamed (types.all names') name = some t := by
  obtain ⟨a, ha, ts, hts, hlast⟩ := exists_of_lastNamed_all hlast
  obtain ⟨ht, hname⟩ := mem_of_lastNamed hlast
  have ht' : t ∈ types.all names' := mem_all.2 ⟨a, hp.mem_iff.1 ha, ts, hts, ht⟩
  obtain ⟨u, hu⟩ := lastNamed_of_mem ht'
  rw [hname] at hu
  obtain ⟨b, hb, us, hus, hlast'⟩ := exists_of_lastNamed_all hu
  rw [hu, h.agree a ha ts hts b (hp.mem_iff.2 hb) us hus name t u hlast hlast']

theorem Orderly.lastNamed_perm (h : types.Orderly names) (hp : names.Perm names')
    (name : Bytes) : lastNamed (types.all names) name = lastNamed (types.all names') name :=
  Option.ext fun _ => ⟨h.lastNamed_of_perm hp, (h.perm hp).lastNamed_of_perm hp.symm⟩

end Listing

/-- The order of the names does not matter: the trees are told by the types that are listed. -/
theorem loadListed_perm (types : Listing) (stamp stamp' : Nat) (names names' : List Bytes)
    (h : names.Perm names') (ho : types.Orderly names) :
    viewOf (loadListed types stamp names).roots =
        viewOf (loadListed types stamp' names').roots ∧
      (viewOf (loadListed types stamp names).roots).Settled (types.all names) := by
  rw [viewOf_loadListed, viewOf_loadListed]
  have settled := View.Settled.foldl stamp ho.all
  have settled' := View.Settled.foldl stamp' (ho.perm h).all
  exact ⟨settled.unique settled' (fun _ => (h.flatMap_right _).mem_iff) (ho.lastNamed_perm h),
    settled⟩

/-- Types one of which is part of another. -/
def Listing.parted : Listing :=
  listingOf (some (.registry ["acme.geo.Point.X", "acme.Pair", "acme.geo.Point"]))

theorem Listing.orderly_parted : Listing.parted.Orderly ["acme", "acme.geo"] := by
  have hd : Listing.parted.Distinct := distinct_registry _
  have acme : Listing.parted "acme" = .ok [.registered "acme.Pair",
    .registered "acme.geo.Point", .registered "acme.geo.Point.X"] := by cbv
  have geo : Listing.parted "acme.geo" = .ok [.registered "acme.geo.Point",
    .registered "acme.geo.Point.X"] := by cbv
  refine hd.orderly fun name hname ts hts => ?_
  simp only [Listing.all, List.flatMap_cons, List.flatMap_nil, acme, geo]
  rcases List.mem_pair.1 hname with rfl | rfl
  · cases acme.symm.trans hts
    decide +kernel
  · cases geo.symm.trans hts
    decide +kernel

theorem loadListed_perm_parted : (["acme", "acme.geo"] : List Bytes).Perm ["acme.geo", "acme"] ∧
    Listing.parted.Orderly ["acme", "acme.geo"] ∧
    viewOf (loadListed .parted 0 ["acme", "acme.geo"]).roots =
        viewOf (loadListed .parted 1 ["acme.geo", "acme"]).roots ∧
      (viewOf (loadListed .parted 0 ["acme", "acme.geo"]).roots).Settled
        (Listing.parted.all ["acme", "acme.geo"]) := by
  have hp : (["acme", "acme.geo"] : List Bytes).Perm ["acme.geo", "acme"] := .swap _ _ _
  exact ⟨hp, Listing.orderly_parted, loadListed_perm .parted 0 1 _ _ hp Listing.orderly_parted⟩

/-- Two types with the same name, in an order that depends on the namespace. -/
def Listing.twofold : Listing := fun ns =>
  if ns = "a" then .ok [.message ⟨1, "a.b.X"⟩, .message ⟨2, "a.b.X"⟩]
  else .ok [.message ⟨2, "a.b.X"⟩, .message ⟨1, "a.b.X"⟩]

/-- In general the order of the names matters: a type may come before a namespace of its name or
after it, and a type before another one of its name or after it. -/
theorem loadListed_order_matters :
    (["acme", "acme.geo"] : List Bytes).Perm ["acme.geo", "acme"] ∧
    (viewOf (loadListed .nested 0 ["acme", "acme.geo"]).roots ["acme", "geo"] =
        some (.type (.registered "acme.geo")) ∧
      viewOf (loadListed .nested 0 ["acme.geo", "acme"]).roots ["acme", "geo"] =
        some (.nspace "acme.geo")) ∧
    (["a", "a.b"] : List Bytes).Perm ["a.b", "a"] ∧
    (viewOf (loadListed .twofold 0 ["a", "a.b"]).roots ["a", "b", "X"] =
        some (.type (.message ⟨1, "a.b.X"⟩)) ∧
      viewOf (loadListed .twofold 0 ["a.b", "a"]).roots ["a", "b", "X"] =
        some (.type (.message ⟨2, "a.b.X"⟩))) := by
  refine ⟨.swap _ _ _, ⟨?_, ?_⟩, .swap _ _ _, ?_, ?_⟩
  all_goals cbv

end Stencil
