import Mathlib
import Stencil.Catalog.Source
import Stencil.Proofs.Association
import Stencil.Proofs.Text.Pieces

/-!
# Paths in trees of namespaces

All that matters of trees of namespaces is what stands at the end of each path of segments, their
`view`. A type is added at the path of its own name: `Grown` says what the view is afterwards.
A type that the path leads through keeps its place, and then nothing is added. Otherwise
namespaces stand all along the path, and the type stands at its end unless a namespace does. No
other path is concerned.
-/

namespace Stencil

/-! ### Paths -/

/-- What a path leads to: a namespace of the given name, or a type. -/
inductive Found where
  | nspace (name : Bytes)
  | type (t : TypeRef)
  deriving DecidableEq

/-- What each path leads to. -/
abbrev View := List Bytes → Option Found

/-- What a path leads to from a namespace. -/
def Namespace.view (ns : Namespace) : View
  | [] => some (.nspace ns.name)
  | seg :: path =>
    match ns.find? seg with
    | some (.nspace sub) => sub.view path
    | some (.type t) => if path = [] then some (.type t) else none
    | none => none

/-- What a path leads to in trees of namespaces. -/
def viewOf (roots : List (Bytes × Namespace)) : View
  | [] => none
  | root :: path => (roots.lookup root).bind (·.view path)

/-- The path `q` leads through `p` and goes on. -/
def Through (p q : List Bytes) : Prop := p <+: q ∧ p ≠ q

theorem through_cons {s s' : Bytes} {p q : List Bytes} :
    Through (s :: p) (s' :: q) ↔ s = s' ∧ Through p q := by
  simp only [Through, List.cons_prefix_cons, ne_eq, List.cons.injEq]
  constructor
  · rintro ⟨⟨rfl, h⟩, hne⟩
    exact ⟨rfl, h, fun heq => hne ⟨rfl, heq⟩⟩
  · rintro ⟨rfl, h, hne⟩
    exact ⟨⟨rfl, h⟩, fun heq => hne heq.2⟩

namespace View

/-- The path leads through a type. -/
def Blocks (v : View) (q : List Bytes) : Prop := ∃ p t, Through p q ∧ v p = some (.type t)

/-- Each namespace has the name that its path tells. -/
def Named (name : List Bytes → Bytes) (v : View) : Prop :=
  ∀ p n, v p = some (.nspace n) → n = name p

end View

/-- The view `v'` is `v` after a type is added at the path `q`, where `name` tells the names of
namespaces by their paths. -/
structure Grown (name : List Bytes → Bytes) (t : TypeRef) (q : List Bytes) (v v' : View) :
    Prop where
  blocked : v.Blocks q → v' = v
  elsewhere : ∀ p, ¬ p <+: q → v' p = v p
  start : v' [] = v []
  way : ¬ v.Blocks q → ∀ p, p ≠ [] → Through p q → v' p = some (.nspace (name p))
  target : ¬ v.Blocks q →
    (∃ n, v q = some (.nspace n) ∧ v' q = some (.nspace n)) ∨
      (∀ n, v q ≠ some (.nspace n)) ∧ v' q = some (.type t)

section

variable {name : List Bytes → Bytes} {t : TypeRef} {v v' w w' : View} {seg : Bytes}
  {p q : List Bytes}

theorem Grown.of_blocks (h : v.Blocks q) : Grown name t q v v where
  blocked _ := rfl
  elsewhere _ _ := rfl
  start := rfl
  way hb := absurd h hb
  target hb := absurd h hb

/-- What is added below a member is added below the whole. The member may also be a new
namespace. -/
theorem Grown.within (hw : Grown (fun p => name (seg :: p)) t q w w') (hq : q ≠ [])
    (hstart : v' [] = v []) (hroot : ∀ u, v [] ≠ some (.type u))
    (hother : ∀ s p, s ≠ seg → v' (s :: p) = v (s :: p)) (hv' : ∀ p, v' (seg :: p) = w' p)
    (hw0 : w [] = some (.nspace (name [seg])))
    (hv : (∀ p, v (seg :: p) = w p) ∨ (∀ p, v (seg :: p) = none) ∧ ∀ p, p ≠ [] → w p = none) :
    Grown name t (seg :: q) v v' := by
  have below (p : List Bytes) (hp : p ≠ []) : v (seg :: p) = w p := by
    rcases hv with hv | ⟨hv, hw⟩
    · exact hv p
    · rw [hv, hw p hp]
  have blocks : v.Blocks (seg :: q) ↔ w.Blocks q := by
    constructor
    · rintro ⟨p, u, hp, hpu⟩
      cases p with
      | nil => exact absurd hpu (hroot u)
      | cons s p =>
        obtain ⟨rfl, hpq⟩ := through_cons.1 hp
        rcases hv with hv | ⟨hv, -⟩
        · exact ⟨p, u, hpq, by rw [← hv, hpu]⟩
        · rw [hv] at hpu
          cases hpu
    · rintro ⟨p, u, hp, hpu⟩
      have hp0 : p ≠ [] := by
        rintro rfl
        rw [hw0] at hpu
        cases hpu
      exact ⟨seg :: p, u, through_cons.2 ⟨rfl, hp⟩, by rw [below p hp0, hpu]⟩
  constructor
  case blocked =>
    intro hb
    have hsame := hw.blocked (blocks.1 hb)
    -- what blocks the path stands below the member, so the member is not new
    have hold : ∀ p, v (seg :: p) = w p := by
      rcases hv with hv | ⟨-, hnone⟩
      · exact hv
      · obtain ⟨p, u, -, hpu⟩ := blocks.1 hb
        cases p with
        | nil => exact absurd (hw0.symm.trans hpu) nofun
        | cons s p => exact absurd ((hnone _ (List.cons_ne_nil s p)).symm.trans hpu) nofun
    funext p
    cases p with
    | nil => exact hstart
    | cons s p =>
      by_cases hs : s = seg
      · rw [hs, hv', hsame, hold]
      · exact hother s p hs
  case elsewhere =>
    intro p hp
    cases p with
    | nil => exact absurd List.nil_prefix hp
    | cons s p =>
      by_cases hs : s = seg
      · subst hs
        have hp' : ¬ p <+: q := fun h => hp (List.cons_prefix_cons.2 ⟨rfl, h⟩)
        have hp0 : p ≠ [] := fun h => hp' (h ▸ List.nil_prefix)
        rw [hv', hw.elsewhere p hp', below p hp0]
      · exact hother s p hs
  case start => exact hstart
  case way =>
    intro hb p hp0 hp
    cases p with
    | nil => exact absurd rfl hp0
    | cons s p =>
      obtain ⟨rfl, hpq⟩ := through_cons.1 hp
      rw [hv']
      by_cases hp0 : p = []
      · rw [hp0, hw.start, hw0]
      · exact hw.way (fun h => hb (blocks.2 h)) p hp0 hpq
  case target =>
    intro hb
    rw [hv', below q hq]
    exact hw.target fun h => hb (blocks.2 h)

/-! ### What stays and what is new -/

theorem Grown.nspace_stays (h : Grown name t q v v') (hname : v.Named name) {n : Bytes}
    (hp : v p = some (.nspace n)) : v' p = some (.nspace n) := by
  by_cases hb : v.Blocks q
  · rw [h.blocked hb, hp]
  by_cases hpre : p <+: q
  · by_cases hpq : p = q
    · subst hpq
      rcases h.target hb with ⟨m, hm, hm'⟩ | ⟨hno, -⟩
      · rw [hm', ← hm, hp]
      · exact absurd hp (hno n)
    · by_cases hp0 : p = []
      · rw [hp0, h.start, ← hp0, hp]
      · rw [h.way hb p hp0 ⟨hpre, hpq⟩, hname p n hp]
  · rw [h.elsewhere p hpre, hp]

/-- A type keeps its place, or the new one takes it. -/
theorem Grown.type_stays (h : Grown name t q v v') {u : TypeRef} (hp : v p = some (.type u)) :
    v' p = some (.type u) ∨ p = q ∧ v' p = some (.type t) := by
  by_cases hb : v.Blocks q
  · exact .inl (by rw [h.blocked hb, hp])
  by_cases hpre : p <+: q
  · by_cases hpq : p = q
    · subst hpq
      rcases h.target hb with ⟨m, hm, -⟩ | ⟨-, ht⟩
      · rw [hm] at hp
        cases hp
      · exact .inr ⟨rfl, ht⟩
    · exact absurd ⟨p, u, ⟨hpre, hpq⟩, hp⟩ hb
  · exact .inl (by rw [h.elsewhere p hpre, hp])

theorem Grown.blocks_stays (h : Grown name t q v v') (hp : v.Blocks p) : v'.Blocks p := by
  obtain ⟨p', u, hpp, hu⟩ := hp
  rcases h.type_stays hu with hu' | ⟨-, ht⟩
  · exact ⟨p', u, hpp, hu'⟩
  · exact ⟨p', t, hpp, ht⟩

/-- What a path leads to afterwards it led to before, or it is a namespace on the way, or the
type. -/
theorem Grown.cases (h : Grown name t q v v') {e : Found} (hp : v' p = some e) :
    v p = some e ∨
      ¬ v.Blocks q ∧
        ((p ≠ [] ∧ Through p q ∧ e = .nspace (name p)) ∨ (p = q ∧ e = .type t)) := by
  by_cases hb : v.Blocks q
  · exact .inl (by rw [← h.blocked hb, hp])
  by_cases hpre : p <+: q
  · by_cases hpq : p = q
    · subst hpq
      rcases h.target hb with ⟨m, hm, hm'⟩ | ⟨-, ht⟩
      · exact .inl (by rw [hm, ← hm', hp])
      · exact .inr ⟨hb, .inr ⟨rfl, Option.some.inj (hp.symm.trans ht)⟩⟩
    · by_cases hp0 : p = []
      · exact .inl (by rw [hp0, ← h.start, ← hp0, hp])
      · have hway := h.way hb p hp0 ⟨hpre, hpq⟩
        exact .inr ⟨hb, .inl ⟨hp0, ⟨hpre, hpq⟩, Option.some.inj (hp.symm.trans hway)⟩⟩
  · exact .inl (by rw [← h.elsewhere p hpre, hp])

theorem Grown.named (h : Grown name t q v v') (hname : v.Named name) : v'.Named name := by
  intro p n hp
  rcases h.cases hp with hold | ⟨-, ⟨-, -, hnew⟩ | ⟨-, htype⟩⟩
  · exact hname p n hold
  · exact Found.nspace.inj hnew
  · cases htype

end

/-! ### Adding a type -/

section

variable {ns sub : Namespace} {seg : Bytes} {m : NamespaceMember} {p : List Bytes} {t : TypeRef}

theorem Namespace.find?_set {s : Bytes} :
    (ns.set seg m).find? s = if s = seg then some m else ns.find? s := lookup_setAssoc

@[simp] theorem Namespace.view_nil : ns.view [] = some (.nspace ns.name) := rfl

attribute [local simp] Namespace.view

theorem Namespace.view_set_ne {s : Bytes} (h : s ≠ seg) :
    (ns.set seg m).view (s :: p) = ns.view (s :: p) := by
  simp [find?_set, h]

theorem Namespace.view_nspace (h : ns.find? seg = some (.nspace sub)) :
    ns.view (seg :: p) = sub.view p := by simp [h]

theorem Namespace.view_type (h : ns.find? seg = some (.type t)) :
    ns.view (seg :: p) = if p = [] then some (.type t) else none := by simp [h]

theorem Namespace.view_none (h : ns.find? seg = none) : ns.view (seg :: p) = none := by simp [h]

/-- The name of a namespace, by the path that leads to it from the namespace `ns`. -/
def Namespace.nameAt (ns : Namespace) (p : List Bytes) : Bytes := Bytes.join "." (ns.name :: p)

theorem Namespace.nameAt_nil : ns.nameAt [] = ns.name := by simp [nameAt, Bytes.join]

theorem Namespace.nameAt_sub (h : sub.name = ns.name ++ "." ++ seg) (p : List Bytes) :
    ns.nameAt (seg :: p) = sub.nameAt p := by
  rw [nameAt, nameAt, h, join_append_cons]

theorem Namespace.name_sub (hname : ns.view.Named ns.nameAt)
    (hsub : ns.find? seg = some (.nspace sub)) : sub.name = ns.name ++ "." ++ seg := by
  have h := hname [seg] sub.name (by rw [view_nspace hsub, view_nil])
  rw [h, nameAt, join_cons_cons, join_cons, List.flatMap_nil, List.append_nil]

/-- What is added below a nested namespace, or below one that is new. -/
theorem Namespace.grown_set {q : List Bytes} {sub' : Namespace} (hname : sub.name = ns.name ++ "." ++ seg)
    (h : Grown sub.nameAt t q sub.view sub'.view) (hq : q ≠ [])
    (hv : (∀ p, ns.view (seg :: p) = sub.view p) ∨
      (∀ p, ns.view (seg :: p) = none) ∧ ∀ p, p ≠ [] → sub.view p = none) :
    Grown ns.nameAt t (seg :: q) ns.view (ns.set seg (.nspace sub')).view := by
  have hsub : sub.nameAt = fun p => ns.nameAt (seg :: p) :=
    funext fun p => (nameAt_sub hname p).symm
  have hfind : (ns.set seg (.nspace sub')).find? seg = some (.nspace sub') := by
    rw [find?_set, if_pos rfl]
  refine Grown.within (hsub ▸ h) hq rfl nofun (fun s p hs => view_set_ne hs)
    (fun p => view_nspace hfind) ?_ hv
  rw [view_nil, nameAt_sub hname, nameAt_nil]

/-- The last segment of a path gives the type its place in a namespace. -/
theorem Namespace.grown_last (t : TypeRef) (last : Bytes) (ns : Namespace) :
    Grown ns.nameAt t [last] ns.view (ns.insert t [last]).view := by
  have way {p : List Bytes} (hp : Through p [last]) : p = [] := by
    rcases List.prefix_cons_iff.1 hp.1 with rfl | ⟨p', rfl, hp'⟩
    · rfl
    · exact absurd (by rw [List.prefix_nil.1 hp']) hp.2
  have free : ¬ ns.view.Blocks [last] := by
    rintro ⟨p, u, hp, hpu⟩
    rw [way hp] at hpu
    cases hpu
  by_cases hns : ∃ sub, ns.find? last = some (.nspace sub)
  case pos =>
    obtain ⟨sub, hsub⟩ := hns
    have hview : ns.view [last] = some (.nspace sub.name) := view_nspace hsub
    rw [insert, hsub]
    exact {
      blocked := fun _ => rfl
      elsewhere := fun _ _ => rfl
      start := rfl
      way := fun _ p hp0 hp => absurd (way hp) hp0
      target := fun _ => .inl ⟨_, hview, hview⟩ }
  case neg =>
    have hset : ns.insert t [last] = ns.set last (.type t) := by
      rw [insert]
      split
      · rename_i sub hsub
        exact absurd ⟨sub, hsub⟩ hns
      · rfl
    have hfind : (ns.set last (.type t)).find? last = some (.type t) := by
      rw [find?_set, if_pos rfl]
    -- without a namespace of this name no path leads further
    have hold (p : List Bytes) : ns.view (last :: p) = none ∨
        p = [] ∧ ∃ u, ns.view [last] = some (.type u) := by
      cases hf : ns.find? last with
      | none => exact .inl (view_none hf)
      | some m =>
        cases m with
        | nspace sub => exact absurd ⟨sub, hf⟩ hns
        | type u =>
          by_cases hp : p = []
          · exact .inr ⟨hp, u, by rw [view_type hf, if_pos rfl]⟩
          · exact .inl (by rw [view_type hf, if_neg hp])
    rw [hset]
    constructor
    case blocked => exact fun hb => absurd hb free
    case elsewhere =>
      intro p hp
      cases p with
      | nil => rfl
      | cons s p =>
        by_cases hs : s = last
        · subst hs
          have hp0 : p ≠ [] := fun h => hp (by rw [h])
          rw [view_type hfind, if_neg hp0]
          exact ((hold p).resolve_right fun h => hp0 h.1).symm
        · exact view_set_ne hs
    case start => rfl
    case way => exact fun _ p hp0 hp => absurd (way hp) hp0
    case target =>
      refine fun _ => .inr ⟨fun n hn => ?_, by rw [view_type hfind, if_pos rfl]⟩
      rcases hold [] with h | ⟨-, u, h⟩
      · cases h.symm.trans hn
      · cases h.symm.trans hn

/-- Adding a type to a namespace whose members have the names their paths tell. -/
theorem Namespace.grown_insert (t : TypeRef) : ∀ (q : List Bytes) (ns : Namespace), q ≠ [] →
    ns.view.Named ns.nameAt → Grown ns.nameAt t q ns.view (ns.insert t q).view
  | [], _, hq, _ => absurd rfl hq
  | [last], ns, _, _ => grown_last t last ns
  | seg :: next :: rest, ns, _, hname => by
    have hq : next :: rest ≠ [] := List.cons_ne_nil _ _
    cases hf : ns.find? seg with
    | none =>
      have hempty (p : List Bytes) (hp : p ≠ []) :
          (Namespace.mk ns.stamp (ns.name ++ "." ++ seg) []).view p = none := by
        cases p with
        | nil => exact absurd rfl hp
        | cons s p => rfl
      rw [insert, hf]
      refine grown_set rfl (grown_insert t (next :: rest) _ hq fun p n hp => ?_) hq
        (.inr ⟨fun p => view_none hf, hempty⟩)
      by_cases hp0 : p = []
      · rw [hp0] at hp ⊢
        cases hp
        exact nameAt_nil.symm
      · rw [hempty p hp0] at hp
        cases hp
    | some m =>
      cases m with
      | type u =>
        have hblocks : ns.view.Blocks (seg :: next :: rest) :=
          ⟨[seg], u, ⟨by simp, by simp⟩, by rw [view_type hf, if_pos rfl]⟩
        rw [insert, hf]
        exact .of_blocks hblocks
      | nspace sub =>
        have hsub := name_sub hname hf
        rw [insert, hf]
        refine grown_set hsub (grown_insert t (next :: rest) sub hq fun p n hp => ?_) hq
          (.inl fun p => view_nspace hf)
        rw [← nameAt_sub hsub]
        exact hname (seg :: p) n (by rw [view_nspace hf, hp])

end

/-! ### Adding a type to the trees -/

section

variable {stamp : Nat} {roots : List (Bytes × Namespace)} {t : TypeRef}

theorem ofString_dot : Bytes.ofString "." = [46] := by cbv

/-- A name is given back by its segments. -/
theorem join_segments (name : Bytes) : Bytes.join "." (segments name) = name :=
  join_splitOn (by rw [ofString_dot]; exact List.cons_ne_nil _ _)

/-- A name of a single segment is no member of a namespace. -/
theorem insertType_of_short (h : (segments t.fullName).length < 2) :
    insertType stamp roots t = roots := by
  unfold insertType
  split
  · rename_i hs
    rw [hs] at h
    exact absurd h (by simp)
  · rfl

theorem viewOf_cons (root : Bytes) (p : List Bytes) :
    viewOf roots (root :: p) = (roots.lookup root).bind (·.view p) := rfl

/-- Adding a type to trees whose namespaces have the names their paths tell. -/
theorem grown_insertType (hname : (viewOf roots).Named (Bytes.join "."))
    (hlen : 2 ≤ (segments t.fullName).length) :
    Grown (Bytes.join ".") t (segments t.fullName) (viewOf roots)
      (viewOf (insertType stamp roots t)) := by
  obtain ⟨root, seg, rest, hs⟩ : ∃ root seg rest, segments t.fullName = root :: seg :: rest := by
    match h : segments t.fullName with
    | root :: seg :: rest => exact ⟨root, seg, rest, rfl⟩
    | [_] | [] => rw [h] at hlen; simp at hlen
  let ns := (roots.lookup root).getD (.mk stamp root [])
  have hinsert : insertType stamp roots t = setAssoc root (ns.insert t (seg :: rest)) roots := by
    unfold insertType
    rw [hs]
  have hroot : ns.name = root := by
    cases hl : roots.lookup root with
    | none => simp [ns, hl, Namespace.name]
    | some ns' =>
      have h := hname [root] ns'.name (by rw [viewOf_cons, hl]; rfl)
      simpa [ns, hl, Bytes.join] using h
  have hnameAt : ns.nameAt = fun p => Bytes.join "." (root :: p) := by
    rw [← hroot]
    rfl
  have hv : (∀ p, viewOf roots (root :: p) = ns.view p) ∨
      (∀ p, viewOf roots (root :: p) = none) ∧ ∀ p, p ≠ [] → ns.view p = none := by
    cases hl : roots.lookup root with
    | none =>
      refine .inr ⟨fun p => by rw [viewOf_cons, hl]; rfl, fun p hp => ?_⟩
      cases p with
      | nil => exact absurd rfl hp
      | cons s p => simp [ns, hl, Namespace.view, Namespace.find?, Namespace.members]
    | some ns' => exact .inl fun p => by simp [viewOf_cons, ns, hl]
  have hnamed : ns.view.Named ns.nameAt := by
    intro p n hp
    by_cases hp0 : p = []
    · rw [hp0] at hp ⊢
      cases hp
      exact Namespace.nameAt_nil.symm
    · rcases hv with hv | ⟨-, hnone⟩
      · rw [hnameAt]
        exact hname (root :: p) n (by rw [hv, hp])
      · rw [hnone p hp0] at hp
        cases hp
  have hlook (k : Bytes) : (insertType stamp roots t).lookup k =
      if k = root then some (ns.insert t (seg :: rest)) else roots.lookup k := by
    rw [hinsert, lookup_setAssoc]
  rw [hs]
  refine Grown.within (hnameAt ▸ Namespace.grown_insert t _ ns (List.cons_ne_nil _ _) hnamed)
    (List.cons_ne_nil _ _) rfl (fun u hu => by cases hu) (fun s p hne => ?_) (fun p => ?_) ?_ hv
  · rw [viewOf_cons, viewOf_cons, hlook, if_neg hne]
  · rw [viewOf_cons, hlook, if_pos rfl, Option.bind_some]
  · rw [Namespace.view_nil, hroot]
    simp [Bytes.join]

theorem nodup_insertType (h : (roots.map (·.1)).Nodup) :
    ((insertType stamp roots t).map (·.1)).Nodup := by
  unfold insertType
  split
  · exact nodup_setAssoc h
  · exact h

/-- No path leads through a type. -/
theorem Namespace.view_append {ns : Namespace} {p q : List Bytes} (h : ns.view p = some (.type t))
    (hq : q ≠ []) : ns.view (p ++ q) = none := by
  induction p generalizing ns with
  | nil => cases h
  | cons s p ih =>
    cases hf : ns.find? s with
    | none => exact view_none hf
    | some m =>
      cases m with
      | nspace sub =>
        rw [view_nspace hf] at h
        rw [List.cons_append, view_nspace hf, ih h]
      | type u =>
        rw [List.cons_append, view_type hf, if_neg fun happ => hq (List.append_eq_nil_iff.1 happ).2]

theorem not_blocks_of_found {q : List Bytes} {e : Found} (h : viewOf roots q = some e) :
    ¬ (viewOf roots).Blocks q := by
  rintro ⟨p, t, ⟨⟨r, rfl⟩, hne⟩, hp⟩
  have hr : r ≠ [] := fun hr => hne (by rw [hr, List.append_nil])
  cases p with
  | nil => cases hp
  | cons root p =>
    obtain ⟨ns, hns, hview⟩ := Option.bind_eq_some_iff.1 hp
    rw [List.cons_append, viewOf_cons, hns, Option.bind_some, Namespace.view_append hview hr] at h
    cases h

/-- The order of the trees does not matter. -/
theorem viewOf_perm {roots' : List (Bytes × Namespace)} (h : roots.Perm roots')
    (hn : (roots.map (·.1)).Nodup) : viewOf roots = viewOf roots' := by
  funext p
  cases p with
  | nil => rfl
  | cons root p => rw [viewOf_cons, viewOf_cons, lookup_perm h hn]

end

end Stencil
