import Mathlib
import Stencil.Host.Basic
import Stencil.Proofs.Literal.Plain
import Stencil.Proofs.Literal.Reading
import Stencil.Proofs.Direct.Evaluation
import Stencil.Proofs.Dispatch.History
import Stencil.Proofs.Generation.Simulation
import Stencil.Proofs.Nodes

/-!
# Evaluating a literal form

The code of an expression for plain data has no effect but new lists, and its value shows the
data. The only operation in it is negation, which is dispatched: its call sites may hold what
dispatches leave in them.

The main statement about `Value.repr`: for null, truth values, integers, byte strings and lists of
such values, the text it gives is an expression of the language, and the expression comes to the
same data. There is one exception, which is the grammar's: the least integer cannot be written as a
literal, since its digits without the sign are out of range.
-/

namespace Stencil

open Plain Gen

/-! ### Heaps with more lists -/

/-- The lists of a heap are those of another, which may have more. -/
structure Heap.Extends (s t : Heap) : Prop where
  size : s.lists.size ≤ t.lists.size
  list : ∀ id < s.lists.size, t.list id = s.list id

namespace Heap.Extends

variable {s t u : Heap}

theorem refl (s : Heap) : s.Extends s := ⟨le_rfl, fun _ _ => rfl⟩

theorem trans (h : s.Extends t) (h' : t.Extends u) : s.Extends u :=
  ⟨h.size.trans h'.size, fun id hid =>
    (h'.list id (hid.trans_le h.size)).trans (h.list id hid)⟩

/-- A new list leaves the others as they are. -/
theorem push (s : Heap) (items : Array Value) :
    s.Extends { s with lists := s.lists.push items } := by
  refine ⟨by simp, fun id hid => ?_⟩
  simp [Heap.list, Array.getD_eq_getD_getElem?, Array.getElem?_push, Nat.ne_of_lt hid]

end Heap.Extends

mutual

theorem Plain.Shows.mono {s t : Heap} {d : Plain} {v : Value} (h : d.Shows s v)
    (ht : s.Extends t) : d.Shows t v := by
  cases h with
  | null => exact .null
  | bool b => exact .bool b
  | int n => exact .int n
  | string b => exact .string b
  | @list ds id hid h => exact .list (hid.trans_le ht.size) (ht.list id hid ▸ h.mono ht)

theorem Plain.ShowAll.mono {s t : Heap} {ds : List Plain} {vs : List Value} (h : ShowAll s ds vs)
    (ht : s.Extends t) : ShowAll t ds vs := by
  cases h with
  | nil => exact .nil
  | cons hd hds => exact .cons (hd.mono ht) (hds.mono ht)

end

/-! ### The code of an expression for data -/

mutual

/-- Analysis has nothing to say about data. -/
theorem Expr.Denotes.findings {x : Expr} {d : Plain} (h : x.Denotes d) (sur : Surroundings)
    (write : Bool) : x.findings sur write = [] := by
  cases h with
  | null | bool | int | string | negative => rfl
  | list h => exact h.findings sur

theorem DenoteAll.findings {xs : List Expr} {ds : List Plain} (h : DenoteAll xs ds)
    (sur : Surroundings) : exprsFindings sur xs = [] := by
  cases h with
  | nil => rfl
  | cons hx hxs => rw [exprsFindings, hx.findings, hxs.findings, List.append_nil]

end

mutual

/-- The generator puts the lowering of data on the stack, whatever the names around stand for. -/
theorem Expr.Denotes.emits {x : Expr} {d : Plain} (h : x.Denotes d) (env : LowerEnv)
    (sur : Surroundings) (write : Bool) :
    Emits env (x.walk sur write) (fun n => [⟨x.start, x.lower env n⟩]) x.after := by
  have literal {p raw v} : Emits env ((Expr.literal p raw v).walk sur false)
      (fun n => [⟨(Expr.literal p raw v).start, (Expr.literal p raw v).lower env n⟩])
      (Expr.literal p raw v).after :=
    emits_nil.visit rfl fun _ _ _ => run_push_emit _ _
  cases h with
  | null | bool | int | string => exact emits_nil.visit rfl fun _ _ _ => run_push_emit _ _
  | negative =>
    exact literal.visit rfl fun _ _ _ =>
      run_then run_pop_one <| run_then run_newSite_emit <| run_checked_push (fits_unaryCode ..)
  | list h =>
    exact (h.emits env sur).visit rfl fun _ _ _ =>
      run_then (run_popN_all (length_exprItems ..)) <| run_push_emit _ _

theorem DenoteAll.emits {xs : List Expr} {ds : List Plain} (h : DenoteAll xs ds) (env : LowerEnv)
    (sur : Surroundings) : Emits env (exprsWalk sur xs) (exprItems env xs) (exprsAfter xs) := by
  cases h with
  | nil => exact emits_nil
  | cons hx hxs => exact (hx.emits env sur false).append (hxs.emits env sur)

end

/-- Surroundings of a construct where the generator is. -/
def Generator.surroundings (g : Generator) (debug : Bool) (roots : List (Bytes × Namespace)) :
    LowerEnv where
  debug := debug
  isPredeclared := fun _ => false
  globals := {}
  roots := roots
  regions := g.regions
  owner := g.fn.owner
  ownerName := g.fn.ownerName
  ret := g.fn.ret
  loops := g.fn.loops

/-- Code is generated for data in every state of the generator. -/
theorem Expr.Denotes.generated {x : Expr} {d : Plain} (h : x.Denotes d) (sur : Surroundings)
    (debug : Bool) (roots : List (Bytes × Namespace)) (g : Generator) :
    ∃ env n g', Gen.Runs debug roots (x.walk sur false) g g' ∧
      g'.stack = ⟨x.start, x.lower env n⟩ :: g.stack :=
  ⟨_, _, _, h.emits (g.surroundings debug roots) sur false g ⟨rfl, rfl, rfl, rfl, rfl⟩, rfl⟩

theorem sites_noteAt (debug : Bool) (pos : Position) (c : Code) :
    (noteAt debug pos c).sites = c.sites := by
  unfold noteAt
  split
  · rfl
  · split
    · rfl
    · exact Code.gather_debug Code.site? c pos

mutual

/-- The only operation is negation. -/
theorem Expr.Denotes.kind_eq {x : Expr} {d : Plain} (h : x.Denotes d) (env : LowerEnv)
    (n : Numbering) : ∀ site ∈ (x.lower env n).sites, site.kind = .unary := by
  cases h with
  | null | bool | int | string => exact fun site hsite => absurd hsite (List.not_mem_nil)
  | @negative p q raw m =>
    intro site hsite
    have hnone : ((Expr.literal q raw (.int m)).lower env n).sites = [] := rfl
    rw [Expr.lower, unaryCode, Code.sites, ← Code.gather, Code.gather_dynamic, gatherAll_cons,
      gatherAll_nil, List.append_nil, Code.gather, ← Code.sites, sites_noteAt, hnone,
      List.append_nil] at hsite
    obtain rfl := List.mem_singleton.1 hsite
    rfl
  | @list p xs q ds h =>
    rw [Expr.lower, Code.sites, ← Code.gather, Code.gather_list]
    exact h.kind_eq env n

theorem DenoteAll.kind_eq {xs : List Expr} {ds : List Plain} (h : DenoteAll xs ds)
    (env : LowerEnv) (n : Numbering) :
    ∀ site ∈ gatherAll Code.site? ((exprItems env xs n).map (·.noted env.debug)),
      site.kind = .unary := by
  cases h with
  | nil => exact fun site hsite => absurd hsite (List.not_mem_nil)
  | @cons x d xs ds hx hxs =>
    rw [exprItems, List.map_cons, gatherAll_cons]
    intro site hsite
    obtain hsite | hsite := List.mem_append.1 hsite
    · exact hx.kind_eq env n site (sites_noteAt env.debug x.start _ ▸ hsite)
    · exact hxs.kind_eq env (x.after n) site hsite

end

section

variable [Host]

/-! ### Negation -/

/-- What dispatches leave in the cache of a unary operation is the one binding there is. -/
theorem Touched.unary {site : CallSite} {c : InlineCache Binding} (h : Touched site c)
    (hk : site.kind = .unary) {e : Shape × Binding} (he : c.entry = some e) : e.2 = .unary := by
  induction h with
  | fresh => cases he
  | lookup shape _ ih =>
    rw [InlineCache.entry_lookup] at he
    exact ih he
  | store _ _ hres _ =>
    cases he
    rw [CallSite.resolve, hk] at hres
    exact (Except.ok.inj hres).symm
  | reset => cases he

/-- The caches of the call sites hold the binding of unary operations, if anything. -/
def Caches.HoldUnary (c : Caches) (unit : Nat) (sites : List CallSite) : Prop :=
  ∀ site ∈ sites, ∀ e, (c.ofSite unit site.id).entry = some e → e.2 = .unary

omit [Host] in
theorem Caches.HoldUnary.lookup {c : Caches} {unit : Nat} {sites : List CallSite}
    (h : c.HoldUnary unit sites) (id : Nat) (shape : Shape) :
    (c.lookup unit id shape).2.HoldUnary unit sites := by
  intro site hsite e he
  rcases c.ofSite_lookup unit id unit site.id shape with heq | ⟨-, rfl, heq⟩
  · exact h site hsite e (heq ▸ he)
  · rw [heq, InlineCache.entry_lookup] at he
    exact h site hsite e he

omit [Host] in
theorem Caches.HoldUnary.store {c : Caches} {unit : Nat} {sites : List CallSite}
    (h : c.HoldUnary unit sites) (id : Nat) (shape : Shape) :
    (c.modify unit id (·.store shape .unary)).HoldUnary unit sites := by
  intro site hsite e he
  rcases c.ofSite_modify unit id unit site.id (·.store shape .unary) with heq | ⟨-, rfl, heq⟩
  · exact h site hsite e (heq ▸ he)
  · rw [heq] at he
    cases he
    rfl

/-- A negation that is dispatched negates. -/
theorem dispatch_negate {s : Store} {unit : Nat} {sites : List CallSite} {site : CallSite}
    (hsite : site ∈ sites) (hk : site.kind = .unary) (hop : site.op = .unary .negate)
    (hc : s.caches.HoldUnary unit sites) (call : Callback) (fuel ctx : Nat) (n : Int64) :
    ∃ c, c.HoldUnary unit sites ∧
      dispatch call fuel ctx unit site [.int n] s = .ok (.int (-n)) (s.withCaches c) := by
  have hcarry (t : Store) : site.carryOut call fuel ctx [.int n] .unary t = .ok (.int (-n)) t := by
    have happly : applyUnary site.op (.int n) = pure (.int (-n)) := by
      rw [hop]
      rfl
    have hperform : site.perform fuel [.int n] .unary = pure (.value (.int (-n))) := by
      show applyUnary site.op (.int n) >>= _ = _
      rw [happly]
      rfl
    rw [CallSite.carryOut, hperform]
    rfl
  have hstray : site.isStray (.int n) .null = false := by
    simp [CallSite.isStray, hk, Value.isDisguised]
  have hon : dispatch call fuel ctx unit site [.int n] s =
      dispatchOn call fuel ctx unit site [.int n] (.int n) .null s := by
    rw [dispatch]
    simp only [hk]
    rfl
  have hlooked := hc.lookup site.id (site.shape s.toHeap (.int n) .null)
  have hfound : (s.caches.lookup unit site.id (site.shape s.toHeap (.int n) .null)).1 =
      (s.caches.ofSite unit site.id).find? (site.shape s.toHeap (.int n) .null) :=
    InlineCache.fst_lookup ..
  have hres : site.resolve s.toHeap (.int n) .null = .ok .unary := by
    rw [CallSite.resolve, hk]
  rw [hon, dispatchOn_apply hstray]
  dsimp only
  rw [hfound]
  cases hf : (s.caches.ofSite unit site.id).find? (site.shape s.toHeap (.int n) .null) with
  | some b =>
    have hb : b = .unary := by
      unfold InlineCache.find? at hf
      split at hf
      · rename_i shape target he
        split at hf
        · cases hf
          exact hc site hsite _ he
        · cases hf
      · cases hf
    subst hb
    exact ⟨_, hlooked, hcarry _⟩
  | none =>
    rw [hres]
    exact ⟨_, hlooked.store _ _, by rw [resolveOn_apply, Store.toHeap_withCaches, hres]; exact hcarry _⟩

/-! ### Evaluation -/

/-- The computation succeeds, with no effect on the heap but new lists, and what it comes to
satisfies `Q`. The caches of the given call sites are those of unary operations, and stay so. -/
def Builds {α : Type} (unit : Nat) (sites : List CallSite) (m : Eval α) (Q : Heap → α → Prop) :
    Prop :=
  ∀ s : Store, s.caches.HoldUnary unit sites → ∃ a t, m.run s = .ok (.ok a) t ∧ Q t.toHeap a ∧
    s.toHeap.Extends t.toHeap ∧ t.caches.HoldUnary unit sites

namespace Builds

variable {α β : Type} {unit : Nat} {sites : List CallSite} {m : Eval α} {Q : Heap → α → Prop}

omit [Host] in
theorem pure_ {a : α} (h : ∀ s, Q s a) : Builds unit sites (pure a) Q :=
  fun s hs => ⟨a, s, rfl, h _, .refl _, hs⟩

variable {call : Callback} {fuel : Nat} {act : Activation}

/-- A note of a place has no effect on the heap. -/
theorem noted {c : Code} {Q : Heap → Value → Prop}
    (h : Builds unit sites (c.eval call fuel act) Q) (debug : Bool) (pos : Position) :
    Builds unit sites ((noteAt debug pos c).eval call fuel act) Q := by
  intro s hs
  rw [eval_noteAt, Activation.at_]
  split
  · exact h s hs
  · obtain ⟨a, t, hrun, hq, hext, ht⟩ := h (act.moved pos s) hs
    refine ⟨a, t, ?_, hq, hext, ht⟩
    rw [run_bind_apply, run_lift_apply, Activation.moveTo_apply]
    dsimp only
    rw [run_locate_apply, hrun]

theorem list {cs : List Code} {ds : List Plain}
    (h : Builds unit sites (evalArgs call fuel act cs) fun s vs => ShowAll s ds vs) :
    Builds unit sites ((Code.list cs).eval call fuel act) fun s v => Plain.Shows s (.list ds) v := by
  intro s hs
  obtain ⟨vs, t, hrun, hq, hext, ht⟩ := h s hs
  have hpush := Heap.Extends.push t.toHeap vs.toArray
  refine ⟨.list t.lists.size, { t with lists := t.lists.push vs.toArray }, ?_, ?_,
    hext.trans hpush, ht⟩
  · rw [Code.eval, run_bind_apply, hrun]
    rfl
  · refine .list (by simp) ?_
    have hlist : ({ t with lists := t.lists.push vs.toArray } : Store).toHeap.list t.lists.size =
        vs.toArray := by
      simp [Heap.list, Array.getD_eq_getD_getElem?]
    rw [hlist]
    exact hq.mono hpush

theorem negate {c : Code} {n : Int64} {site : CallSite} (hsite : site ∈ sites)
    (hk : site.kind = .unary) (hop : site.op = .unary .negate)
    (h : Builds act.unit sites (c.eval call fuel act) fun s v => Plain.Shows s (.int n) v) :
    Builds act.unit sites ((Code.dynamic site [c]).eval call fuel act)
      fun s v => Plain.Shows s (.int (-n)) v := by
  intro s hs
  obtain ⟨v, t, hrun, hq, hext, ht⟩ := h s hs
  cases hq
  obtain ⟨c', hc', hdispatch⟩ := dispatch_negate hsite hk hop ht call fuel act.ctx n
  refine ⟨.int (-n), t.withCaches c', ?_, .int _, hext, hc'⟩
  have hoperate : act.operate call fuel site [.int n] =
      dispatch call fuel act.ctx act.unit site [.int n] := by
    simp only [Activation.operate, hk]
  rw [eval_dynamic, evalArgs_cons_bind, run_bind_apply, hrun]
  dsimp only
  rw [evalArgs_nil_bind, hoperate, run_lift_apply, hdispatch]

theorem nil : Builds unit sites (evalArgs call fuel act []) fun s vs => ShowAll s [] vs := by
  rw [evalArgs]
  exact .pure_ fun _ => .nil

theorem cons {c : Code} {cs : List Code} {d : Plain} {ds : List Plain}
    (h : Builds unit sites (c.eval call fuel act) fun s v => d.Shows s v)
    (hs : Builds unit sites (evalArgs call fuel act cs) fun s vs => ShowAll s ds vs) :
    Builds unit sites (evalArgs call fuel act (c :: cs)) fun s vs => ShowAll s (d :: ds) vs := by
  intro s hheld
  obtain ⟨v, t, hrun, hv, hext, ht⟩ := h s hheld
  obtain ⟨vs, u, hrun', hvs, hext', hu⟩ := hs t ht
  refine ⟨v :: vs, u, ?_, .cons (hv.mono hext') hvs, hext.trans hext', hu⟩
  rw [evalArgs, run_bind_apply, hrun]
  dsimp only
  rw [run_bind_apply, hrun']
  rfl

end Builds

/-! ### Expressions for data -/

variable {call : Callback} {fuel : Nat} {act : Activation} {sites : List CallSite}

mutual

/-- An expression for a tree comes to a value that shows it. -/
theorem Expr.Denotes.builds {x : Expr} {d : Plain} (h : x.Denotes d) (env : LowerEnv)
    (n : Numbering) (hsites : (x.lower env n).sites ⊆ sites) :
    Builds act.unit sites ((x.lower env n).eval call fuel act) fun s v => d.Shows s v := by
  have constant {v : Value} (hv : ∀ s, d.Shows s v) :
      Builds act.unit sites ((Code.constant v).eval call fuel act) fun s v => d.Shows s v := by
    rw [Code.eval]
    exact .pure_ hv
  cases h with
  | null => exact constant fun _ => .null
  | bool => exact constant fun _ => .bool _
  | int => exact constant fun _ => .int _
  | string => exact constant fun _ => .string _
  | @negative p q raw m =>
    have hx : (Expr.literal q raw (.int m)).Denotes (.int m) := .int
    rw [Expr.lower, unaryCode]
    refine .negate (hsites ?_) rfl rfl (.noted ?_ _ _)
    · show _ ∈ (Code.dynamic _ _).gather Code.site?
      rw [Code.gather_dynamic]
      exact List.mem_cons_self
    · rw [Expr.lower, Code.eval]
      exact .pure_ fun _ => .int m
  | @list p xs q ds h =>
    rw [Expr.lower]
    refine .list (h.builds env n ?_)
    rwa [Expr.lower, Code.sites, ← Code.gather, Code.gather_list] at hsites

theorem DenoteAll.builds {xs : List Expr} {ds : List Plain} (h : DenoteAll xs ds) (env : LowerEnv)
    (n : Numbering)
    (hsites : gatherAll Code.site? ((exprItems env xs n).map (·.noted env.debug)) ⊆ sites) :
    Builds act.unit sites
      (evalArgs call fuel act ((exprItems env xs n).map (·.noted env.debug)))
      fun s vs => ShowAll s ds vs := by
  cases h with
  | nil => exact .nil
  | @cons x d xs ds hx hxs =>
    rw [exprItems, List.map_cons, gatherAll_cons, List.append_subset] at hsites
    rw [exprItems, List.map_cons]
    refine .cons (.noted (hx.builds env n ?_) _ _) (hxs.builds env (x.after n) hsites.2)
    rw [← sites_noteAt env.debug x.start]
    exact hsites.1

end

/-- An expression for a tree is evaluated without fail, with whatever its call sites have cached,
to a value that shows the tree. The lists there were before stay as they are. -/
theorem Expr.Denotes.eval {x : Expr} {d : Plain} (h : x.Denotes d) (env : LowerEnv) (n : Numbering)
    (call : Callback) (fuel : Nat) (act : Activation) (s : Store)
    (hc : ∀ site ∈ (x.lower env n).sites, Touched site (s.caches.ofSite act.unit site.id)) :
    ∃ v t, ((x.lower env n).eval call fuel act).run s = .ok (.ok v) t ∧ d.Shows t.toHeap v ∧
      s.toHeap.Extends t.toHeap := by
  have hheld : s.caches.HoldUnary act.unit (x.lower env n).sites :=
    fun site hsite e he => (hc site hsite).unary (h.kind_eq env n site hsite) he
  have hbuilds : Builds act.unit (x.lower env n).sites ((x.lower env n).eval call fuel act)
      fun s v => d.Shows s v := h.builds env n (List.Subset.refl _)
  obtain ⟨v, t, hrun, hv, hext, -⟩ := hbuilds s hheld
  exact ⟨v, t, hrun, hv, hext⟩

end

/-! ### The readable form -/

/-- The readable form of plain data is an expression for them. If the least integer is not among
them, the text is parsed, analysis has nothing to say about the expression, and wherever the
generator is, it puts code on the stack for it that is evaluated to the same data. Otherwise the
text is refused for the digits of the least integer, which are no token. The bytes between the
quotes of a string, whatever they stand for, denote the string. -/
theorem Value.repr_reads [Host] {s : Heap} {d : Plain} {v : Value} (h : d.Shows s v)
    (file : Bytes) :
    (¬ d.Contains Int64.minValue →
      ∃ x, parseExpr file (v.repr s) = .ok x ∧ ∀ sur : Surroundings,
        x.findings sur false = [] ∧
        ∀ (debug : Bool) (roots : List (Bytes × Namespace)) (g : Generator),
          ∃ (c : Code) (g' : Generator), Runs debug roots (x.walk sur false) g g' ∧
            g'.stack = ⟨x.start, c⟩ :: g.stack ∧
            ∀ (call : Callback) (fuel : Nat) (act : Activation) (t : Store),
              (∀ site ∈ c.sites, Touched site (t.caches.ofSite act.unit site.id)) →
              ∃ (w : Value) (u : Store), (c.eval call fuel act).run t = .ok (.ok w) u ∧
                d.Shows u.toHeap w ∧ t.toHeap.Extends u.toHeap) ∧
    (d.Contains Int64.minValue →
      ∃ e, (scan file (v.repr s)).fault = some e ∧ parseExpr file (v.repr s) = .error e ∧
        e.cause = .intOutOfRange "9223372036854775808") ∧
    ∀ b : Bytes, ∃ body, b.quote = Bytes.ofChars ('"' :: body ++ ['"']) ∧
      unquoteBody? '"' body = some b := by
  rw [h.repr]
  refine ⟨fun hmin => ?_, fun hmin => ?_, fun b => ?_⟩
  · obtain ⟨x, hx, hden⟩ := Plain.parseExpr_literal file hmin
    refine ⟨x, hx, fun sur => ⟨hden.findings sur false, fun debug roots g => ?_⟩⟩
    obtain ⟨env, n, g', hrun, hstack⟩ := hden.generated sur debug roots g
    exact ⟨_, g', hrun, hstack, hden.eval env n⟩
  · obtain ⟨q, hscan, hparse⟩ := Plain.parseExpr_literal_min file hmin
    exact ⟨_, hscan, hparse, rfl⟩
  · obtain ⟨body, hquote, -, hread⟩ := quote_eq_ofChars b
    exact ⟨body, hquote, hread⟩

/-- A list in a list, a negative number and a byte that is part of no character; and the least
integer. -/
theorem Value.repr_reads_list :
    let s : Heap := { lists :=
      #[#[.list 1, .int (-5), .string [255, 10]], #[.null, .bool true], #[.int Int64.minValue]] }
    @Value.repr standalone.toHost s (.list 0) = "[[null, true], -5, \"\\xff\\n\"]" ∧
      (∃ x, parseExpr [] (@Value.repr standalone.toHost s (.list 0)) = .ok x) ∧
      ∃ e, parseExpr [] (@Value.repr standalone.toHost s (.list 2)) = .error e ∧
        e.cause = .intOutOfRange "9223372036854775808" := by
  intro s
  have inner : (Plain.list [.null, .bool true]).Shows s (.list 1) :=
    .list (by decide) (.cons .null (.cons (.bool true) .nil))
  have outer : (Plain.list [.list [.null, .bool true], .int (-5), .string [255, 10]]).Shows s
      (.list 0) :=
    .list (by decide) (.cons inner (.cons (.int (-5)) (.cons (.string [255, 10]) .nil)))
  have least : (Plain.list [.int Int64.minValue]).Shows s (.list 2) :=
    .list (by decide) (.cons (.int Int64.minValue) .nil)
  have hnone : ¬ (Plain.list [.list [.null, .bool true], .int (-5), .string [255, 10]]).Contains
      Int64.minValue := by
    simp only [Plain.contains_list, List.mem_cons, List.not_mem_nil, or_false]
    rintro ⟨d, rfl | rfl | rfl, hc⟩
    · obtain ⟨e, he, hc⟩ := Plain.contains_list.1 hc
      obtain rfl | rfl : e = .null ∨ e = .bool true := by simpa using he
      · cases hc
      · cases hc
    · exact absurd (Plain.contains_int.1 hc) (by decide)
    · cases hc
  obtain ⟨x, hx, -⟩ := (@Value.repr_reads standalone.toHost _ _ _ outer []).1 hnone
  obtain ⟨e, -, he, hcause⟩ := (@Value.repr_reads standalone.toHost _ _ _ least []).2.1
    (.list List.mem_cons_self .int)
  refine ⟨?_, ⟨x, hx⟩, e, he, hcause⟩
  rw [@Plain.Shows.repr standalone.toHost _ _ _ outer]
  decide_cbv

end Stencil
