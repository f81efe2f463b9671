import Stencil.Proofs.Marks

/-!
# Well-formed code

What evaluation relies on, as a judgement on code. Each variable belongs to a lambda around it
and is one of its slots; names are assigned to, and the states of loops are not, but where the
loop begins. A jump has the target of a label, a loop or a block around it in the same lambda.
Conditions are tests, which have truth values. The parts that may be missing are told apart from
those that may not. A capture begins and ends in one place, and the context it is asked of is the
one the module runs in.

The judgement is relative to the slots that names have; the other slots of a lambda hold the
states of loops, and the first one of a module its context.
-/

namespace Stencil

/-! ### Settings -/

/-- What code stands in. -/
structure Setting where
  /-- The lambdas around with the numbers of their slots, the innermost first. -/
  scopes : List (Nat × Nat)
  /-- The targets of jumps. -/
  targets : List Nat := []
  /-- The slots that hold the states of the loops around. -/
  held : List (Nat × Nat) := []

namespace Setting

/-- A variable is a slot of a lambda around. -/
def Has (Γ : Setting) (v : Variable) : Prop := ∃ size, Γ.scopes.lookup v.owner = some size ∧ v.index < size

/-- With more targets. -/
def aim (Γ : Setting) (targets : List Nat) : Setting := { Γ with targets := targets ++ Γ.targets }

/-- Inside a loop over a sequence. -/
def hold (Γ : Setting) (state : Variable) : Setting := { Γ with held := state.key :: Γ.held }

/-- Inside a new lambda. No jump leaves it. -/
def enter (Γ : Setting) (id size : Nat) : Setting := { scopes := (id, size) :: Γ.scopes }

@[simp] theorem scopes_aim (Γ : Setting) (targets : List Nat) : (Γ.aim targets).scopes = Γ.scopes := rfl

@[simp] theorem held_aim (Γ : Setting) (targets : List Nat) : (Γ.aim targets).held = Γ.held := rfl

@[simp] theorem scopes_hold (Γ : Setting) (state : Variable) : (Γ.hold state).scopes = Γ.scopes := rfl

@[simp] theorem targets_hold (Γ : Setting) (state : Variable) : (Γ.hold state).targets = Γ.targets := rfl

theorem Has.of_scopes {Γ Δ : Setting} {v : Variable} (h : Γ.Has v) (hs : Δ.scopes = Γ.scopes) :
    Δ.Has v := by
  unfold Has
  rw [hs]
  exact h

end Setting

/-- A slot of the innermost lambda that holds states of loops. -/
structure Setting.StateSlot (user : Nat × Nat → Prop) (Γ : Setting) (v : Variable) : Prop where
  has : Γ.Has v
  owner : Γ.scopes.head?.map (·.1) = some v.owner
  unnamed : ¬ user v.key
  ne_context : v.key ≠ contextVariable.key

/-- The target that a label marks. -/
def Code.label? (c : Code) : Option Nat :=
  match c.unwrap with
  | .label t _ => some t.id
  | _ => none

/-- The targets of the labels among items. -/
def labelsOf (items : List Code) : List Nat := items.filterMap Code.label?

/-! ### The judgement -/

/-- What code is used for. -/
inductive Role where
  /-- It has a value. -/
  | value
  /-- It has a truth value. -/
  | test
  /-- It makes the state of a loop. -/
  | state
  /-- It may be missing. -/
  | part
  /-- It is an arm of a switch. -/
  | arm
  deriving DecidableEq

/-- Code is well-formed where names have certain slots. -/
inductive Code.Typed (user : Nat × Nat → Prop) : Setting → Role → Code → Prop where
  | constant {Γ : Setting} (v : Value) : Typed user Γ .value (.constant v)
  | empty {Γ : Setting} : Typed user Γ .value .empty
  | var {Γ : Setting} {v : Variable} (hv : Γ.Has v) : Typed user Γ .value (.var v)
  | assign {Γ : Setting} {v : Variable} {x : Code} (hv : Γ.Has v) (hu : user v.key)
      (hx : Typed user Γ .value x) : Typed user Γ .value (.assign v x)
  | block {Γ : Setting} {vars : List Variable} {items : List Code}
      (hv : ∀ v ∈ vars, Γ.Has v ∧ user v.key)
      (hi : ∀ c ∈ items, Typed user (Γ.aim (labelsOf items)) .value c) :
      Typed user Γ .value (.block vars items)
  | lambda {Γ : Setting} {id : Nat} {name : Bytes} {params : List Variable} {size : Nat} {body : Code}
      (hp : params.length ≤ size) (hb : Typed user (Γ.enter id size) .value body) :
      Typed user Γ .value (.lambda id name params size body)
  | cond {Γ : Setting} {test yes no : Code} (ht : Typed user Γ .test test)
      (hy : Typed user Γ .value yes) (hn : Typed user Γ .part no) :
      Typed user Γ .value (.cond test yes no)
  | loop {Γ : Setting} {brk : Target} {cont : Option Target} {body : Code}
      (hb : Typed user (Γ.aim (brk.id :: (cont.map (·.id)).toList)) .value body) :
      Typed user Γ .value (.loop brk cont body)
  | label {Γ : Setting} {t : Target} {dflt : Code} (hd : Typed user Γ .part dflt) :
      Typed user Γ .value (.label t dflt)
  | goto {Γ : Setting} {t : Target} {x : Code} (ht : t.id ∈ Γ.targets) (hx : Typed user Γ .part x) :
      Typed user Γ .value (.goto t x)
  | switch {Γ : Setting} {x : Code} {cases : List Code} {dflt : Code} {equal : CallSite}
      (hx : Typed user Γ .value x) (hc : ∀ c ∈ cases, Typed user Γ .arm c)
      (hd : Typed user Γ .part dflt) : Typed user Γ .value (.switch x cases dflt equal)
  | arm {Γ : Setting} {values : List Code} {body : Code} (hv : ∀ c ∈ values, Typed user Γ .value c)
      (hb : Typed user Γ .value body) : Typed user Γ .arm (.case values body)
  | write {Γ : Setting} (hc : Γ.Has contextVariable) (text : Bytes) :
      Typed user Γ .value (contextCode .write [.constant (.string text)])
  | safeWrite {Γ : Setting} {x : Code} (hc : Γ.Has contextVariable) (hx : Typed user Γ .value x) :
      Typed user Γ .value (contextCode .safeWrite [x])
  | globals {Γ : Setting} (hc : Γ.Has contextVariable) : Typed user Γ .value globalsCode
  | template {Γ : Setting} {tmp : Variable} {body : Code} (hc : Γ.Has contextVariable)
      (hv : Γ.Has tmp) (hu : user tmp.key) (hb : Typed user Γ .value body) :
      Typed user Γ .value (templateCode tmp body)
  | dynamic {Γ : Setting} {site : CallSite} {args : List Code}
      (ha : ∀ c ∈ args, Typed user Γ .value c) : Typed user Γ .value (.dynamic site args)
  | filter {Γ : Setting} {x pred : Code} (hx : Typed user Γ .value x)
      (hp : Typed user Γ .value pred) : Typed user Γ .value (.filter x pred)
  | list {Γ : Setting} {items : List Code} (hi : ∀ c ∈ items, Typed user Γ .value c) :
      Typed user Γ .value (.list items)
  | current {Γ : Setting} {v : Variable} (hv : Γ.Has v) (hh : v.key ∈ Γ.held) :
      Typed user Γ .value (.current (.var v))
  | not {Γ : Setting} {x : Code} (hx : Typed user Γ .test x) : Typed user Γ .test (.not x)
  | toBool {Γ : Setting} {x : Code} (hx : Typed user Γ .value x) : Typed user Γ .test (.toBool x)
  | andAlso {Γ : Setting} {x y : Code} (hx : Typed user Γ .test x) (hy : Typed user Γ .test y) :
      Typed user Γ .test (.andAlso x y)
  | orElse {Γ : Setting} {x y : Code} (hx : Typed user Γ .test x) (hy : Typed user Γ .test y) :
      Typed user Γ .test (.orElse x y)
  | moveNext {Γ : Setting} {v : Variable} (hv : Γ.Has v) (hh : v.key ∈ Γ.held) :
      Typed user Γ .test (.moveNext (.var v))
  | iterate {Γ : Setting} {x : Code} (hx : Typed user Γ .value x) : Typed user Γ .state (.iterate x)
  | start {Γ : Setting} {v : Variable} {x : Code} (hs : Γ.StateSlot user v)
      (hx : Typed user Γ .value x) : Typed user Γ .state (.assign v (.iterate x))
  | each {Γ : Setting} {vars : List Variable} {state : Variable} {x body : Code}
      (hv : ∀ v ∈ vars, Γ.Has v ∧ user v.key) (hs : Γ.StateSlot user state)
      (hf : state.key ∉ Γ.held) (hx : Typed user Γ .value x)
      (hb : Typed user (Γ.hold state) .value body) :
      Typed user Γ .value (.block (vars ++ [state]) [.assign state (.iterate x), body])
  | noted {Γ : Setting} {pos : Position} {x : Code} (hx : Typed user Γ .value x) :
      Typed user Γ .value (.debug pos x)
  | missing {Γ : Setting} : Typed user Γ .part .absent
  | present {Γ : Setting} {x : Code} (hx : Typed user Γ .value x) : Typed user Γ .part x
  | asValue {Γ : Setting} {x : Code} (hx : Typed user Γ .test x) : Typed user Γ .value x

/-! ### Nodes -/

/-- Whether a node ends a capture. -/
def Code.isClosing : Code → Bool
  | .contextCall .popWriter _ _ => true
  | _ => false

/-- Whether a node begins or ends a capture. Such a node stands only inside a template. -/
def Code.isBracket : Code → Bool
  | .contextCall .pushWriter _ _ | .tryFinally _ _ => true
  | .assign _ x => x.isClosing
  | c => c.isClosing

/-- The nodes of a template at which its capture begins or ends. -/
inductive Code.Bracket (user : Nat × Nat → Prop) : Code → Prop where
  | opening : Bracket user (contextCode .pushWriter [])
  | around {Γ : Setting} {tmp : Variable} {body : Code} (hu : user tmp.key)
      (hb : body.Typed user Γ .value) :
      Bracket user (.tryFinally body (.assign tmp (contextCode .popWriter [])))
  | capture {tmp : Variable} (hu : user tmp.key) :
      Bracket user (.assign tmp (contextCode .popWriter []))
  | closing : Bracket user (contextCode .popWriter [])

theorem Code.Bracket.isBracket {user : Nat × Nat → Prop} {d : Code} (h : d.Bracket user) :
    d.isBracket = true := by
  cases h <;> rfl

theorem Code.Typed.isClosing {user : Nat × Nat → Prop} {Γ : Setting} {r : Role} {c : Code}
    (h : c.Typed user Γ r) : c.isClosing = false := by
  induction h with
  | present _ ih | asValue _ ih => exact ih
  | _ => rfl

/-- Well-formed code neither begins nor ends a capture without the other. -/
theorem Code.Typed.isBracket {user : Nat × Nat → Prop} {Γ : Setting} {r : Role} {c : Code}
    (h : c.Typed user Γ r) : c.isBracket = false := by
  induction h with
  | assign _ _ hx _ => exact hx.isClosing
  | present _ ih | asValue _ ih => exact ih
  | _ => rfl

/-- A node that is well-formed in some setting, or begins or ends a capture. -/
def Code.Placed (user : Nat × Nat → Prop) (d : Code) : Prop :=
  d.Bracket user ∨ ∃ Γ r, d.Typed user Γ r

section

variable {user : Nat × Nat → Prop} {Γ : Setting} {r : Role} {c : Code}

/-- Each node of well-formed code is well-formed, but where a capture begins or ends. -/
theorem Code.Typed.nodes (h : c.Typed user Γ r) : ∀ d ∈ c.nodes, d.Placed user := by
  have here {Δ : Setting} {r : Role} {c : Code} {ds : List Code} (hc : c.Typed user Δ r)
      (hds : ∀ d ∈ ds, d.Placed user) : ∀ d ∈ c :: ds, d.Placed user :=
    List.forall_mem_cons.2 ⟨.inr ⟨Δ, r, hc⟩, hds⟩
  have both {xs ys : List Code} (hx : ∀ d ∈ xs, d.Placed user) (hy : ∀ d ∈ ys, d.Placed user) :
      ∀ d ∈ xs ++ ys, d.Placed user := List.forall_mem_append.2 ⟨hx, hy⟩
  have none : ∀ d ∈ ([] : List Code), d.Placed user := fun _ hd => absurd hd List.not_mem_nil
  have context {Δ : Setting} (hc : Δ.Has contextVariable) :
      ∀ d ∈ (Code.var contextVariable).nodes, d.Placed user := here (.var hc) none
  induction h with
  | constant v => exact here (.constant (Γ := Γ) v) none
  | empty => exact here (.empty (Γ := Γ)) none
  | var hv => exact here (.var hv) none
  | assign hv hu hx ih => exact here (.assign hv hu hx) ih
  | block hv hi ih => exact here (.block hv hi) (forall_nodesOf.2 ih)
  | lambda hp hb ih => exact here (.lambda hp hb) ih
  | cond ht hy hn iht ihy ihn => exact here (.cond ht hy hn) (both (both iht ihy) ihn)
  | loop hb ih => exact here (.loop hb) ih
  | label hd ih => exact here (.label hd) ih
  | goto ht hx ih => exact here (.goto ht hx) ih
  | switch hx hc hd ihx ihc ihd =>
    exact here (.switch hx hc hd) (both (both ihx (forall_nodesOf.2 ihc)) ihd)
  | arm hv hb ihv ihb => exact here (.arm hv hb) (both (forall_nodesOf.2 ihv) ihb)
  | write hc text =>
    exact here (.write hc text) (both (context hc) (here (.constant (Γ := Γ) _) none))
  | safeWrite hc hx ih => exact here (.safeWrite hc hx) (both (context hc) (both ih none))
  | globals hc => exact here (.globals hc) (both (context hc) none)
  | @template Δ tmp body hc hv hu hb ih =>
    have bracket {d : Code} {ds : List Code} (hd : d.Bracket user)
        (hds : ∀ d ∈ ds, d.Placed user) : ∀ e ∈ d :: ds, e.Placed user :=
      List.forall_mem_cons.2 ⟨.inl hd, hds⟩
    refine here (.template hc hv hu hb) ?_
    refine both (bracket .opening (both (context hc) none))
      (both (bracket (.around hu hb) (both ih ?_)) ?_)
    · exact bracket (.capture hu) (bracket .closing (both (context hc) none))
    · exact both (here (.var hv) none) none
  | dynamic ha ih => exact here (.dynamic ha) (forall_nodesOf.2 ih)
  | filter hx hp ihx ihp => exact here (.filter hx hp) (both ihx ihp)
  | list hi ih => exact here (.list hi) (forall_nodesOf.2 ih)
  | current hv hh => exact here (.current hv hh) (here (.var hv) none)
  | not hx ih => exact here (.not hx) ih
  | toBool hx ih => exact here (.toBool hx) ih
  | andAlso hx hy ihx ihy => exact here (.andAlso hx hy) (both ihx ihy)
  | orElse hx hy ihx ihy => exact here (.orElse hx hy) (both ihx ihy)
  | moveNext hv hh => exact here (.moveNext hv hh) (here (.var hv) none)
  | iterate hx ih => exact here (.iterate hx) ih
  | start hs hx ih => exact here (.start hs hx) (here (.iterate hx) ih)
  | each hv hs hf hx hb ihx ihb =>
    refine here (.each hv hs hf hx hb) (both ?_ (both ihb none))
    exact here (.start hs hx) (here (.iterate hx) ihx)
  | noted hx ih => exact here (.noted hx) ih
  | missing => exact none
  | present hx ih => exact ih
  | asValue hx ih => exact ih

end

end Stencil
