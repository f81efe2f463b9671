import Stencil.Code.Basic

/-!
# Code put together by hand

Variables and jump targets of hand-made code are named, and a name is given its
slot the first time it is met: in the lambda that is being made at that moment.
A parameter always has a slot of its own, and the name stands for it from then on.
-/

namespace Stencil

/-- What has been handed out so far. -/
structure Assembly where
  names : List (Bytes × Variable) := []
  targets : List (Bytes × Target) := []
  owner : Nat := 0
  ownerName : Bytes := []
  slots : Nat := 0
  lambdas : Nat := 0
  sites : Nat := 0
  deriving Inhabited

namespace Assembly

/-- A new slot of the current lambda under a name. -/
def declare (a : Assembly) (name : Bytes) : Variable × Assembly :=
  let v : Variable := ⟨name, a.slots, a.owner, a.ownerName⟩
  (v, { a with names := (name, v) :: a.names, slots := a.slots + 1 })

/-- New slots of the current lambda. -/
def declareAll (a : Assembly) : List Bytes → List Variable × Assembly
  | [] => ([], a)
  | n :: ns =>
    let (v, a) := a.declare n
    let (vs, a) := a.declareAll ns
    (v :: vs, a)

/-- The variable a name stands for. -/
def variableNamed (a : Assembly) (name : Bytes) : Variable × Assembly :=
  match a.names.lookup name with
  | some v => (v, a)
  | none => a.declare name

/-- The target a name stands for. -/
def target (a : Assembly) (name : Bytes) : Target × Assembly :=
  match a.targets.lookup name with
  | some t => (t, a)
  | none =>
    let t : Target := ⟨a.targets.length, name⟩
    (t, { a with targets := (name, t) :: a.targets })

/-- A new call site. -/
def site (a : Assembly) (kind : SiteKind) (name : Bytes) (op : Operator) (arity : Nat) :
    CallSite × Assembly :=
  ({ id := a.sites, kind, name, op, arity }, { a with sites := a.sites + 1 })

/-- Begin a lambda with the given parameters. -/
def enter (a : Assembly) (name : Bytes) (params : List Bytes) : List Variable × Assembly :=
  { a with owner := a.lambdas, ownerName := name, slots := 0, lambdas := a.lambdas + 1 }.declareAll
    params

/-- End a lambda; `outside` is what had been handed out when it began. -/
def leave (a outside : Assembly) (params : List Variable) (body : Code) : Lambda × Assembly :=
  (⟨a.owner, a.ownerName, params, a.slots, body⟩,
    { a with owner := outside.owner, ownerName := outside.ownerName, slots := outside.slots })

end Assembly

end Stencil
