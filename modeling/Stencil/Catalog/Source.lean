import Stencil.Value.Basic

/-!
# Namespaces and their sources

Types with dotted names are arranged in trees, one for each first segment. The
last segment of a name is a member of the namespace named by the segments before
it. A type that is in the way of a longer name keeps its place, and so does a
namespace in the way of a type.
-/

namespace Stencil

/-- The dotted name of a type. -/
def TypeRef.fullName : TypeRef → Bytes
  | .registered name => name
  | .message t => t.name

/-- The segments of a dotted name. -/
def segments (name : Bytes) : List Bytes := name.splitOn "."

/-- The last segment of the name of a type. -/
def TypeRef.name (t : TypeRef) : Bytes := (segments t.fullName).getLast?.getD t.fullName

/-- The written form of a type. -/
def TypeRef.text (t : TypeRef) : Bytes := Bytes.ofString "<type " ++ t.fullName ++ ">"

/-- Whether a dotted name lies within a namespace, at any depth. -/
def inNamespace (full ns : Bytes) : Bool :=
  match Bytes.dropLeading? (ns ++ ".") full with
  | some rest => !rest.isEmpty
  | none => false

/-- Replace the value of a key, or add the key at the end. -/
def setAssoc {α : Type} (key : Bytes) (x : α) : List (Bytes × α) → List (Bytes × α)
  | [] => [(key, x)]
  | (k, y) :: rest => if k = key then (k, x) :: rest else (k, y) :: setAssoc key x rest

namespace Namespace

/-- The member of the given name. -/
def find? (ns : Namespace) (name : Bytes) : Option NamespaceMember := ns.members.lookup name

/-- Add or replace a member. -/
def set (ns : Namespace) (name : Bytes) (m : NamespaceMember) : Namespace :=
  .mk ns.stamp ns.name (setAssoc name m ns.members)

/-- The written form of a namespace. -/
def text (ns : Namespace) : Bytes := Bytes.ofString "<namespace " ++ ns.name ++ ">"

/-- Add a type under the path that leads to it from this namespace. -/
def insert (t : TypeRef) : List Bytes → Namespace → Namespace
  | [], ns => ns
  | [last], ns =>
    match ns.find? last with
    | some (.nspace _) => ns
    | _ => ns.set last (.type t)
  | seg :: next :: rest, ns =>
    match ns.find? seg with
    | some (.type _) => ns
    | some (.nspace sub) => ns.set seg (.nspace (sub.insert t (next :: rest)))
    | none =>
      let sub := Namespace.mk ns.stamp (ns.name ++ "." ++ seg) []
      ns.set seg (.nspace (sub.insert t (next :: rest)))

end Namespace

/-- Add a type to the trees of namespaces. A name of one segment belongs to no tree. -/
def insertType (stamp : Nat) (roots : List (Bytes × Namespace)) (t : TypeRef) :
    List (Bytes × Namespace) :=
  match segments t.fullName with
  | root :: seg :: rest =>
    let ns := (roots.lookup root).getD (.mk stamp root [])
    setAssoc root (ns.insert t (seg :: rest)) roots
  | _ => roots

/-!
## Sources of types

A source lists the types that lie within a namespace. Loading several namespaces
gives the trees of all the types listed, and the names for which there is no list.
-/

/-- The message types defined in one file. -/
structure TypeFile where
  package : Bytes
  /-- The full names of the messages that are not part of another message. -/
  messages : List Bytes
  deriving DecidableEq, Repr, Inhabited

/-- A source of types. -/
inductive TypeSource where
  /-- Types registered by the host application. -/
  | registry (names : List Bytes)
  /-- Messages of a collection, selected by the package of their file. -/
  | files (pool : Nat) (files : List TypeFile)
  /-- Messages of a collection, selected by their full names. -/
  | messages (pool : Nat) (names : List Bytes)
  /-- A source that cannot be read. -/
  | broken (reason : Bytes)
  /-- Several sources, one after the other. -/
  | several (sources : List TypeSource)
  deriving Repr, Inhabited

/-- Why no types of a namespace are known. -/
inductive LoadFailure where
  | notFound
  | broken (reason : Bytes)
  deriving DecidableEq, Repr, Inhabited

/-- The wording of a failure. -/
def LoadFailure.text : LoadFailure → Bytes
  | .notFound => "no such namespace"
  | .broken reason => reason

/-- Types in the order of their names, unless there are none. -/
def listTypes (make : Bytes → TypeRef) (names : List Bytes) : Except LoadFailure (List TypeRef) :=
  if names.isEmpty then .error .notFound else .ok ((Bytes.sort names).map make)

mutual

/-- The types within a namespace. -/
def TypeSource.types (ns : Bytes) : TypeSource → Except LoadFailure (List TypeRef)
  | .registry names => listTypes .registered (names.eraseDups.filter (inNamespace · ns))
  | .files pool files =>
    listTypes (fun n => .message ⟨pool, n⟩)
      ((files.filter fun f => f.package = ns || inNamespace f.package ns).flatMap (·.messages))
  | .messages pool names =>
    listTypes (fun n => .message ⟨pool, n⟩) (names.filter (inNamespace · ns))
  | .broken reason => .error (.broken reason)
  | .several sources => do
    let ts ← typesOfAll ns sources
    if ts.isEmpty then .error .notFound else .ok ts

/-- The types within a namespace in several sources; sources that have none are passed
over. -/
def typesOfAll (ns : Bytes) : List TypeSource → Except LoadFailure (List TypeRef)
  | [] => .ok []
  | s :: ss =>
    match s.types ns with
    | .ok ts => do return ts ++ (← typesOfAll ns ss)
    | .error .notFound => typesOfAll ns ss
    | .error e => .error e

end

/-- What is known of each namespace: the types within it, or why none are known. -/
abbrev Listing := Bytes → Except LoadFailure (List TypeRef)

/-- What a source lists. Without a source nothing is found. -/
def listingOf (source : Option TypeSource) : Listing := fun ns =>
  match source with
  | none => .error .notFound
  | some s => s.types ns

/-- The trees of the namespaces that could be loaded, and what became of the others. -/
structure Loaded where
  roots : List (Bytes × Namespace) := []
  failures : List (Bytes × LoadFailure) := []
  deriving Inhabited

/-- Load one more namespace. -/
def Loaded.add (types : Listing) (stamp : Nat) (l : Loaded) (name : Bytes) : Loaded :=
  match types name with
  | .error e => { l with failures := l.failures ++ [(name, e)] }
  | .ok ts => { l with roots := ts.foldl (insertType stamp) l.roots }

/-- Load the named namespaces; the trees are in the order of their names. -/
def loadListed (types : Listing) (stamp : Nat) (names : List Bytes) : Loaded :=
  let l := names.foldl (Loaded.add types stamp) {}
  { l with roots := l.roots.mergeSort fun a b => Bytes.le a.1 b.1 }

/-- Load the named namespaces from a source. -/
def loadNamespaces (source : Option TypeSource) (stamp : Nat) (names : List Bytes) : Loaded :=
  loadListed (listingOf source) stamp names

/-- The wording of a namespace that could not be loaded. -/
def loadMessage (failure : Bytes × LoadFailure) : Bytes :=
  Bytes.ofString "cannot load " ++ failure.1 ++ ": " ++ failure.2.text

end Stencil
