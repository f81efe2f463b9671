import Stencil.Machine.Describe

/-!
# Equality and order

Ints and floats are equal if their values are; lists are compared element by
element down to a fixed depth, and below it by identity; messages are compared by
content; everything else by what it is.
-/

namespace Stencil

/-- Whether floats in messages are equal; here undefined ones equal each other. -/
def sameFloat (x y : Float) : Bool := if x.isNaN || y.isNaN then x.isNaN && y.isNaN else x == y

/-- Whether basic values of messages are equal. -/
def Scalar.same : Scalar → Scalar → Bool
  | .bool a, .bool b => a == b
  | .int m, .int n => m = n
  | .float x, .float y => sameFloat x y
  | .string a, .string b => a = b
  | _, _ => false

mutual

/-- Whether two messages have the same type and equal fields. -/
def sameMessage (s : Heap) : Nat → MessageCell → MessageCell → Bool
  | 0, _, _ => false
  | fuel + 1, a, b =>
    let xs := s.populated a
    let ys := s.populated b
    a.type = b.type && xs.length = ys.length &&
      (xs.zip ys).all (fun ((f, x), (g, y)) => f.number = g.number && sameField s fuel x y) &&
      a.unknown = b.unknown

/-- Whether two fields hold equal values. -/
def sameField (s : Heap) : Nat → FieldValue → FieldValue → Bool
  | 0, _, _ => false
  | fuel + 1, x, y =>
    match x, y with
    | .scalar a, .scalar b => a.same b
    | .message i, .message j =>
      sameMessage s fuel (s.messages.getD i default) (s.messages.getD j default)
    | .list i, .list j =>
      let xs := (s.fieldLists.getD i #[]).toList
      let ys := (s.fieldLists.getD j #[]).toList
      xs.length = ys.length && (xs.zip ys).all fun (x, y) => sameField s fuel x y
    | .map xs, .map ys =>
      xs.length = ys.length && xs.all fun (k, x) =>
        match ys.find? fun (l, _) => k.same l with
        | some (_, y) => sameField s fuel x y
        | none => false
    | _, _ => false

end

/-- Whether values of a host type can be compared at all. -/
def HostType.isComparable [Host] : Nat → HostType → Bool
  | 0, _ => false
  | fuel + 1, t =>
    match t.base with
    | .slice _ | .map _ _ | .function _ _ _ => false
    | .array _ u => u.isComparable fuel
    | .record name => (fieldsOfRecord name).all fun f => f.type.isComparable fuel
    | _ => true

mutual

/-- Whether two values of the same type are the same thing. -/
def Value.same [Host] : Value → Value → Bool
  | .null, .null => true
  | .bool a, .bool b => a == b
  | .int m, .int n => m == n
  | .float x, .float y => x == y
  | .string a, .string b => a = b
  | .list i, .list j | .object i, .object j | .function i _, .function j _ | .module i, .module j
  | .message i, .message j | .context i, .context j | .enumerator i, .enumerator j
  | .filtered i, .filtered j | .pattern i, .pattern j => i = j
  | .builtin f _ m, .builtin g _ n => f = g && m = n
  | .nspace a, .nspace b => a.stamp = b.stamp && a.name = b.name
  | .type t, .type u => t = u
  | .noMessage t, .noMessage u => t = u
  | .repeated _ _ _ m, .repeated _ _ _ n => m = n
  | .moment t, .moment u => t = u
  | .location a, .location b => a = b
  | .bound r m, .bound q n => m = n && r.same q
  | .host t d, .host u e => t == u && t.isComparable 100 && d.same e
  | _, _ => false

/-- Whether two pieces of host data of the same type are the same. -/
def Datum.same [Host] : Datum → Datum → Bool
  | .bool a, .bool b => a == b
  | .int m, .int n => m = n
  | .float x, .float y => x == y
  | .string a, .string b => a = b
  | .nil, .nil => true
  | .cell i, .cell j => i = j
  | .array xs, .array ys => sameData xs ys
  | .record xs, .record ys => sameData xs ys
  | .any v, .any w => v.same w
  | _, _ => false

/-- Whether two rows of host data are the same. -/
def sameData [Host] : List Datum → List Datum → Bool
  | [], [] => true
  | x :: xs, y :: ys => x.same y && sameData xs ys
  | _, _ => false

end

mutual

/-- The type of the part of a value that has no hash, by which the value cannot be the key of a map:
that of a sequence, a map or a function of the host, or of something that contains one. -/
def Value.unhashable? [Host] : Value → Option HostType
  | .host t d => if t.isComparable 100 then d.unhashable? else some t
  | _ => none

/-- The type of the part of host data that has no hash. -/
def Datum.unhashable? [Host] : Datum → Option HostType
  | .any v => v.unhashable?
  | .array ds | .record ds => unhashableData? ds
  | _ => none

/-- The type of the first part of a row of host data that has no hash. -/
def unhashableData? [Host] : List Datum → Option HostType
  | [] => none
  | d :: ds => d.unhashable?.or (unhashableData? ds)

end

/-- Whether two values are one and the same, also where their type has no equality. -/
def Value.isIdentical [Host] : Value → Value → Bool
  | .host t (.slice b m), .host u (.slice c n) => t == u && b = c && m = n
  | .host t (.map i), .host u (.map j) => t == u && i = j
  | .host t (.function a), .host u (.function b) => t == u && a = b
  | .host t .nil, .host u .nil => t == u
  | x, y => x.same y

/-- The depth below which lists are only compared by identity. -/
def equalityDepth : Nat := 11

/-- The float nearest to an int. -/
def intToFloat (n : Int64) : Float := Decimal.floatOfInt n.toInt

/-- Equality with the given depth left for comparing lists. -/
def Value.equalWithin [Host] (s : Heap) : Nat → Value → Value → Bool
  | fuel, x, y =>
    match x, y with
    | .int m, .float y => intToFloat m == y
    | .float x, .int n => x == intToFloat n
    | .list i, .list j =>
      if i = j then true else
        match fuel with
        | 0 => false
        | fuel + 1 =>
          let xs := (s.list i).toList
          let ys := (s.list j).toList
          xs.length = ys.length && (xs.zip ys).all fun (a, b) => Value.equalWithin s fuel a b
    | .message i, .message j =>
      sameMessage s s.depthBound (s.messages.getD i default) (s.messages.getD j default)
    | x, y => x.same y

/-- Whether two values are equal. -/
def Value.equal [Host] (s : Heap) (x y : Value) : Bool := x.equalWithin s equalityDepth y

/-- The order of two numbers or two strings. Undefined floats count as equal to every
float. -/
def Value.compare? : Value → Value → Option Ordering
  | .int m, .int n => some (if m < n then .lt else if n < m then .gt else .eq)
  | .int m, .float y => some (order (intToFloat m) y)
  | .float x, .float y => some (order x y)
  | .float x, .int n => some (order x (intToFloat n))
  | .string a, .string b => some (if Bytes.lt a b then .lt else if Bytes.lt b a then .gt else .eq)
  | _, _ => none
where
  /-- The order of two floats. -/
  order (x y : Float) : Ordering := if x < y then .lt else if y < x then .gt else .eq

end Stencil
