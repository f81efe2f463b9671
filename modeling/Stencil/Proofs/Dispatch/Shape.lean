import Stencil.Dispatch.Invoke

/-!
# Resolution by types

What an operation is resolved to depends on its operands only through their types. The types
of values other than host data are told apart from all others, so each type of an operand has
an exemplar, a value that stands for all operands of the type, and a call site has one target
for each shape. This is why the binding that was found for some operands can be performed on
any others of the same shape.
-/

namespace Stencil

/-! ### Equality of types and shapes -/

mutual

theorem HostType.eq_of_beq (s t : HostType) (h : s.beq t = true) : s = t := by
  cases s with
  | bool | float32 | float64 | string | any =>
    cases t <;> first | rfl | simp [beq] at h
  | int | record | message | iface =>
    cases t <;> simp [beq] at h
    rw [h]
  | named m s =>
    cases t <;> simp [beq] at h
    rename_i n t
    rw [h.1, eq_of_beq s t h.2]
  | pointer s | slice s | channel s =>
    cases t <;> simp [beq] at h
    rename_i t
    rw [eq_of_beq s t h]
  | array m s =>
    cases t <;> simp [beq] at h
    rename_i n t
    rw [h.1, eq_of_beq s t h.2]
  | map j s =>
    cases t <;> simp [beq] at h
    rename_i k t
    rw [eq_of_beq j k h.1, eq_of_beq s t h.2]
  | function a v r =>
    cases t <;> simp [beq] at h
    rename_i b w q
    rw [h.1.2, eq_of_beqAll a b h.1.1, eq_of_beqAll r q h.2]

theorem HostType.eq_of_beqAll (ss ts : List HostType) (h : beqAll ss ts = true) : ss = ts := by
  cases ss with
  | nil =>
    cases ts with
    | nil => rfl
    | cons => simp [beqAll] at h
  | cons s ss =>
    cases ts with
    | nil => simp [beqAll] at h
    | cons t ts =>
      simp only [beqAll, Bool.and_eq_true] at h
      rw [eq_of_beq s t h.1, eq_of_beqAll ss ts h.2]

end

mutual

theorem HostType.beq_self (t : HostType) : t.beq t = true := by
  cases t with
  | named n t | pointer t | slice t | channel t | array n t => simp [beq, beq_self t]
  | map k t => simp [beq, beq_self k, beq_self t]
  | function a v r => simp [beq, beqAll_self a, beqAll_self r]
  | _ => simp [beq]

theorem HostType.beqAll_self (ts : List HostType) : beqAll ts ts = true := by
  cases ts with
  | nil => rfl
  | cons t ts => simp [beqAll, beq_self t, beqAll_self ts]

end

instance : LawfulBEq HostType where
  eq_of_beq {s t} h := s.eq_of_beq t h
  rfl {t} := t.beq_self

instance : LawfulBEq Shape where
  eq_of_beq {s t} h := by
    obtain ⟨x, y⟩ := s
    obtain ⟨x', y'⟩ := t
    have h : (x == x' && y == y') = true := h
    simp only [Bool.and_eq_true, beq_iff_eq] at h
    rw [h.1, h.2]
  rfl {s} := by
    show (s.x == s.x && s.y == s.y) = true
    simp

/-! ### Exemplars -/

/-- A value of each type of the language. -/
def exemplars : List (HostType × Value) :=
  [(.bool, .bool false), (.int .int64, .int 0), (.float64, .float 0), (.string, .string []),
   (.list, .list 0), (.object, .object 0), (.closure, .function 0 default),
   (.builtin, .builtin default .null 0), (.module, .module 0), (.nspace, .nspace default),
   (.registered, .type (.registered [])), (.messageType, .type (.message default)),
   (.repeated, .repeated default 0 none 0), (.context, .context 0), (.enumerator, .enumerator 0),
   (.filtered, .filtered 0), (.pattern, .pattern 0), (.moment, .moment default),
   (.location, .location default), (.boundMethod, .bound .null [])]

/-- A value of a type. -/
def HostType.exemplar : HostType → Value
  | .pointer (.message _) => .message 0
  | t => (exemplars.lookup t).getD (.host t (.record []))

/-- A value of a type that may be missing. -/
def exemplarOf (t : Option HostType) : Value := (t.map HostType.exemplar).getD .null

theorem exemplars_distinct :
    exemplars.Pairwise fun a b => (a.1 == b.1) = false := by
  have : (exemplars.map (·.1)).Pairwise fun a b => (a == b) = false := by decide +kernel
  exact List.pairwise_map.1 this

theorem lookup_of_distinct {α β : Type} [BEq α] [LawfulBEq α] {l : List (α × β)}
    (hl : l.Pairwise fun a b => (a.1 == b.1) = false) {k : α} {v : β} (h : (k, v) ∈ l) :
    l.lookup k = some v := by
  induction hl with
  | nil => cases h
  | @cons p l hp _ ih =>
    obtain ⟨k', v'⟩ := p
    rcases List.mem_cons.1 h with h | h
    · cases h
      simp
    · have hne : (k' == k) = false := hp (k, v) h
      have : (k == k') = false := by
        rw [beq_eq_false_iff_ne] at hne ⊢
        exact hne.symm
      rw [List.lookup_cons, this]
      exact ih h

/-- A value with its data left out. -/
def Value.blank : Value → Value
  | .null => .null
  | .bool _ => .bool false
  | .int _ => .int 0
  | .float _ => .float 0
  | .string _ => .string []
  | .list _ => .list 0
  | .object _ => .object 0
  | .function .. => .function 0 default
  | .builtin .. => .builtin default .null 0
  | .module _ => .module 0
  | .nspace _ => .nspace default
  | .type (.registered _) => .type (.registered [])
  | .type (.message _) => .type (.message default)
  | .message _ | .noMessage _ => .message 0
  | .repeated .. => .repeated default 0 none 0
  | .context _ => .context 0
  | .enumerator _ => .enumerator 0
  | .filtered _ => .filtered 0
  | .pattern _ => .pattern 0
  | .moment _ => .moment default
  | .location _ => .location default
  | .bound .. => .bound .null []
  | .host t _ => .host t (.record [])

theorem exemplar_of_mem {t : HostType} {v : Value} (h : (t, v) ∈ exemplars)
    (ht : ∀ n, t ≠ .pointer (.message n)) : t.exemplar = v := by
  unfold HostType.exemplar
  split
  · exact absurd rfl (ht _)
  · rw [lookup_of_distinct exemplars_distinct h]
    rfl

theorem exemplar_of_not_own {t : HostType} (h : t.isOwn = false) :
    t.exemplar = .host t (.record []) := by
  unfold HostType.exemplar
  split
  · cases h
  · have hnone : exemplars.lookup t = none := by
      rw [List.lookup_eq_none_iff]
      intro p hp
      have : (ownTypes.any (· == t)) = false := by
        unfold HostType.isOwn at h
        split at h
        · cases h
        · exact h
      rw [List.any_eq_false] at this
      have hown : p.1 ∈ ownTypes := by
        have hall : ∀ p ∈ exemplars, p.1 ∈ ownTypes := by
          simp [exemplars, ownTypes]
        exact hall p hp
      have := this p.1 hown
      simp only [beq_iff_eq] at this ⊢
      simpa using Ne.symm this
    rw [hnone]
    rfl

/-- Values of one type differ only in their data. -/
theorem exemplarOf_hostType (s : Heap) {x : Value} (hx : x.isDisguised = false) :
    exemplarOf (x.hostType? s) = x.blank := by
  have own {t : HostType} {v : Value} (h : (t, v) ∈ exemplars)
      (ht : ∀ n, t ≠ .pointer (.message n)) : exemplarOf (some t) = v := exemplar_of_mem h ht
  have message (p : Pool) (name : Bytes) : exemplarOf (some (p.hostType name)) = .message 0 := by
    unfold Pool.hostType
    split <;> rfl
  cases x with
  | null => rfl
  | message id => exact message _ _
  | noMessage t => exact message _ _
  | host t d => exact exemplar_of_not_own hx
  | type t =>
    cases t <;> refine own ?_ (by intro n h; cases h) <;>
      simp only [exemplars, Value.blank, List.mem_cons, true_or, or_true]
  | _ =>
    refine own ?_ (by intro n h; cases h)
    simp only [exemplars, Value.blank, List.mem_cons, true_or, or_true]

/-! ### Targets -/

@[simp]
theorem toOption_ok {ε α : Type} (a : α) : (.ok a : Except ε α).toOption = some a := rfl

@[simp]
theorem toOption_error {ε α : Type} (e : ε) : (.error e : Except ε α).toOption = none := rfl

section

variable [Host] (s : Heap)

@[simp]
theorem toOption_resolveMember (x : Value) (name : Bytes) (found : MemberPath → Binding)
    (missing : DispatchError) :
    (x.resolveMember s name found missing).toOption = (x.member? s name).map found := by
  unfold Value.resolveMember
  cases x.member? s name <;> rfl

theorem resolveGetMember_blank (name : Bytes) (x : Value) :
    (resolveGetMember s name x).toOption = (resolveGetMember default name x.blank).toOption := by
  cases x with
  | host t d =>
    by_cases ht : t.isStringMap <;>
      simp [resolveGetMember, Value.blank, Value.hasAttrs, Value.method?, Value.isStringMap, ht,
        Value.member?, Value.hostType?]
  | string b =>
    have hm : (Value.string []).method? name = (Value.string b).method? name := rfl
    by_cases h : ((Value.string b).method? name).isSome <;>
      simp [resolveGetMember, Value.blank, Value.hasAttrs, hm, h, Value.isStringMap,
        Value.member?, Value.hostType?]
  | list id =>
    have hm : (Value.list 0).method? name = (Value.list id).method? name := rfl
    by_cases h : ((Value.list id).method? name).isSome <;>
      simp [resolveGetMember, Value.blank, Value.hasAttrs, hm, h, Value.isStringMap,
        Value.member?, Value.hostType?]
  | repeated =>
    by_cases h : name = Bytes.ofString "append" <;>
      simp [resolveGetMember, Value.blank, Value.hasAttrs, Value.method?, h, Value.isStringMap,
        Value.member?, Value.hostType?]
  | type t =>
    cases t <;> simp [resolveGetMember, Value.blank, Value.hasAttrs, Value.method?,
      Value.isStringMap, Value.member?, Value.hostType?]
  | _ =>
    simp [resolveGetMember, Value.blank, Value.hasAttrs, Value.method?, Value.isStringMap,
      Value.member?, Value.hostType?]

theorem resolveSetMember_blank (name : Bytes) (x : Value) :
    (resolveSetMember s name x).toOption = (resolveSetMember default name x.blank).toOption := by
  cases x with
  | host t d =>
    by_cases ht : t.isStringMap <;>
      simp [resolveSetMember, Value.blank, Value.isStringMap, ht, Value.member?, Value.hostType?]
  | type t =>
    cases t <;> simp [resolveSetMember, Value.blank, Value.isStringMap, Value.member?,
      Value.hostType?]
  | _ => simp [resolveSetMember, Value.blank, Value.isStringMap, Value.member?, Value.hostType?]

theorem resolveCall_blank (name : Bytes) (x : Value) :
    (resolveCall s name x).toOption = (resolveCall default name x.blank).toOption := by
  cases x with
  | string b =>
    have hm : (Value.string []).method? name = (Value.string b).method? name := rfl
    by_cases h : ((Value.string b).method? name).isSome <;>
      simp [resolveCall, Value.blank, Value.hasAttrs, hm, h, Value.member?, Value.hostType?]
  | list id =>
    have hm : (Value.list 0).method? name = (Value.list id).method? name := rfl
    by_cases h : ((Value.list id).method? name).isSome <;>
      simp [resolveCall, Value.blank, Value.hasAttrs, hm, h, Value.member?, Value.hostType?]
  | repeated =>
    by_cases h : name = Bytes.ofString "append" <;>
      simp [resolveCall, Value.blank, Value.hasAttrs, Value.method?, h, Value.member?,
        Value.hostType?]
  | type t =>
    cases t <;> simp [resolveCall, Value.blank, Value.hasAttrs, Value.method?, Value.member?,
      Value.hostType?]
  | _ =>
    simp [resolveCall, Value.blank, Value.hasAttrs, Value.method?, Value.member?, Value.hostType?]

theorem resolveHostIndex_blank (set : Bool) (t : HostType) (x y : Value) :
    (resolveHostIndex s set x t).toOption = (resolveHostIndex default set y t).toOption := by
  unfold resolveHostIndex
  split
  · rfl
  · rfl
  · cases set <;> rfl
  · rfl

theorem resolveIndex_blank (arity : Nat) (set : Bool) (x : Value) :
    (resolveIndex s arity set x).toOption = (resolveIndex default arity set x.blank).toOption := by
  unfold resolveIndex
  split
  · rfl
  · cases x with
    | host t d =>
      simp only [Value.blank]
      split
      · rfl
      · exact resolveHostIndex_blank s set t _ _
    | string => cases set <;> rfl
    | type t => cases t <;> rfl
    | _ => rfl

theorem resolveInvoke_blank {x : Value} (hx : x.isMissingFunction = false) :
    (resolveInvoke s x).toOption = (resolveInvoke default x.blank).toOption := by
  cases x with
  | type t => cases t <;> rfl
  | host t d =>
    have hf : (Value.host t d).isHostFunction = t.isFunction := by
      cases d with
      | nil => exact hx.symm
      | _ => rfl
    have hb : (Value.host t (.record [])).isHostFunction = t.isFunction := rfl
    by_cases ht : t.isFunction <;> simp [resolveInvoke, Value.blank, hf, hb, ht]
  | _ => rfl

theorem resolveCreate_blank (x : Value) :
    (resolveCreate s x).toOption = (resolveCreate default x.blank).toOption := by
  cases x with
  | type t => cases t <;> rfl
  | _ => rfl

omit [Host] in
theorem resolveBinary_blank (op : Operator) (x y : Value) :
    resolveBinary op x y = resolveBinary op x.blank y.blank := by
  cases x with
  | int | string =>
    cases y with
    | type t => cases t <;> rfl
    | _ => rfl
  | type t => cases t <;> rfl
  | _ => rfl

end

/-- What a call site is resolved to for all operands of a shape. -/
def CallSite.target [Host] (site : CallSite) (shape : Shape) : Option Binding :=
  (site.resolve default (exemplarOf shape.x) (exemplarOf shape.y)).toOption

/-- A call site is resolved for its operands to its target for their shape. -/
theorem CallSite.toOption_resolve [Host] (site : CallSite) (s : Heap) {x y : Value}
    (h : site.isStray x y = false) :
    (site.resolve s x y).toOption = site.target (site.shape s x y) := by
  simp only [isStray, Bool.or_eq_false_iff] at h
  obtain ⟨⟨hx, hy⟩, hf⟩ := h
  simp only [target, resolve, shape, exemplarOf_hostType s hx]
  cases hk : site.kind with
  | getMember => exact resolveGetMember_blank s site.name x
  | setMember => exact resolveSetMember_blank s site.name x
  | getIndex => exact resolveIndex_blank s site.arity false x
  | setIndex => exact resolveIndex_blank s site.arity true x
  | invoke => exact resolveInvoke_blank s (by simpa [hk] using hf)
  | call => exact resolveCall_blank s site.name x
  | create => exact resolveCreate_blank s x
  | binary =>
    have hy : y.isDisguised = false := by simpa [hk] using hy
    simp only [if_true, exemplarOf_hostType s hy]
    rw [resolveBinary_blank]
  | unary => rfl

end Stencil
