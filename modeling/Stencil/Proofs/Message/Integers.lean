import Mathlib
import Stencil.Host.Basic
import Stencil.Message.Field
import Stencil.Proofs.Machine.Twin
import Stencil.Proofs.Machine.Exits

/-!
# Ints in the fields of messages

A field of an integer type takes the ints within the bounds of its type, and an enumeration takes
the numbers its values are declared with. `toField_exact_iff` tells when a field keeps to that and
reads back what it was given. Fields of all integer types do. A field of an enumeration looks the
low 32 bits of an int up, so it also takes ints that are far from every declared number, and reads
back another one.

How a field that is not repeated is read and set is told first: an int that the field holds
already is put there again, which leaves all messages as they are (`run_setMessageField_self`), and
one that its type does not have is refused (`run_setMessageField_misfit`).

## What is assumed

The numbers of declared values have 32 bits, as their descriptions have no room for others.
-/

namespace Stencil

/-! ### What a field stands for -/

/-- The least and the greatest number of an integer type. -/
def FieldKind.bounds? : FieldKind → Option (Int × Int)
  | .int32 | .sint32 | .sfixed32 => some (-2 ^ 31, 2 ^ 31 - 1)
  | .uint32 | .fixed32 => some (0, 2 ^ 32 - 1)
  | .int64 | .sint64 | .sfixed64 => some (-2 ^ 63, 2 ^ 63 - 1)
  | .uint64 | .fixed64 => some (0, 2 ^ 64 - 1)
  | _ => none

/-- Whether a number fits into 32 bits with a sign. -/
def FitsHalf (n : Int) : Prop := -2 ^ 31 ≤ n ∧ n < 2 ^ 31

instance (n : Int) : Decidable (FitsHalf n) := inferInstanceAs (Decidable (_ ∧ _))

/-- The number is that of a declared value of the enumeration. -/
def Pool.Declares (p : Pool) (name : Bytes) (n : Int) : Prop :=
  ∃ e label, p.enum? name = some e ∧ (label, n) ∈ e.values

/-- The numbers a type stands for. -/
inductive Pool.Admits (p : Pool) : FieldKind → Int → Prop
  | int {kind : FieldKind} {lo hi n : Int} (hb : kind.bounds? = some (lo, hi)) (hlo : lo ≤ n)
      (hhi : n ≤ hi) : p.Admits kind n
  | enum {name : Bytes} {n : Int} (h : p.Declares name n) : p.Admits (.enum name) n

/-- Whether a type stands for numbers that are whole. -/
def FieldKind.IsWhole (kind : FieldKind) : Prop :=
  (∃ lo hi, kind.bounds? = some (lo, hi)) ∨ ∃ name, kind = .enum name

/-- The numbers of declared values have 32 bits. -/
def Pool.NumbersFit (p : Pool) : Prop := ∀ name n, p.Declares name n → FitsHalf n

/-- An int without a declared value whose low 32 bits are the number of one. -/
def Pool.Confuses (p : Pool) (kind : FieldKind) (n : Int) : Prop :=
  ∃ name, kind = .enum name ∧ ¬ FitsHalf n ∧ p.Declares name (n.bmod (2 ^ 32))

/-! ### Bounds -/

/-- The bounds in terms of bits are the ones the conversion tests. -/
theorem FieldKind.intKind?_of_bounds {kind : FieldKind} {lo hi : Int}
    (h : kind.bounds? = some (lo, hi)) :
    ∃ k, kind.intKind? = some k ∧ k.least = lo ∧ k.greatest = hi := by
  cases kind <;> cases h <;> exact ⟨_, rfl, by decide, by decide⟩

theorem FieldKind.messageName?_of_isWhole {kind : FieldKind} (h : kind.IsWhole) :
    kind.messageName? = none := by
  obtain ⟨lo, hi, h⟩ | ⟨name, rfl⟩ := h
  · cases kind <;> first | rfl | cases h
  · rfl

/-- Where an integer type has bounds, nothing else is admitted. -/
theorem Pool.admits_int_iff {p : Pool} {kind : FieldKind} {lo hi n : Int}
    (h : kind.bounds? = some (lo, hi)) : p.Admits kind n ↔ lo ≤ n ∧ n ≤ hi := by
  constructor
  · intro ha
    cases ha with
    | int hb hlo hhi =>
      obtain ⟨rfl, rfl⟩ := by simpa [hb] using h
      exact ⟨hlo, hhi⟩
    | enum _ => cases h
  · rintro ⟨hlo, hhi⟩
    exact .int h hlo hhi

theorem Pool.admits_enum_iff {p : Pool} {name : Bytes} {n : Int} :
    p.Admits (.enum name) n ↔ p.Declares name n := by
  constructor
  · intro ha
    cases ha with
    | int hb _ _ => cases hb
    | enum h => exact h
  · exact .enum

theorem Pool.not_confuses_of_bounds {p : Pool} {kind : FieldKind} {lo hi n : Int}
    (h : kind.bounds? = some (lo, hi)) : ¬ p.Confuses kind n := by
  rintro ⟨name, rfl, -, -⟩
  cases h

/-! ### The lookup of a number -/

theorem bmod_of_fitsHalf {n : Int} (h : FitsHalf n) : n.bmod (2 ^ 32) = n :=
  Int.bmod_eq_of_le h.1 h.2

/-- Numbers of 32 bits are what the low 32 bits of an int come to. -/
theorem fitsHalf_bmod (n : Int) : FitsHalf (n.bmod (2 ^ 32)) := by
  constructor
  · exact Int.le_bmod (by decide)
  · exact Int.bmod_lt (by decide)

/-- The lookup finds the low 32 bits of an int or nothing. -/
theorem enumByNumber?_eq_some {e : EnumDesc} {n m : Int} (h : enumByNumber? e n = some m) :
    m = n.bmod (2 ^ 32) ∧ ∃ label, (label, m) ∈ e.values := by
  obtain ⟨⟨label, m⟩, hfound, rfl⟩ := Option.map_eq_some_iff.1 h
  refine ⟨?_, label, List.mem_of_find?_eq_some hfound⟩
  simpa using List.find?_some hfound

theorem enumByNumber?_eq_none_iff {e : EnumDesc} {n : Int} :
    enumByNumber? e n = none ↔ ∀ label, (label, n.bmod (2 ^ 32)) ∉ e.values := by
  rw [enumByNumber?, Option.map_eq_none_iff, List.find?_eq_none]
  constructor
  · intro h label hmem
    exact h _ hmem (by simp)
  · rintro h ⟨label, m⟩ hmem heq
    obtain rfl : m = n.bmod (2 ^ 32) := by simpa using heq
    exact h label hmem

/-! ### What is read back -/

/-- A type does not stand for an int that it confuses with a declared number. -/
theorem Pool.Confuses.not_admits {p : Pool} {kind : FieldKind} {n : Int} (hp : p.NumbersFit)
    (h : p.Confuses kind n) : ¬ p.Admits kind n := by
  obtain ⟨name, rfl, hfits, -⟩ := h
  rw [Pool.admits_enum_iff]
  intro hd
  exact hfits (hp _ _ hd)

/-- An int of 64 bits reads back as itself. -/
theorem value_int (v : Int64) : (FieldValue.scalar (.int v.toInt)).value = .int v := by
  show Value.int (Int64.ofInt v.toInt) = .int v
  rw [Int64.ofInt_toInt]

/-- A number of 32 bits reads back as an int with just that number. -/
theorem value_int_of_fitsHalf {n : Int} (h : FitsHalf n) {v : Int64}
    (heq : (FieldValue.scalar (.int n)).value = .int v) : n = v.toInt := by
  obtain rfl : Int64.ofInt n = v := by simpa [FieldValue.value, Scalar.value, signed64] using heq
  rw [Int64.toInt_ofInt]
  obtain ⟨hlo, hhi⟩ := h
  exact (Int.bmod_eq_of_le (by simp; omega) (by simp; omega)).symm

/-! ### Conversions -/

section

variable [Host] (fuel depth : Nat) (owner : MessageType) (f : FieldDesc) (v : Int64)
  (call : Callback) (s : Store)

/-- The conversion of an int for a field. -/
def convertedInt : EStateM.Result Failure Store FieldValue :=
  (toField fuel (depth + 1) owner f (.int v)).run call s

/-- A field takes exactly the ints its type stands for, and reads back what it was given. -/
structure KeptExactly : Prop where
  accepted_iff : (∃ x t, convertedInt fuel depth owner f v call s = .ok x t) ↔
    (s.pool owner).Admits f.kind v.toInt
  reads_back : ∀ x t, convertedInt fuel depth owner f v call s = .ok x t → x.value = .int v

/-- What a conversion of an int may come to. -/
inductive Converted (p : Pool) : EStateM.Result Failure Store FieldValue → Prop
  | kept (ha : p.Admits f.kind v.toInt) : Converted p (.ok (.scalar (.int v.toInt)) s)
  | confused (hc : p.Confuses f.kind v.toInt) :
      Converted p (.ok (.scalar (.int (v.toInt.bmod (2 ^ 32)))) s)
  | rejected {msg : Bytes} (ha : ¬ p.Admits f.kind v.toInt) (hc : ¬ p.Confuses f.kind v.toInt) :
      Converted p (.error (.plain msg false) s)

variable {fuel depth owner f v call s}

theorem convertedInt_eq (h : f.kind.IsWhole) :
    convertedInt fuel depth owner f v call s =
      (toScalar (s.pool owner) f (.int v)).run call s := by
  have hname := FieldKind.messageName?_of_isWhole h
  rw [convertedInt, toField]
  split
  · rfl
  · rename_i hsome
    rw [hname] at hsome
    cases hsome

/-- An integer type tests its bounds. -/
theorem toScalar_int {p : Pool} {lo hi : Int} (h : f.kind.bounds? = some (lo, hi)) :
    (lo ≤ v.toInt ∧ v.toInt ≤ hi → toScalar p f (.int v) = .done (.scalar (.int v.toInt))) ∧
    (¬ (lo ≤ v.toInt ∧ v.toInt ≤ hi) → ∃ msg, toScalar p f (.int v) = Job.error msg) := by
  obtain ⟨k, hk, rfl, rfl⟩ := FieldKind.intKind?_of_bounds h
  have hscalar : toScalar p f (.int v) =
      if k.holds v.toInt then .done (.scalar (.int v.toInt))
      else Job.error (Bytes.ofString "invalid " ++ f.kind.text ++ ": " ++ Bytes.ofInt v.toInt) := by
    obtain ⟨name, number, kind, _⟩ := f
    cases kind <;> first
      | cases h
      | (obtain rfl := Option.some.inj hk
         rfl)
  rw [hscalar]
  constructor
  · intro hin
    rw [if_pos (by simpa [IntKind.holds] using hin)]
  · intro hout
    rw [if_neg (by simpa [IntKind.holds] using hout)]
    exact ⟨_, rfl⟩

/-- An enumeration looks the low 32 bits up. -/
theorem toScalar_enum {p : Pool} {name : Bytes} (hf : f.kind = .enum name) :
    (p.Declares name (v.toInt.bmod (2 ^ 32)) →
      toScalar p f (.int v) = .done (.scalar (.int (v.toInt.bmod (2 ^ 32))))) ∧
    (¬ p.Declares name (v.toInt.bmod (2 ^ 32)) →
      ∃ msg, toScalar p f (.int v) = Job.error msg) := by
  obtain ⟨e, he⟩ : ∃ e, e = (p.enum? name).getD { fullName := name, values := [] } := ⟨_, rfl⟩
  have hscalar : toScalar p f (.int v) =
      (enumByNumber? e v.toInt).elim (Job.error (Bytes.ofString "invalid number " ++
        Bytes.ofInt v.toInt ++ " for " ++ e.fullName)) fun m => .done (.scalar (.int m)) := by
    obtain ⟨_, number, kind, _⟩ := f
    obtain rfl : kind = .enum name := hf
    subst he
    unfold toScalar
    dsimp only
    cases enumByNumber? ((p.enum? name).getD { fullName := name, values := [] }) v.toInt <;> rfl
  have hdeclared : p.Declares name (v.toInt.bmod (2 ^ 32)) ↔
      ∃ label, (label, v.toInt.bmod (2 ^ 32)) ∈ e.values := by
    unfold Pool.Declares
    cases hp : p.enum? name <;> simp [he, hp]
  rw [hscalar, hdeclared]
  cases hfound : enumByNumber? e v.toInt with
  | none =>
    have hnone := enumByNumber?_eq_none_iff.1 hfound
    constructor
    · rintro ⟨label, hmem⟩
      exact absurd hmem (hnone label)
    · intro _
      exact ⟨_, rfl⟩
  | some m =>
    obtain ⟨rfl, hmem⟩ := enumByNumber?_eq_some hfound
    constructor
    · intro _
      rfl
    · intro hno
      exact absurd hmem hno

/-- What becomes of an int in a field of an integer type or an enumeration. -/
theorem converted (hf : f.kind.IsWhole) (hp : (s.pool owner).NumbersFit) :
    Converted f v s (s.pool owner) (convertedInt fuel depth owner f v call s) := by
  rw [convertedInt_eq hf]
  obtain ⟨lo, hi, hb⟩ | ⟨name, hname⟩ := hf
  · obtain ⟨hkept, hrejected⟩ := toScalar_int (v := v) (p := s.pool owner) hb
    by_cases hin : lo ≤ v.toInt ∧ v.toInt ≤ hi
    · rw [hkept hin]
      exact .kept ((Pool.admits_int_iff hb).2 hin)
    · obtain ⟨msg, hmsg⟩ := hrejected hin
      rw [hmsg]
      exact .rejected (mt (Pool.admits_int_iff hb).1 hin) (Pool.not_confuses_of_bounds hb)
  · obtain ⟨hfound, hrejected⟩ := toScalar_enum (v := v) (p := s.pool owner) hname
    by_cases hd : (s.pool owner).Declares name (v.toInt.bmod (2 ^ 32))
    · rw [hfound hd]
      by_cases hfits : FitsHalf v.toInt
      · rw [bmod_of_fitsHalf hfits] at hd ⊢
        exact .kept (hname ▸ .enum hd)
      · exact .confused ⟨name, hname, hfits, hd⟩
    · obtain ⟨msg, hmsg⟩ := hrejected hd
      rw [hmsg]
      apply Converted.rejected
      · rw [hname, Pool.admits_enum_iff]
        intro hv
        exact hd (by rwa [bmod_of_fitsHalf (hp _ _ hv)])
      · rintro ⟨name', hname', -, hd'⟩
        obtain rfl : name = name' := by simpa [hname] using hname'
        exact hd hd'

/-- A field of an integer type keeps every int exactly or rejects it, and so does a field of an
enumeration unless the int has more than 32 bits of which the low ones are the number of a declared
value. Such an int is taken, and another one is read back. What is rejected is rejected with an
error, and nothing is changed. -/
theorem toField_exact_iff (hf : f.kind.IsWhole) (hp : (s.pool owner).NumbersFit) :
    (KeptExactly fuel depth owner f v call s ↔ ¬ (s.pool owner).Confuses f.kind v.toInt) ∧
    ((s.pool owner).Confuses f.kind v.toInt →
      ∃ x, convertedInt fuel depth owner f v call s = .ok x s ∧ x.value ≠ .int v) ∧
    ((∃ x, convertedInt fuel depth owner f v call s = .ok x s) ∨
      ∃ msg, convertedInt fuel depth owner f v call s = .error (.plain msg false) s) := by
  have h : Converted f v s (s.pool owner) (convertedInt fuel depth owner f v call s) :=
    converted hf hp
  generalize hr : convertedInt fuel depth owner f v call s = r at h
  cases h with
  | kept ha =>
    have hc : ¬ (s.pool owner).Confuses f.kind v.toInt := fun hc => hc.not_admits hp ha
    refine ⟨iff_of_true ⟨?_, ?_⟩ hc, fun h => absurd h hc, .inl ⟨_, rfl⟩⟩
    · exact iff_of_true ⟨_, _, hr⟩ ha
    · intro x t hx
      obtain ⟨rfl, rfl⟩ := by simpa [hr] using hx
      exact value_int v
  | confused hc =>
    refine ⟨iff_of_false ?_ (not_not_intro hc), fun _ => ⟨_, rfl, ?_⟩, .inl ⟨_, rfl⟩⟩
    · intro hk
      exact hc.not_admits hp (hk.accepted_iff.1 ⟨_, _, hr⟩)
    · intro hsame
      obtain ⟨_, -, hfits, -⟩ := hc
      apply hfits
      rw [← value_int_of_fitsHalf (fitsHalf_bmod v.toInt) hsame]
      exact fitsHalf_bmod v.toInt
  | rejected ha hc =>
    refine ⟨iff_of_true ⟨?_, ?_⟩ hc, fun h => absurd h hc, .inr ⟨_, rfl⟩⟩
    · refine iff_of_false ?_ ha
      rintro ⟨x, t, hx⟩
      simp [hr] at hx
    · intro x t hx
      simp [hr] at hx

end

/-! ### A field with two colors -/

/-- The enumeration of the numbers 0 and 1. -/
def switchEnum : EnumDesc := { fullName := "Switch", values := [("OFF", 0), ("ON", 1)] }

/-- Descriptors that have it alone. -/
def switches : Pool := { files := [{ enums := [switchEnum] }] }

/-- A field that holds one of its numbers. -/
def switchField : FieldDesc :=
  { name := "switch", number := 1, kind := .enum "Switch", jsonName := "switch" }

theorem switches_declares {name : Bytes} {n : Int} (h : switches.Declares name n) :
    n = 0 ∨ n = 1 := by
  obtain ⟨e, label, he, hmem⟩ := h
  simp only [switches, Pool.enum?, List.findSome?_cons, List.find?_cons] at he
  by_cases hname : switchEnum.fullName = name
  · obtain rfl : switchEnum = e := by simpa [hname] using he
    simp only [switchEnum, List.mem_cons, Prod.mk.injEq, List.not_mem_nil, or_false] at hmem
    omega
  · simp [hname] at he

theorem switches_numbersFit : switches.NumbersFit := by
  intro name n h
  obtain rfl | rfl := switches_declares h <;> decide

/-- The number 1 is kept. -/
theorem toField_exact_one : switchField.kind.IsWhole ∧ switches.NumbersFit ∧
    ∀ call : Callback, @KeptExactly standalone.toHost 0 0 ⟨0, []⟩ switchField 1 call
      { pools := #[switches] } := by
  refine ⟨.inr ⟨_, rfl⟩, switches_numbersFit, fun call => ?_⟩
  refine (@toField_exact_iff standalone.toHost 0 0 ⟨0, []⟩ switchField 1 call
    { pools := #[switches] } (.inr ⟨_, rfl⟩) switches_numbersFit).1.2 ?_
  rintro ⟨-, -, hfits, -⟩
  exact hfits (by decide)

/-- The number after the greatest one of 32 bits, with a 1 added, is not declared. It is taken all
the same, and 1 is read back. -/
theorem toField_confuses_wide : ¬ switches.Admits switchField.kind (2 ^ 32 + 1) ∧
    Int64.toInt 4294967297 = 2 ^ 32 + 1 ∧
    (∀ call : Callback, @convertedInt standalone.toHost 0 0 ⟨0, []⟩ switchField 4294967297 call
      { pools := #[switches] } = .ok (.scalar (.int 1)) { pools := #[switches] }) ∧
    (FieldValue.scalar (.int 1)).value = .int 1 := by
  refine ⟨?_, by decide, fun call => ?_, rfl⟩
  · rw [switchField, Pool.admits_enum_iff]
    intro h
    rcases switches_declares h with h | h <;> simp at h
  · have hd : switches.Declares "Switch" (Int64.toInt 4294967297 |>.bmod (2 ^ 32)) :=
      ⟨switchEnum, "ON", by simp [switches, Pool.enum?, switchEnum], .tail _ (.head _)⟩
    rw [@convertedInt_eq standalone.toHost _ _ _ _ _ _ _ (.inr ⟨_, rfl⟩)]
    show (@toScalar standalone.toHost switches switchField (.int 4294967297)).run call _ = _
    rw [(@toScalar_enum standalone.toHost switchField _ switches _ rfl).1 hd]
    rfl

variable {call : Callback} {s : Store} {id : Nat} {name : Bytes} {m : MessageCell} {f : FieldDesc}

theorem run_fieldOf (hf : (s.describe m.type).field? name = some f) :
    (fieldOf m.type name).run call s = .ok f s := by
  rw [fieldOf, run_bind_ok run_get, hf]
  rfl

theorem run_message (hm : s.messages[id]? = some m) : (Job.message id).run call s = .ok m s := by
  show EStateM.Result.ok (s.messages.getD id default) s = .ok m s
  rw [Array.getD_eq_getD_getElem?, hm, Option.getD_some]

theorem not_isList (p : Pool) (h : f.cardinality ≠ .repeated) : p.isList f = false := by
  simp [Pool.isList, h]

theorem entryFields?_eq_none (p : Pool) (h : f.cardinality ≠ .repeated) : p.entryFields? f = none := by
  rw [Pool.entryFields?, guard, if_neg h]
  rfl

/-- What a field holds is read, or its default if that does not count as set. -/
theorem run_getMessageField (hm : s.messages[id]? = some m)
    (hf : (s.describe m.type).field? name = some f) (hsingle : f.cardinality ≠ .repeated)
    {x : FieldValue} (hheld : m.fields.lookup f.number = some x) :
    (getMessageField (.message id) name).run call s =
      (if s.isPopulated f x then pure x.value else unsetField m.type f).run call s := by
  rw [getMessageField, run_bind_ok run_get]
  dsimp only
  rw [run_bind_ok (run_message hm), run_bind_ok (run_fieldOf hf), not_isList _ hsingle,
    entryFields?_eq_none _ hsingle, hheld]
  rfl

/-- An int is converted for the field and put there. -/
theorem run_setMessageField [Host] {fuel depth : Nat} (hm : s.messages[id]? = some m)
    (hf : (s.describe m.type).field? name = some f) (hsingle : f.cardinality ≠ .repeated) (w : Int64) :
    (setMessageField fuel (depth + 2) (.message id) name (.int w)).run call s =
      (Job.explaining (Bytes.ofString "in field " ++ name ++ ": ")
        (toField fuel (depth + 1) m.type f (.int w)) >>= putField id f).run call s := by
  have hnull : ¬(Value.int w).isNull = true := by simp [Value.isNull]
  rw [setMessageField, run_bind_ok run_get]
  dsimp only
  rw [run_bind_ok (run_message hm), run_bind_ok (run_fieldOf hf), if_neg hnull, not_isList _ hsingle,
    entryFields?_eq_none _ hsingle]
  rfl

/-- The message with a field set and others cleared. -/
def MessageCell.withField (others : List Nat) (f : FieldDesc) (x : FieldValue) (m : MessageCell) :
    MessageCell :=
  { m with fields := setNumber f.number x (m.fields.filter fun e => !others.contains e.1) }

theorem run_putField (hm : s.messages[id]? = some m) (x : FieldValue) :
    (putField id f x).run call s =
      .ok ()
        { s with
          messages := s.messages.modify id (.withField (rivals (s.describe m.type) f) f x) } := by
  rw [putField, run_bind_ok (run_message hm), run_bind_ok run_get]
  rfl

/-- The messages have the same fields set to the same. -/
structure MessageCell.Alike (m m' : MessageCell) : Prop where
  type : m'.type = m.type
  unknown : m'.unknown = m.unknown
  lookup : ∀ number, m'.fields.lookup number = m.fields.lookup number

/-- Nothing has changed but the order in which messages keep their fields. -/
structure Store.Unchanged (s s' : Store) : Prop where
  rest : s' = { s with messages := s'.messages }
  size : s'.messages.size = s.messages.size
  messages : ∀ (id : Nat) (m : MessageCell), s.messages[id]? = some m →
    ∃ m', s'.messages[id]? = some m' ∧ m.Alike m'

theorem Store.Unchanged.refl (s : Store) : s.Unchanged s :=
  ⟨rfl, rfl, fun _ m hm => ⟨m, hm, rfl, rfl, fun _ => rfl⟩⟩

theorem lookup_filter_fst (p : Nat → Bool) (number : Nat) (fields : List (Nat × FieldValue)) :
    (fields.filter fun e => p e.1).lookup number = if p number then fields.lookup number else none := by
  induction fields with
  | nil => simp
  | cons e fields ih =>
    obtain ⟨k, x⟩ := e
    rw [List.filter_cons]
    by_cases hk : number = k
    · subst hk
      cases hp : p number with
      | true => simp
      | false => simpa [hp] using ih
    · have hne : (number == k) = false := by simpa using hk
      cases hp : p k with
      | true => simpa [List.lookup_cons, hne, hp] using ih
      | false => simpa [List.lookup_cons, hne, hp] using ih

/-- A field that is set to what it holds stays as it is, and so do the others if none of them has to give
way to it. -/
theorem lookup_setNumber_self {x : FieldValue} {fields : List (Nat × FieldValue)} {others : List Nat}
    (hheld : fields.lookup f.number = some x)
    (halone : ∀ number ∈ others, fields.lookup number = none) (number : Nat) :
    (setNumber f.number x (fields.filter fun e => !others.contains e.1)).lookup number =
      fields.lookup number := by
  rw [setNumber, List.lookup_cons]
  split
  case h_1 heq =>
    obtain rfl : number = f.number := by simpa using heq
    exact hheld.symm
  case h_2 hne =>
    have hne' : number ≠ f.number := by simpa using hne
    have hfilter := lookup_filter_fst (fun k => k ≠ f.number) number
      (fields.filter fun e => !others.contains e.1)
    rw [if_pos (by simpa using hne')] at hfilter
    refine Eq.trans hfilter ?_
    rw [lookup_filter_fst (fun k => !others.contains k)]
    split
    case isTrue => rfl
    case isFalse hin => exact (halone number (by simpa using hin)).symm

/-! ### Ints converted for fields -/

/-- An int is converted for a field that has its number, and refused by others of integer types. -/
theorem run_toField_int [Host] (fuel depth : Nat) (call : Callback) (s : Store) (owner : MessageType)
    {lo hi : Int} (hb : f.kind.bounds? = some (lo, hi)) (v : Int64) :
    (lo ≤ v.toInt ∧ v.toInt ≤ hi →
      (toField fuel (depth + 1) owner f (.int v)).run call s = .ok (.scalar (.int v.toInt)) s) ∧
    (¬(lo ≤ v.toInt ∧ v.toInt ≤ hi) → ∃ msg,
      (toField fuel (depth + 1) owner f (.int v)).run call s = .error (.plain msg false) s) := by
  have heq : (toField fuel (depth + 1) owner f (.int v)).run call s =
      (toScalar (s.pool owner) f (.int v)).run call s := convertedInt_eq (.inl ⟨lo, hi, hb⟩)
  obtain ⟨hkept, hrefused⟩ := toScalar_int (v := v) (p := s.pool owner) hb
  rw [heq]
  constructor
  · intro hin
    rw [hkept hin]
    rfl
  · intro hout
    obtain ⟨msg, hmsg⟩ := hrefused hout
    exact ⟨msg, by rw [hmsg]; rfl⟩

/-- What is in a field of a message is put there again. -/
theorem run_setMessageField_self [Host] (fuel depth : Nat) (call : Callback) (hm : s.messages[id]? = some m)
    (hf : (s.describe m.type).field? name = some f) (hsingle : f.cardinality ≠ .repeated)
    {lo hi : Int} (hb : f.kind.bounds? = some (lo, hi)) {w : Int64}
    (hin : lo ≤ w.toInt ∧ w.toInt ≤ hi)
    (hheld : m.fields.lookup f.number = some (.scalar (.int w.toInt)))
    (halone : ∀ number ∈ rivals (s.describe m.type) f, m.fields.lookup number = none) :
    ∃ s', (setMessageField fuel (depth + 2) (.message id) name (.int w)).run call s = .ok () s' ∧
      s.Unchanged s' := by
  have hconvert := run_explaining (Bytes.ofString "in field " ++ name ++ ": ")
    ((run_toField_int fuel depth call s m.type hb w).1 hin)
  refine ⟨_, (run_setMessageField hm hf hsingle w).trans ((run_bind_ok hconvert _).trans
    (run_putField hm _)), rfl, Array.size_modify .., fun id' m' hm' => ?_⟩
  show ∃ m'', (s.messages.modify id _)[id']? = some m'' ∧ m'.Alike m''
  rw [Array.getElem?_modify, hm']
  split
  case isTrue heq =>
    subst heq
    obtain rfl : m' = m := Option.some.inj (hm'.symm.trans hm)
    exact ⟨_, rfl, rfl, rfl, lookup_setNumber_self hheld halone⟩
  case isFalse => exact ⟨m', rfl, rfl, rfl, fun _ => rfl⟩

/-- An int that a field does not have is refused. -/
theorem run_setMessageField_misfit [Host] (fuel depth : Nat) (call : Callback)
    (hm : s.messages[id]? = some m) (hf : (s.describe m.type).field? name = some f)
    (hsingle : f.cardinality ≠ .repeated) {lo hi : Int} (hb : f.kind.bounds? = some (lo, hi))
    {w : Int64} (hout : ¬(lo ≤ w.toInt ∧ w.toInt ≤ hi)) :
    ∃ e, (setMessageField fuel (depth + 2) (.message id) name (.int w)).run call s = .error e s := by
  obtain ⟨msg, hmsg⟩ := (run_toField_int fuel depth call s m.type hb w).2 hout
  have hexplained := run_explaining_error (Bytes.ofString "in field " ++ name ++ ": ") rfl hmsg
  exact ⟨_, (run_setMessageField hm hf hsingle w).trans (run_bind_error hexplained _)⟩

end Stencil
