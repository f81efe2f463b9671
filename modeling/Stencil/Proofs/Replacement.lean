import Stencil.Library.Replacement
import Stencil.Proofs.Json.Words
import Stencil.Proofs.Text.Pieces

/-!
# What replacement texts mean

A replacement text is meant to be read from left to right (`readReplacement`): two backslashes are one,
a backslash before a digit is the group of that number, and all else is itself. It is rewritten into a
template piece by piece, each piece ending with a digit after a backslash, and `piece_read` says that a
piece is rewritten into what it is read as. What follows the last of these digits is put in as it
stands, though, so backslashes are not taken in pairs there (`expandReplacement_exact_iff`).
-/

namespace Stencil

variable {names : List (Nat × Bytes)} {groups : List Bytes} {s t after : Bytes} {d : UInt8} {n : Nat}

/-! ### Reading from left to right -/

/-- The text that a replacement text means, given the texts of the groups. -/
def readReplacement (groups : List Bytes) : Bytes → Bytes
  | [] => []
  | [b] => [b]
  | b :: c :: rest =>
    if b = backslash then
      if c = backslash then backslash :: readReplacement groups rest
      else
        match digitOf? c with
        | some k => groups.getD k [] ++ readReplacement groups rest
        | none => b :: readReplacement groups (c :: rest)
    else b :: readReplacement groups (c :: rest)

attribute [local simp] readReplacement pairBackslashes

/-- A digit comes right after a backslash. -/
def HasReference (t : Bytes) : Prop := ∃ u d v, t = u ++ backslash :: d :: v ∧ (digitOf? d).isSome

/-- Two backslashes come one after the other. -/
def HasPair (t : Bytes) : Prop := ∃ u v, t = u ++ backslash :: backslash :: v

/-- Two backslashes come one after the other, and no digit comes right after a backslash from there
on. -/
def HasLatePair (t : Bytes) : Prop :=
  ∃ u v, t = u ++ backslash :: backslash :: v ∧ ¬HasReference (backslash :: v)

theorem HasReference.append_left (h : HasReference t) : HasReference (s ++ t) := by
  obtain ⟨u, d, v, rfl, hd⟩ := h
  exact ⟨s ++ u, d, v, (List.append_assoc _ _ _).symm, hd⟩

theorem HasReference.cons {b : UInt8} (h : HasReference t) : HasReference (b :: t) :=
  h.append_left (s := [b])

theorem ne_backslash (h : (digitOf? d).isSome) : d ≠ backslash := by
  rintro rfl
  revert h
  decide

theorem ne_dollar (h : (digitOf? d).isSome) : d ≠ dollar := by
  rintro rfl
  revert h
  decide

theorem readReplacement_pair (groups : List Bytes) (t : Bytes) :
    readReplacement groups (backslash :: backslash :: t) = backslash :: readReplacement groups t := by
  rw [readReplacement, if_pos rfl, if_pos rfl]

theorem readReplacement_reference {k : Nat} (h : digitOf? d = some k) (groups : List Bytes) (t : Bytes) :
    readReplacement groups (backslash :: d :: t) = groups.getD k [] ++ readReplacement groups t := by
  have hd : d ≠ backslash := ne_backslash (by rw [h]; rfl)
  rw [readReplacement, if_pos rfl, if_neg hd, h]

theorem readReplacement_cons {b : UInt8} (h : b ≠ backslash) (groups : List Bytes) (t : Bytes) :
    readReplacement groups (b :: t) = b :: readReplacement groups t := by
  cases t with
  | nil => rfl
  | cons c t => rw [readReplacement, if_neg h]

theorem pairBackslashes_pair (t : Bytes) :
    pairBackslashes (backslash :: backslash :: t) = backslash :: pairBackslashes t := by
  rw [pairBackslashes, if_pos (by decide)]

theorem pairBackslashes_cons {b : UInt8} (h : b ≠ backslash) (t : Bytes) :
    pairBackslashes (b :: t) = b :: pairBackslashes t := by
  cases t with
  | nil => rfl
  | cons c t => rw [pairBackslashes, if_neg (by simp [h])]

theorem pairBackslashes_slash {c : UInt8} (h : c ≠ backslash) (t : Bytes) :
    pairBackslashes (backslash :: c :: t) = backslash :: pairBackslashes (c :: t) := by
  rw [pairBackslashes, if_neg (by simp [h])]

/-- Induction on a text whose backslashes are taken in pairs: a pair of them, a backslash that is not
one of a pair, and another byte. -/
@[elab_as_elim]
theorem pairs_induction {motive : Bytes → Prop} (nil : motive []) (single : ∀ b, motive [b])
    (pair : ∀ t, motive t → motive (backslash :: backslash :: t))
    (slash : ∀ c t, c ≠ backslash → motive (c :: t) → motive (backslash :: c :: t))
    (other : ∀ b c t, b ≠ backslash → motive (c :: t) → motive (b :: c :: t)) (t : Bytes) :
    motive t := by
  induction t using pairBackslashes.induct with
  | case1 => exact nil
  | case2 b => exact single b
  | case3 b c t hbc ih =>
    obtain ⟨rfl, rfl⟩ : b = backslash ∧ c = backslash := by simpa using hbc
    exact pair t ih
  | case4 b c t hbc ih =>
    by_cases hb : b = backslash
    · subst hb
      exact slash c t (by simpa using hbc) ih
    · exact other b c t hb ih

theorem readReplacement_slashes (groups : List Bytes) (n : Nat) (t : Bytes) :
    readReplacement groups (List.replicate (2 * n) backslash ++ t) =
      List.replicate n backslash ++ readReplacement groups t := by
  induction n with
  | zero => rfl
  | succ n ih =>
    rw [Nat.mul_succ, List.replicate_succ, List.replicate_succ]
    exact (readReplacement_pair groups _).trans (congrArg (backslash :: ·) ih)

theorem pairBackslashes_slashes (n : Nat) (t : Bytes) :
    pairBackslashes (List.replicate (2 * n) backslash ++ t) =
      List.replicate n backslash ++ pairBackslashes t := by
  induction n with
  | zero => rfl
  | succ n ih =>
    rw [Nat.mul_succ, List.replicate_succ, List.replicate_succ]
    exact (pairBackslashes_pair _).trans (congrArg (backslash :: ·) ih)

/-- A text that does not end with a backslash and has no digit after one is read by itself. -/
theorem readReplacement_append (hlast : s.getLast? ≠ some backslash) (hs : ¬HasReference s) (t : Bytes) :
    readReplacement groups (s ++ t) = pairBackslashes s ++ readReplacement groups t := by
  induction s using pairs_induction with
  | nil => rfl
  | single b =>
    have hb : b ≠ backslash := fun h => hlast (by rw [h]; rfl)
    exact readReplacement_cons hb groups t
  | pair s ih =>
    have hlast' : s.getLast? ≠ some backslash := by
      cases s with
      | nil => exact absurd rfl hlast
      | cons e s => simpa [List.getLast?_cons_cons] using hlast
    have hs' : ¬HasReference s := fun h => hs h.cons.cons
    rw [pairBackslashes_pair]
    exact (readReplacement_pair groups _).trans (congrArg (backslash :: ·) (ih hlast' hs'))
  | slash c s hc ih =>
    rw [List.getLast?_cons_cons] at hlast
    have hdigit : digitOf? c = none := by
      rw [← Option.not_isSome_iff_eq_none]
      exact fun h => hs ⟨[], c, s, rfl, h⟩
    rw [pairBackslashes_slash hc, List.cons_append, List.cons_append, readReplacement, if_pos rfl,
      if_neg hc, hdigit]
    exact congrArg (backslash :: ·) (ih hlast fun h => hs h.cons)
  | other b c s hb ih =>
    rw [List.getLast?_cons_cons] at hlast
    have hread := ih hlast fun h => hs h.cons
    rw [pairBackslashes_cons hb]
    exact (readReplacement_cons hb groups _).trans (congrArg (b :: ·) hread)

theorem pairBackslashes_append (hlast : s.getLast? ≠ some backslash) (t : Bytes) :
    pairBackslashes (s ++ t) = pairBackslashes s ++ pairBackslashes t := by
  induction s using pairs_induction with
  | nil => rfl
  | single b =>
    have hb : b ≠ backslash := fun h => hlast (by rw [h]; rfl)
    exact pairBackslashes_cons hb t
  | pair s ih =>
    have hlast' : s.getLast? ≠ some backslash := by
      cases s with
      | nil => exact absurd rfl hlast
      | cons e s => simpa [List.getLast?_cons_cons] using hlast
    rw [pairBackslashes_pair]
    exact (pairBackslashes_pair _).trans (congrArg (backslash :: ·) (ih hlast'))
  | slash c s hc ih =>
    rw [List.getLast?_cons_cons] at hlast
    rw [pairBackslashes_slash hc]
    exact (pairBackslashes_slash hc _).trans (congrArg (backslash :: ·) (ih hlast))
  | other b c s hb ih =>
    rw [List.getLast?_cons_cons] at hlast
    rw [pairBackslashes_cons hb]
    exact (pairBackslashes_cons hb _).trans (congrArg (b :: ·) (ih hlast))

/-- Without a digit after a backslash only the pairs of backslashes are read. -/
theorem readReplacement_of_not_hasReference (h : ¬HasReference t) :
    readReplacement groups t = pairBackslashes t := by
  induction t using pairs_induction with
  | nil => rfl
  | single b => rfl
  | pair t ih => rw [readReplacement_pair, pairBackslashes_pair, ih fun hr => h hr.cons.cons]
  | slash c t hc ih =>
    have hdigit : digitOf? c = none := by
      rw [← Option.not_isSome_iff_eq_none]
      exact fun hd => h ⟨[], c, t, rfl, hd⟩
    rw [pairBackslashes_slash hc, readReplacement, if_pos rfl, if_neg hc, hdigit]
    exact congrArg (backslash :: ·) (ih fun hr => h hr.cons)
  | other b c t hb ih =>
    rw [pairBackslashes_cons hb, readReplacement_cons hb, ih fun hr => h hr.cons]

theorem length_pairBackslashes_le (t : Bytes) : (pairBackslashes t).length ≤ t.length := by
  induction t using pairs_induction with
  | nil => exact Nat.le_refl _
  | single b => exact Nat.le_refl _
  | pair t ih =>
    rw [pairBackslashes_pair]
    simp only [List.length_cons]
    omega
  | slash c t hc ih =>
    rw [pairBackslashes_slash hc]
    exact Nat.succ_le_succ ih
  | other b c t hb ih =>
    rw [pairBackslashes_cons hb]
    exact Nat.succ_le_succ ih

/-- A pair of backslashes is in what follows a byte unless that byte is the first of a pair. -/
theorem hasPair_cons_iff {b c : UInt8} (h : ¬(b = backslash ∧ c = backslash)) :
    HasPair (b :: c :: t) ↔ HasPair (c :: t) := by
  constructor
  · rintro ⟨u, v, heq⟩
    cases u with
    | nil =>
      obtain ⟨hb, hrest⟩ := List.cons.inj heq
      exact absurd ⟨hb, (List.cons.inj hrest).1⟩ h
    | cons a u => exact ⟨u, v, (List.cons.inj heq).2⟩
  · rintro ⟨u, v, heq⟩
    exact ⟨b :: u, v, congrArg (b :: ·) heq⟩

/-- Only a text without two backslashes in a row stays as it is. -/
theorem pairBackslashes_eq_self_iff : pairBackslashes t = t ↔ ¬HasPair t := by
  induction t using pairs_induction with
  | nil => simp [HasPair]
  | single b =>
    refine iff_of_true rfl ?_
    rintro ⟨u, v, h⟩
    have hlen := congrArg List.length h
    simp only [List.length_append, List.length_cons, List.length_nil] at hlen
    omega
  | pair t ih =>
    refine iff_of_false ?_ fun h => h ⟨[], t, rfl⟩
    intro h
    have hlen := congrArg List.length h
    have hle := length_pairBackslashes_le t
    rw [pairBackslashes_pair] at hlen
    simp only [List.length_cons] at hlen
    omega
  | slash c t hc ih =>
    rw [pairBackslashes_slash hc, List.cons_inj_right, ih, hasPair_cons_iff fun h => hc h.2]
  | other b c t hb ih =>
    rw [pairBackslashes_cons hb, List.cons_inj_right, ih, hasPair_cons_iff fun h => hb h.1]

/-! ### The references of a text -/

theorem referenceHere?_slashes (hd : (digitOf? d).isSome) (n : Nat) (after : Bytes) :
    referenceHere? (List.replicate (2 * n) backslash ++ backslash :: d :: after) = some (n, d, after) := by
  induction n with
  | zero =>
    show referenceHere? (backslash :: d :: after) = _
    rw [referenceHere?, if_pos rfl, if_neg (ne_backslash hd), if_pos hd]
  | succ n ih =>
    rw [Nat.mul_succ, List.replicate_succ, List.replicate_succ, List.cons_append, List.cons_append,
      referenceHere?, if_pos rfl, if_pos rfl, ih]
    rfl

theorem eq_of_referenceHere? (h : referenceHere? t = some (n, d, after)) :
    t = List.replicate (2 * n) backslash ++ backslash :: d :: after ∧ (digitOf? d).isSome := by
  induction t using referenceHere?.induct generalizing n with
  | case1 rest ih =>
    rw [referenceHere?, if_pos rfl, if_pos rfl, Option.map_eq_some_iff] at h
    obtain ⟨⟨k, _, _⟩, hrest, heq⟩ := h
    cases heq
    obtain ⟨rfl, hd⟩ := ih hrest
    exact ⟨rfl, hd⟩
  | case2 c rest hc hd =>
    rw [referenceHere?, if_pos rfl, if_neg hc, if_pos hd] at h
    cases h
    exact ⟨rfl, hd⟩
  | case3 c rest hc hd =>
    rw [referenceHere?, if_pos rfl, if_neg hc, if_neg hd] at h
    cases h
  | case4 b c rest hb =>
    rw [referenceHere?, if_neg hb] at h
    cases h
  | case5 t ht =>
    rw [referenceHere?.eq_def] at h
    split at h
    · exact absurd rfl (ht _ _ _)
    · cases h

theorem not_hasReference_of_nextReference? (h : nextReference? t = none) : ¬HasReference t := by
  induction t with
  | nil =>
    rintro ⟨u, d, v, hu, -⟩
    simp at hu
  | cons b t ih =>
    rw [nextReference?] at h
    split at h
    · cases h
    case h_2 hhere =>
      rintro ⟨u, d, v, hu, hd⟩
      cases u with
      | nil =>
        have hfound := referenceHere?_slashes hd 0 v
        rw [hu] at hhere
        exact absurd (hhere.symm.trans hfound) (Option.some_ne_none _).symm
      | cons a u =>
        exact ih (Option.map_eq_none_iff.1 h) ⟨u, d, v, (List.cons.inj hu).2, hd⟩

/-- Where a reference is found in a text. -/
structure Reference.IsFirst (m : Reference) : Prop where
  digit : (digitOf? m.digit).isSome
  plain : ¬HasReference m.before
  /-- If the digit is escaped, the backslash that does it starts no pair and ends none. -/
  alone : ∀ u, m.before = u ++ [backslash] → u.getLast? ≠ some backslash

theorem nextReference?_spec {m : Reference} (h : nextReference? t = some m) :
    t = m.before ++ (m.text ++ m.after) ∧ (digitOf? m.digit).isSome ∧
      ∀ u v, m.before = u ++ v → v ≠ [] → referenceHere? (v ++ (m.text ++ m.after)) = none := by
  induction t generalizing m with
  | nil => cases h
  | cons b t ih =>
    rw [nextReference?] at h
    split at h
    case h_1 n d after hhere =>
      cases h
      obtain ⟨ht, hd⟩ := eq_of_referenceHere? hhere
      refine ⟨?_, hd, fun u v huv hv => absurd (List.append_eq_nil_iff.1 huv.symm).2 hv⟩
      rw [ht]
      simp [Reference.text, Reference.slashes]
    case h_2 hhere =>
      obtain ⟨m', hm', rfl⟩ := Option.map_eq_some_iff.1 h
      obtain ⟨ht, hd, hfirst⟩ := ih hm'
      refine ⟨congrArg (b :: ·) ht, hd, fun u v huv hv => ?_⟩
      cases u with
      | nil =>
        obtain rfl : b :: m'.before = v := huv
        rw [ht] at hhere
        exact hhere
      | cons a u => exact hfirst u v (List.cons.inj huv).2 hv

theorem nextReference?_isFirst {m : Reference} (h : nextReference? t = some m) : m.IsFirst := by
  obtain ⟨-, hd, hfirst⟩ := nextReference?_spec h
  refine ⟨hd, ?_, ?_⟩
  · rintro ⟨u, c, v, hu, hc⟩
    have hnone := hfirst u (backslash :: c :: v) hu (List.cons_ne_nil _ _)
    have hfound := referenceHere?_slashes hc 0 (v ++ (m.text ++ m.after))
    exact absurd (hnone.symm.trans hfound) (Option.some_ne_none _).symm
  · intro u hu hlast
    obtain ⟨w, rfl⟩ := List.getLast?_eq_some_iff.1 hlast
    have hnone := hfirst w [backslash, backslash] (by rw [hu]; simp) (List.cons_ne_nil _ _)
    have hfound := referenceHere?_slashes hd (m.pairs + 1) m.after
    rw [Nat.mul_succ, List.replicate_succ, List.replicate_succ] at hfound
    refine absurd (hnone.symm.trans ?_) (Option.some_ne_none (m.pairs + 1, m.digit, m.after)).symm
    simpa [Reference.text, Reference.slashes] using hfound

/-- What the text up to a reference, and the reference, are read as. -/
def Reference.reading (m : Reference) (groups : List Bytes) : Bytes :=
  if m.isEscaped then pairBackslashes (m.before ++ m.text)
  else pairBackslashes (m.before ++ m.slashes) ++ groups.getD ((digitOf? m.digit).getD 0) []

/-- The text is read piece by piece. -/
theorem piece_read (groups : List Bytes) {m : Reference} (h : m.IsFirst) (after : Bytes) :
    readReplacement groups (m.before ++ (m.text ++ after)) =
      m.reading groups ++ readReplacement groups after := by
  obtain ⟨k, hk⟩ := Option.isSome_iff_exists.1 h.digit
  unfold Reference.reading
  by_cases hescaped : m.before.getLast? = some backslash
  · obtain ⟨u, hu⟩ := List.getLast?_eq_some_iff.1 hescaped
    have hlast := h.alone u hu
    have hplain : ¬HasReference u := fun ⟨u', c, v, hu', hc⟩ =>
      h.plain ⟨u', c, v ++ [backslash], by rw [hu, hu']; simp, hc⟩
    have hslashes (w : Bytes) : m.before ++ (m.text ++ w) =
        u ++ (List.replicate (2 * (m.pairs + 1)) backslash ++ m.digit :: w) := by
      have hone : List.replicate (2 * (m.pairs + 1)) backslash =
          backslash :: (List.replicate (2 * m.pairs) backslash ++ [backslash]) := by
        rw [Nat.mul_succ, List.replicate_succ, List.replicate_succ']
      rw [hu, hone]
      simp [Reference.text, Reference.slashes]
    have hdigit := ne_backslash h.digit
    have hwhole := hslashes []
    rw [List.append_nil] at hwhole
    rw [Reference.isEscaped, hescaped, if_pos (by simp), hslashes, hwhole,
      readReplacement_append hlast hplain, readReplacement_slashes, readReplacement_cons hdigit,
      pairBackslashes_append hlast, pairBackslashes_slashes, pairBackslashes_cons hdigit]
    simp
  · have htext (w : Bytes) : m.text ++ w = m.slashes ++ backslash :: m.digit :: w := by
      simp [Reference.text]
    rw [Reference.isEscaped, if_neg (by simpa using hescaped), readReplacement_append hescaped h.plain,
      htext, Reference.slashes, readReplacement_slashes, readReplacement_reference hk,
      pairBackslashes_append hescaped, hk]
    have hpairs := pairBackslashes_slashes m.pairs []
    rw [List.append_nil] at hpairs
    rw [hpairs]
    simp

/-! ### The template -/

theorem escapeDollars_append (s t : Bytes) :
    escapeDollars (s ++ t) = escapeDollars s ++ escapeDollars t := List.flatMap_append

theorem escapeDollars_cons {b : UInt8} (h : b ≠ dollar) (t : Bytes) :
    escapeDollars (b :: t) = b :: escapeDollars t := by
  rw [escapeDollars, List.flatMap_cons, if_neg h]
  rfl

theorem escapeDollars_dollar (t : Bytes) :
    escapeDollars (dollar :: t) = dollar :: dollar :: escapeDollars t := by
  rw [escapeDollars, List.flatMap_cons, if_pos rfl]
  rfl

theorem escapeDollars_eq_self (h : dollar ∉ t) : escapeDollars t = t := by
  induction t with
  | nil => rfl
  | cons b t ih =>
    obtain ⟨hb, ht⟩ := not_or.1 (List.mem_cons.not.1 h)
    rw [escapeDollars_cons (Ne.symm hb), ih ht]

theorem pairBackslashes_escapeDollars (t : Bytes) :
    pairBackslashes (escapeDollars t) = escapeDollars (pairBackslashes t) := by
  have hdollar : dollar ≠ backslash := by decide
  induction t using pairs_induction with
  | nil => rfl
  | single b =>
    by_cases hb : b = dollar
    · subst hb
      decide
    · rw [escapeDollars_cons hb]
      exact (escapeDollars_cons hb []).symm
  | pair t ih =>
    rw [escapeDollars_cons hdollar.symm, escapeDollars_cons hdollar.symm, pairBackslashes_pair, ih,
      pairBackslashes_pair, escapeDollars_cons hdollar.symm]
  | slash c t hc ih =>
    rw [pairBackslashes_slash hc, escapeDollars_cons hdollar.symm, escapeDollars_cons hdollar.symm, ← ih]
    by_cases hcd : c = dollar
    · subst hcd
      rw [escapeDollars_dollar, pairBackslashes_slash hdollar]
    · rw [escapeDollars_cons hcd, pairBackslashes_slash hc]
  | other b c t hb ih =>
    rw [pairBackslashes_cons hb]
    by_cases hbd : b = dollar
    · subst hbd
      rw [escapeDollars_dollar, escapeDollars_dollar, pairBackslashes_cons hdollar,
        pairBackslashes_cons hdollar, ih]
    · rw [escapeDollars_cons hbd, escapeDollars_cons hbd, pairBackslashes_cons hb, ih]

/-- Doubled dollar signs are no part of a reference. -/
theorem referenceHere?_escapeDollars (t : Bytes) :
    referenceHere? (escapeDollars t) =
      (referenceHere? t).map fun (n, d, after) => (n, d, escapeDollars after) := by
  have hdollar : dollar ≠ backslash := by decide
  induction t using referenceHere?.induct with
  | case1 t ih =>
    rw [escapeDollars_cons hdollar.symm, escapeDollars_cons hdollar.symm, referenceHere?, if_pos rfl,
      if_pos rfl, ih, referenceHere?, if_pos rfl, if_pos rfl, Option.map_map, Option.map_map]
    rfl
  | case2 c t hc hd =>
    rw [escapeDollars_cons hdollar.symm, escapeDollars_cons (ne_dollar hd), referenceHere?, if_pos rfl,
      if_neg hc, if_pos hd, referenceHere?, if_pos rfl, if_neg hc, if_pos hd]
    rfl
  | case3 c t hc hd =>
    rw [escapeDollars_cons hdollar.symm, referenceHere?, if_pos rfl, if_neg hc, if_neg hd]
    by_cases hcd : c = dollar
    · subst hcd
      rw [escapeDollars_dollar, referenceHere?, if_pos rfl, if_neg hc, if_neg hd]
      rfl
    · rw [escapeDollars_cons hcd, referenceHere?, if_pos rfl, if_neg hc, if_neg hd]
      rfl
  | case4 b c t hb =>
    have hother (u : Bytes) : referenceHere? (b :: u) = none := by
      cases u with
      | nil => rfl
      | cons e u => rw [referenceHere?, if_neg hb]
    rw [hother]
    by_cases hbd : b = dollar
    · subst hbd
      rw [escapeDollars_dollar, hother]
      rfl
    · rw [escapeDollars_cons hbd, hother]
      rfl
  | case5 t ht =>
    cases t with
    | nil => rfl
    | cons b t =>
      cases t with
      | nil =>
        by_cases hbd : b = dollar
        · subst hbd
          decide
        · rw [escapeDollars_cons hbd]
          rfl
      | cons c t => exact absurd rfl (ht b c t)

/-- A reference in a text whose dollar signs have been doubled. -/
def Reference.doubled (m : Reference) : Reference :=
  { m with before := escapeDollars m.before, after := escapeDollars m.after }

theorem nextReference?_escapeDollars (t : Bytes) :
    nextReference? (escapeDollars t) = (nextReference? t).map Reference.doubled := by
  induction t with
  | nil => rfl
  | cons b t ih =>
    have hhere := referenceHere?_escapeDollars (b :: t)
    by_cases hb : b = dollar
    · subst hb
      have hother (u : Bytes) : referenceHere? (dollar :: u) = none := by
        cases u with
        | nil => rfl
        | cons e u => rfl
      rw [escapeDollars_dollar, nextReference?, hother, nextReference?, hother, ih, nextReference?, hother]
      simp only [Option.map_map]
      refine Option.map_congr fun m _ => ?_
      simp [Reference.doubled, escapeDollars_dollar]
    · rw [escapeDollars_cons hb] at hhere ⊢
      rw [nextReference?, hhere, nextReference?]
      cases h : referenceHere? (b :: t) with
      | some r => rfl
      | none =>
        simp only [Option.map_none, ih, Option.map_map]
        refine Option.map_congr fun m _ => ?_
        simp [Reference.doubled, escapeDollars_cons hb]

/-- Doubled dollar signs stand for themselves in a template. -/
theorem expandTemplate_escapeDollars (s t : Bytes) :
    expandTemplate names groups (escapeDollars s ++ t) = s ++ expandTemplate names groups t := by
  induction s with
  | nil => rfl
  | cons b s ih =>
    by_cases hb : b = dollar
    · subst hb
      rw [escapeDollars_dollar, List.cons_append, List.cons_append, expandTemplate, if_pos rfl,
        List.head?_cons, if_pos rfl, List.tail_cons, ih, List.cons_append]
    · rw [escapeDollars_cons hb, List.cons_append, expandTemplate, if_neg hb, ih, List.cons_append]

/-- The name that a digit is. -/
theorem groupNumber?_digit {k : Nat} (h : digitOf? d = some k) : groupNumber? [d] = some k := by
  simp [groupNumber?, h]

theorem lt_of_digit (h : (digitOf? d).isSome) : 48 ≤ d.toNat ∧ d.toNat ≤ 57 := by
  unfold digitOf? at h
  split at h
  case isTrue hd =>
    simpa [UInt8.le_iff_toNat_le] using hd
  case isFalse => cases h

/-- A digit in braces is a name, and ends where the braces do. -/
theorem templateName?_digit (h : (digitOf? d).isSome) (t : Bytes) :
    templateName? (openBrace :: d :: closeBrace :: t) = some ([d], t) := by
  obtain ⟨hleast, hgreatest⟩ := lt_of_digit h
  have hd : d < 128 := UInt8.lt_iff_toNat_lt.2 (by show d.toNat < 128; omega)
  have hpart : Glyph.isGroupNamePart (.char (Char.ofNat d.toNat)) = true := by
    have hcases : d.toNat ∈ List.range' 48 10 := by
      rw [List.mem_range'_1]
      omega
    revert hcases
    generalize d.toNat = k
    intro hk
    have hall : ∀ k ∈ List.range' 48 10, Glyph.isGroupNamePart (.char (Char.ofNat k)) = true := by decide
    exact hall k hk
  have hstop : Glyph.isGroupNamePart (.char (Char.ofNat closeBrace.toNat)) = false := by decide
  have hname : spanGroupName (d :: closeBrace :: t) = ([d], closeBrace :: t) := by
    rw [spanGroupName, glyphs_ascii_cons hd, glyphs_ascii_cons (by decide), List.takeWhile_cons,
      if_pos hpart, List.takeWhile_cons, if_neg (by rw [hstop]; decide)]
    simp [Bytes.ofGlyphs, Glyph.bytes, ofChar_ofNat_byte hd]
  rw [templateName?]
  have hopen : Bytes.dropLeading? [openBrace] (openBrace :: d :: closeBrace :: t) =
      some (d :: closeBrace :: t) := dropLeading?_eq_some_iff.2 rfl
  have hclose : Bytes.dropLeading? [closeBrace] (closeBrace :: t) = some t :=
    dropLeading?_eq_some_iff.2 rfl
  rw [hopen]
  simp [hname, hclose]

theorem expandTemplate_group {k : Nat} (h : digitOf? d = some k) (t : Bytes) :
    expandTemplate names groups (dollar :: openBrace :: d :: closeBrace :: t) =
      groups.getD k [] ++ expandTemplate names groups t := by
  have hname := templateName?_digit (by rw [h]; rfl : (digitOf? d).isSome) t
  have hbrace : ¬some openBrace = some dollar := by decide
  rw [expandTemplate, if_pos rfl, List.head?_cons, if_neg hbrace]
  split
  case h_1 hnone => rw [hname] at hnone; cases hnone
  case h_2 hsome =>
    rw [hname] at hsome
    cases hsome
    rw [groupText, groupNumber?_digit h]

/-! ### Piece by piece -/

theorem getLast?_escapeDollars (s : Bytes) : (escapeDollars s).getLast? = s.getLast? := by
  rcases List.eq_nil_or_concat s with rfl | ⟨u, b, rfl⟩
  · rfl
  · rw [List.concat_eq_append, escapeDollars_append]
    by_cases hb : b = dollar
    · subst hb
      simp [escapeDollars]
    · simp [escapeDollars, hb]

theorem expandReplacement_of_none (h : nextReference? t = none) :
    expandReplacement names groups t = t := by
  have hnext : nextReference? (escapeDollars t) = none := by rw [nextReference?_escapeDollars, h]; rfl
  have hconvert : convertReplacement t = escapeDollars t ++ [] := by
    rw [convertReplacement, convertReferences, List.append_nil]
    split
    case h_1 => rfl
    case h_2 hsome => rw [hnext] at hsome; cases hsome
  rw [expandReplacement, hconvert, expandTemplate_escapeDollars, expandTemplate, List.append_nil]

/-- The text up to a reference, and the reference, are replaced by what they are read as. -/
theorem expandReplacement_of_some {m : Reference} (h : nextReference? t = some m) :
    expandReplacement names groups t = m.reading groups ++ expandReplacement names groups m.after := by
  have hdigit := (nextReference?_isFirst h).digit
  obtain ⟨k, hk⟩ := Option.isSome_iff_exists.1 hdigit
  have hnext : nextReference? (escapeDollars t) = some m.doubled := by
    rw [nextReference?_escapeDollars, h]
    rfl
  have hescaped : m.doubled.isEscaped = m.isEscaped := by
    show decide (_ = _) = decide (_ = _)
    rw [Reference.doubled, getLast?_escapeDollars]
  have hslash : ∀ n, dollar ∉ List.replicate n backslash := fun n hmem =>
    absurd (List.eq_of_mem_replicate hmem) (by decide)
  have hslashes : escapeDollars m.slashes = m.slashes := escapeDollars_eq_self (hslash _)
  have htext : escapeDollars m.text = m.text := by
    refine escapeDollars_eq_self ?_
    simp only [Reference.text, Reference.slashes, List.mem_append, List.mem_cons, List.not_mem_nil,
      or_false, not_or]
    exact ⟨hslash _, by decide, (ne_dollar hdigit).symm⟩
  have hconvert : convertReplacement t =
      if m.isEscaped then
        escapeDollars (pairBackslashes (m.before ++ m.text)) ++ convertReplacement m.after
      else
        escapeDollars (pairBackslashes (m.before ++ m.slashes)) ++
          dollar :: openBrace :: m.digit :: closeBrace :: convertReplacement m.after := by
    rw [convertReplacement, convertReferences]
    split
    case h_1 hnone => rw [hnext] at hnone; cases hnone
    case h_2 hsome =>
      rw [hnext] at hsome
      cases hsome
      rw [hescaped, ← pairBackslashes_escapeDollars, escapeDollars_append, htext,
        ← pairBackslashes_escapeDollars, escapeDollars_append, hslashes]
      split
      · rfl
      · rw [List.append_assoc]
        rfl
  rw [expandReplacement, hconvert, Reference.reading, hk]
  split
  · exact expandTemplate_escapeDollars _ _
  · rw [expandTemplate_escapeDollars, expandTemplate_group hk, List.append_assoc]
    rfl

/-- A late pair is one behind all references. -/
theorem hasLatePair_append (hd : (digitOf? d).isSome) :
    HasLatePair (s ++ backslash :: d :: t) ↔ HasLatePair t := by
  have hne := ne_backslash hd
  constructor
  · rintro ⟨u, v, heq, hlate⟩
    rcases List.append_eq_append_iff.1 heq with ⟨x, -, hx⟩ | ⟨x, -, hx⟩
    · -- the pair comes after the start of the reference
      match x, hx with
      | [], hx => exact absurd (List.cons.inj (List.cons.inj hx).2).1 hne
      | [_], hx => exact absurd (List.cons.inj (List.cons.inj hx).2).1 hne
      | _ :: _ :: x, hx => exact ⟨x, v, (List.cons.inj (List.cons.inj hx).2).2, hlate⟩
    · -- the pair starts before the reference, which is then no earlier than its second half
      cases x with
      | nil => exact absurd (List.cons.inj (List.cons.inj hx).2).1.symm hne
      | cons c x => exact absurd ⟨x, d, t, (List.cons.inj hx).2, hd⟩ hlate
  · rintro ⟨u, v, rfl, hlate⟩
    exact ⟨s ++ backslash :: d :: u, v, by simp, hlate⟩

/-- **What a replacement text is expanded to.** For all texts of the groups, it is what the text means,
read from left to right, unless two backslashes come one after the other behind the last digit after a
backslash. -/
theorem expandReplacement_exact_iff (names : List (Nat × Bytes)) (groups : List Bytes) (b : Bytes) :
    expandReplacement names groups b = readReplacement groups b ↔ ¬HasLatePair b := by
  induction hn : b.length using Nat.strong_induction_on generalizing b with
  | _ n ih =>
    cases h : nextReference? b with
    | none =>
      have hplain := not_hasReference_of_nextReference? h
      have hlate : HasLatePair b ↔ HasPair b := by
        refine ⟨fun ⟨u, v, hb, _⟩ => ⟨u, v, hb⟩, fun ⟨u, v, hb⟩ => ⟨u, v, hb, fun hr => hplain ?_⟩⟩
        rw [hb]
        exact hr.cons.append_left
      rw [expandReplacement_of_none h, readReplacement_of_not_hasReference hplain, hlate, eq_comm]
      exact pairBackslashes_eq_self_iff
    | some m =>
      have hfirst := nextReference?_isFirst h
      have hlen := length_of_nextReference? h
      obtain ⟨hb, -⟩ := nextReference?_spec h
      have hread := piece_read groups hfirst m.after
      rw [← hb] at hread
      have hlate : HasLatePair b ↔ HasLatePair m.after := by
        have hshape : b = (m.before ++ m.slashes) ++ backslash :: m.digit :: m.after := by
          rw [hb]
          simp [Reference.text]
        rw [hshape]
        exact hasLatePair_append hfirst.digit
      rw [expandReplacement_of_some h, hread, List.append_right_inj, hlate]
      exact ih m.after.length (hn ▸ hlen) m.after rfl

/-- A text of two backslashes is left alone, and means one. -/
theorem expandReplacement_pair :
    ¬∀ (names : List (Nat × Bytes)) (groups : List Bytes) (b : Bytes),
      expandReplacement names groups b = readReplacement groups b := by
  intro h
  have hnone : nextReference? [backslash, backslash] = none := by decide
  have hpair := h [] [] [backslash, backslash]
  rw [expandReplacement_of_none hnone] at hpair
  revert hpair
  decide

end Stencil
