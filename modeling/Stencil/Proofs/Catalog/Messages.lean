import Mathlib.Data.List.Infix
import Stencil.Program.Settings
import Stencil.Proofs.Catalog.Paths
import Stencil.Proofs.Equality.Order
import Stencil.Proofs.Json.Words

/-!
# The two catalogs of messages

The messages of a pool are listed from its files, selected by the package of the file, or from a
register of types, selected by the name of the type. Where the messages of a file are named within
its package, as they are in every pool that is loaded (`qualified_loadDescriptorSet`), the two
select the same messages (`selected_files`), and list the same names in the same order, whatever the
order of the files and of the register (`catalogs_agree`).
-/

namespace Stencil

open Json (bind_eq_ok)

/-! ### The order of names -/

theorem pairwise_sort (names : List Bytes) :
    (Bytes.sort names).Pairwise fun a b => Bytes.le a b = true :=
  List.pairwise_mergeSort (@Bytes.le_trans) Bytes.le_total names

theorem sort_perm (names : List Bytes) : (Bytes.sort names).Perm names := List.mergeSort_perm ..

/-- The order in which names are given is lost when they are sorted. -/
theorem sort_eq_of_perm {names names' : List Bytes} (h : names.Perm names') :
    Bytes.sort names = Bytes.sort names' := by
  have hperm := (sort_perm names).trans (h.trans (sort_perm names').symm)
  exact hperm.eq_of_pairwise (fun _ _ _ _ => Bytes.le_antisymm) (pairwise_sort names)
    (pairwise_sort names')

/-! ### Names within packages -/

/-- A name of one piece. -/
def IsSimple (name : Bytes) : Prop := name ≠ [] ∧ 46 ∉ name

/-- A name of pieces none of which is empty, or no name at all. -/
def IsPackage (package : Bytes) : Prop := package = [] ∨ ∀ s ∈ segments package, s ≠ []

section

variable {package name full ns : Bytes}

theorem segments_append_dot (a b : Bytes) : segments (a ++ 46 :: b) = segments a ++ segments b := by
  rw [segments, segments, segments, ofString_dot, splitOn_singleton, splitOn_singleton,
    splitOn_singleton]
  exact List.splitOn_append_cons_self a b

/-- The name of a package does not end with a dot. -/
theorem IsPackage.not_dot (h : IsPackage (ns ++ [46])) : False := by
  obtain h | h := h
  · exact List.append_ne_nil_of_right_ne_nil ns (List.cons_ne_nil 46 []) h
  · refine h [] ?_ rfl
    rw [segments_append_dot]
    exact List.mem_append_right _ (List.mem_singleton.2 rfl)

theorem inNamespace_iff :
    inNamespace full ns = true ↔ ∃ rest, rest ≠ [] ∧ full = ns ++ 46 :: rest := by
  rw [inNamespace, ofString_dot]
  constructor
  · intro h
    split at h
    · rename_i rest hrest
      refine ⟨rest, by simpa using h, ?_⟩
      simpa using dropLeading?_eq_some_iff.1 hrest
    · cases h
  · rintro ⟨rest, hne, rfl⟩
    have hdrop : Bytes.dropLeading? (ns ++ [46]) (ns ++ 46 :: rest) = some rest :=
      dropLeading?_eq_some_iff.2 (by simp)
    rw [hdrop]
    simpa using hne

theorem within_of_package (h : package ≠ []) : within package name = package ++ 46 :: name := by
  rw [within, ofString_dot, if_neg (by simpa using h), List.append_assoc]
  rfl

/-- A name in a package begins with a namespace and a dot where the package is this namespace or
lies within it. -/
theorem inNamespace_within (hpackage : IsPackage package) (hname : IsSimple name) (hns : ns ≠ []) :
    inNamespace (within package name) ns = true ↔ package = ns ∨ inNamespace package ns = true := by
  simp only [inNamespace_iff]
  by_cases hempty : package = []
  · subst hempty
    constructor
    · rintro ⟨rest, -, hrest⟩
      refine absurd ?_ hname.2
      rw [show name = ns ++ 46 :: rest from hrest]
      exact List.mem_append_right _ List.mem_cons_self
    · rintro (h | ⟨rest, -, hrest⟩)
      · exact absurd h.symm hns
      · exact absurd hrest.symm (List.append_ne_nil_of_right_ne_nil ns (List.cons_ne_nil 46 rest))
  · rw [within_of_package hempty]
    constructor
    · rintro ⟨rest, -, hrest⟩
      -- The two dots are the same one, or one of them lies in the name or in the package.
      obtain ⟨a, rfl, ha⟩ | ⟨c, rfl, hc⟩ := List.append_eq_append_iff.1 hrest
      · cases a with
        | nil => exact .inl (List.append_nil package).symm
        | cons x a =>
          refine absurd ?_ hname.2
          rw [(List.cons.inj ha).2]
          exact List.mem_append_right _ List.mem_cons_self
      · cases c with
        | nil => exact .inl (List.append_nil ns)
        | cons x c =>
          obtain ⟨rfl, -⟩ := List.cons.inj hc
          refine .inr ⟨c, ?_, rfl⟩
          rintro rfl
          exact hpackage.not_dot
    · rintro (rfl | ⟨rest, -, rfl⟩)
      · exact ⟨name, hname.1, rfl⟩
      · exact ⟨rest ++ 46 :: name, by simp, by simp⟩

/-- Nothing has to be said of what follows the dot in the name of a message. -/
theorem inNamespace_within_iff_prefix (hname : IsSimple name) :
    inNamespace (within package name) ns = true ↔
      (ns ++ [46]) <+: within package name := by
  rw [inNamespace_iff]
  constructor
  · rintro ⟨rest, -, hrest⟩
    exact ⟨rest, by rw [hrest]; simp⟩
  · rintro ⟨rest, hrest⟩
    refine ⟨rest, ?_, by rw [← hrest]; simp⟩
    rintro rfl
    rw [List.append_nil] at hrest
    -- A name does not end with a dot.
    by_cases hempty : package = []
    · subst hempty
      refine absurd ?_ hname.2
      rw [show name = ns ++ [46] from hrest.symm]
      exact List.mem_append_right _ List.mem_cons_self
    · rw [within_of_package hempty, ← List.dropLast_append_getLast hname.1, ← List.cons_append,
        ← List.append_assoc] at hrest
      have hlast : [46] = [name.getLast hname.1] := List.append_inj_right' hrest rfl
      refine absurd ?_ hname.2
      rw [(List.cons.inj hlast).1]
      exact List.getLast_mem hname.1

end

/-! ### What is listed -/

/-- Names in order, unless there are none. -/
def listNames (names : List Bytes) : Except LoadFailure (List Bytes) :=
  if names.isEmpty then .error .notFound else .ok (Bytes.sort names)

/-- The full names of the types that a source has within a namespace. -/
def TypeSource.fullNames (ns : Bytes) (source : TypeSource) : Except LoadFailure (List Bytes) :=
  (source.types ns).map (·.map (·.fullName))

/-- What there is to list for a namespace: the names that begin with it and a dot, in order. -/
inductive Lists (ns : Bytes) (names : List Bytes) : Except LoadFailure (List Bytes) → Prop
  | found {listed : List Bytes} (hne : listed ≠ [])
      (hsorted : listed.Pairwise fun a b => Bytes.le a b = true)
      (hperm : listed.Perm (names.filter fun n => (ns ++ [46]) <+: n)) : Lists ns names (.ok listed)
  | missing (hnone : ∀ n ∈ names, ¬ (ns ++ [46]) <+: n) : Lists ns names (.error .notFound)

section

variable {ns : Bytes} {names names' : List Bytes} {make : Bytes → TypeRef}

theorem map_listTypes (h : ∀ n, (make n).fullName = n) :
    (listTypes make names).map (·.map (·.fullName)) = listNames names := by
  rw [listTypes, listNames]
  split
  · rfl
  · have hid : (fun t : TypeRef => t.fullName) ∘ make = id := funext h
    simp [Except.map, hid]

theorem listNames_perm (h : names.Perm names') : listNames names = listNames names' := by
  rw [listNames, listNames, sort_eq_of_perm h]
  refine if_congr ?_ rfl rfl
  rw [List.isEmpty_iff, List.isEmpty_iff, ← List.length_eq_zero_iff, h.length_eq,
    List.length_eq_zero_iff]

theorem lists_listNames :
    Lists ns names (listNames (names.filter fun n => (ns ++ [46]) <+: n)) := by
  generalize hbelow : (names.filter fun n => (ns ++ [46]) <+: n) = below
  rw [listNames]
  by_cases h : below = []
  · rw [h] at hbelow ⊢
    refine .missing fun n hn hprefix => ?_
    simpa using List.filter_eq_nil_iff.1 hbelow n hn (decide_eq_true hprefix)
  · rw [if_neg (by simpa using h)]
    refine .found (fun hnil => h ?_) (pairwise_sort below) (by rw [hbelow]; exact sort_perm below)
    exact List.Perm.eq_nil (hnil ▸ (sort_perm below).symm)

end

/-! ### Messages within the packages of their files -/

/-- The messages of a file that are not part of another are named within its package. -/
structure FileDesc.Qualified (f : FileDesc) : Prop where
  package : IsPackage f.package
  messages : ∀ m ∈ f.messages, m.isTop = true →
    ∃ name, IsSimple name ∧ m.fullName = within f.package name

/-- The messages of every file are named within its package. -/
def Pool.Qualified (p : Pool) : Prop := ∀ f ∈ p.files, f.Qualified

section

variable {p q : Pool} {f : FileDesc} {ns n : Bytes}

theorem FileDesc.Qualified.name (hf : f.Qualified) (hn : n ∈ f.typeFile.messages) :
    ∃ name, IsSimple name ∧ n = within f.package name := by
  obtain ⟨m, hm, rfl⟩ := List.mem_map.1 hn
  obtain ⟨hmem, htop⟩ := List.mem_filter.1 hm
  exact hf.messages m hmem htop

theorem topMessages_eq : p.topMessages = (p.files.map (·.typeFile)).flatMap (·.messages) := by
  rw [List.flatMap_map]
  rfl

/-- A file is passed over if none of its messages lies within the namespace, and otherwise all of
them do. -/
theorem FileDesc.Qualified.selected (hf : f.Qualified) (hns : ns ≠ []) :
    (if f.typeFile.package = ns || inNamespace f.typeFile.package ns then f.typeFile.messages
      else []) = f.typeFile.messages.filter fun n => inNamespace n ns := by
  have hall (n : Bytes) (hn : n ∈ f.typeFile.messages) : inNamespace n ns = true ↔
      f.typeFile.package = ns ∨ inNamespace f.typeFile.package ns = true := by
    obtain ⟨name, hname, rfl⟩ := hf.name hn
    exact inNamespace_within hf.package hname hns
  split
  · rename_i h
    refine (List.filter_eq_self.2 fun n hn => (hall n hn).2 ?_).symm
    simpa using h
  · rename_i h
    refine (List.filter_eq_nil_iff.2 fun n hn hin => h ?_).symm
    simpa using (hall n hn).1 hin

/-- Selecting by the packages of files is selecting by the names of messages. -/
theorem selected_files {files : List FileDesc} (hfiles : ∀ f ∈ files, f.Qualified) (hns : ns ≠ []) :
    ((files.map (·.typeFile)).filter fun f => f.package = ns || inNamespace f.package ns).flatMap
      (·.messages) =
    ((files.map (·.typeFile)).flatMap (·.messages)).filter fun n => inNamespace n ns := by
  induction files with
  | nil => rfl
  | cons f files ih =>
    have hf := (hfiles f List.mem_cons_self).selected hns
    have hrest := ih fun g hg => hfiles g (List.mem_cons_of_mem f hg)
    rw [List.map_cons, List.flatMap_cons, List.filter_append, ← hrest, ← hf,
      List.filter_cons]
    split
    · exact List.flatMap_cons
    · rfl

/-- The files of a pool give the names of the messages that lie within the namespace. -/
theorem fullNames_files (hp : p.linked = false) (hqualified : p.Qualified) (hns : ns ≠ [])
    (index : Nat) : (p.source index).fullNames ns =
      listNames (p.topMessages.filter fun n => inNamespace n ns) := by
  rw [TypeSource.fullNames, Pool.source, if_neg (by simp [hp]), TypeSource.types,
    selected_files hqualified hns, ← topMessages_eq]
  exact map_listTypes fun _ => rfl

/-- So does the register of its types. -/
theorem fullNames_types (hq : q.linked = true) (index : Nat) : (q.source index).fullNames ns =
    listNames (q.topMessages.filter fun n => inNamespace n ns) := by
  rw [TypeSource.fullNames, Pool.source, if_pos hq, TypeSource.types]
  exact map_listTypes fun _ => rfl

theorem filter_inNamespace (hqualified : p.Qualified) :
    (p.topMessages.filter fun n => inNamespace n ns) =
      p.topMessages.filter fun n => (ns ++ [46]) <+: n := by
  refine List.filter_congr fun n hn => ?_
  obtain ⟨f, hf, hn⟩ := List.mem_flatMap.1 hn
  obtain ⟨name, hname, rfl⟩ := (hqualified f hf).name hn
  rw [Bool.eq_iff_iff, decide_eq_true_iff]
  exact inNamespace_within_iff_prefix hname

/-- Listed by files or by types, the same messages give the same names in the same order, and these
are the ones that begin with the namespace and a dot. -/
theorem catalogs_agree (hp : p.linked = false) (hq : q.linked = true) (hqualified : p.Qualified)
    (hsame : p.topMessages.Perm q.topMessages) (hns : ns ≠ []) (i j : Nat) :
    (p.source i).fullNames ns = (q.source j).fullNames ns ∧
      Lists ns p.topMessages ((p.source i).fullNames ns) := by
  have hfiles := fullNames_files hp hqualified hns i
  constructor
  · rw [hfiles, fullNames_types hq]
    exact listNames_perm (hsame.filter _)
  · rw [hfiles, filter_inNamespace hqualified]
    exact lists_listNames

/-- A file with messages of the given names in its package. -/
def FileDesc.ofNames (package : Bytes) (names : List Bytes) : FileDesc :=
  { package, messages := names.map fun n => { fullName := within package n, fields := [] } }

theorem qualified_ofNames {package : Bytes} {names : List Bytes} (hpackage : IsPackage package)
    (hnames : ∀ n ∈ names, IsSimple n) : (FileDesc.ofNames package names).Qualified := by
  refine ⟨hpackage, fun m hm _ => ?_⟩
  obtain ⟨n, hn, rfl⟩ := List.mem_map.1 hm
  exact ⟨n, hnames n hn, rfl⟩

/-- Files of three packages. One has the name of another with more letters. -/
def neighbours : List FileDesc :=
  [.ofNames "acmegeo" ["Dot"], .ofNames "acme.geo" ["Point", "Line"], .ofNames "acme" ["Item"]]

theorem qualified_neighbours (linked : Bool) : Pool.Qualified ⟨neighbours, linked⟩ := by
  refine List.forall_mem_cons.2 ⟨?_, List.forall_mem_cons.2 ⟨?_, ?_⟩⟩
  on_goal 3 => refine List.forall_mem_singleton.2 ?_
  all_goals
    exact qualified_ofNames (.inr (by decide +kernel)) (by unfold IsSimple; decide +kernel)

/-- The messages of the neighbour are listed in neither way. -/
theorem catalogs_agree_neighbours :
    ((⟨neighbours, false⟩ : Pool).source 0).fullNames "acme" =
        ((⟨neighbours.reverse, true⟩ : Pool).source 1).fullNames "acme" ∧
      Lists "acme" (⟨neighbours, false⟩ : Pool).topMessages
        (((⟨neighbours, false⟩ : Pool).source 0).fullNames "acme") := by
  refine catalogs_agree rfl rfl (qualified_neighbours false) ?_ (by decide +kernel) 0 1
  exact (List.reverse_perm neighbours).symm.flatMap_right _

end

/-! ### Pools that are loaded -/

section

variable {ε α β : Type}

/-- What holds at the start and is kept by every step holds at the end of a run that succeeds. -/
theorem foldlM_ok {P : β → Prop} {step : β → α → Except ε β} {xs : List α} {b b' : β}
    (hstep : ∀ x ∈ xs, ∀ b b', P b → step b x = .ok b' → P b') (hb : P b)
    (h : xs.foldlM step b = .ok b') : P b' := by
  induction xs generalizing b with
  | nil =>
    cases h
    exact hb
  | cons x xs ih =>
    rw [List.foldlM_cons] at h
    obtain ⟨c, hc, h⟩ := bind_eq_ok.1 h
    exact ih (fun y hy => hstep y (List.mem_cons_of_mem x hy))
      (hstep x List.mem_cons_self b c hb hc) h

/-- In a run that succeeds, every step does. -/
theorem forall_of_foldlM_ok {P : α → Prop} {step : β → α → Except ε β} {xs : List α} {b b' : β}
    (hstep : ∀ x b b', step b x = .ok b' → P x) (h : xs.foldlM step b = .ok b') :
    ∀ x ∈ xs, P x := by
  induction xs generalizing b with
  | nil => exact fun x hx => absurd hx List.not_mem_nil
  | cons x xs ih =>
    rw [List.foldlM_cons] at h
    obtain ⟨c, hc, h⟩ := bind_eq_ok.1 h
    exact List.forall_mem_cons.2 ⟨hstep x b c hc, ih h⟩

theorem exists_of_mem_mapM {f : α → Except ε β} {xs : List α} {ys : List β}
    (h : xs.mapM f = .ok ys) : ∀ y ∈ ys, ∃ x ∈ xs, f x = .ok y := by
  induction xs generalizing ys with
  | nil =>
    cases h
    exact fun y hy => absurd hy List.not_mem_nil
  | cons x xs ih =>
    rw [List.mapM_cons] at h
    obtain ⟨z, hz, h⟩ := bind_eq_ok.1 h
    obtain ⟨zs, hzs, h⟩ := bind_eq_ok.1 h
    cases h
    refine List.forall_mem_cons.2 ⟨⟨x, List.mem_cons_self, hz⟩, fun y hy => ?_⟩
    obtain ⟨w, hw, hf⟩ := ih hzs y hy
    exact ⟨w, List.mem_cons_of_mem x hw, hf⟩

end

section

variable {name : Bytes}

theorem isSimple_of_isPlainName (h : isPlainName name = true) : IsSimple name := by
  cases name with
  | nil => cases h
  | cons b rest =>
    simp only [isPlainName, Bool.and_eq_true, List.all_eq_true] at h
    refine ⟨List.cons_ne_nil b rest, fun hmem => ?_⟩
    obtain hb | hrest := List.mem_cons.1 hmem
    · rw [← hb] at h
      exact absurd h.1 (by decide)
    · exact absurd (h.2 46 hrest) (by decide)

theorem isPackage_of_isDottedName (h : isDottedName name = true) : IsPackage name := by
  refine .inr fun s hs => ?_
  exact (isSimple_of_isPlainName (List.all_eq_true.1 h s hs)).1

theorem isPlainName_of_declareMessage {depth : Nat} {scope : Bytes} {ds ds' : Declarations}
    {m : MessageTree} (h : declareMessage (depth + 1) scope ds m = .ok ds') :
    isPlainName (m.textAt 1) = true := by
  rw [declareMessage] at h
  obtain ⟨ds₁, hdeclare, -⟩ := bind_eq_ok.1 h
  rw [Declarations.declare] at hdeclare
  split at hdeclare
  · cases hdeclare
  · rename_i hplain
    simpa using hplain

/-- Only the message itself is not part of another one. -/
theorem isTop_of_mem_messageDescsOf {s : FileScope} {depth : Nat} {scope : Bytes} {top : Bool}
    {m : MessageTree} {descs : List MessageDesc}
    (h : messageDescsOf s depth top scope m = .ok descs) :
    ∀ d ∈ descs, d.isTop = true →
      top = true ∧ 0 < depth ∧ d.fullName = within scope (m.textAt 1) := by
  induction depth generalizing scope top m descs with
  | zero =>
    cases h
    exact fun d hd => absurd hd List.not_mem_nil
  | succ depth ih =>
    rw [messageDescsOf] at h
    obtain ⟨fields, -, h⟩ := bind_eq_ok.1 h
    obtain ⟨nested, hnested, h⟩ := bind_eq_ok.1 h
    cases h
    refine List.forall_mem_cons.2 ⟨fun htop => ⟨htop, Nat.succ_pos depth, rfl⟩, fun d hd htop => ?_⟩
    obtain ⟨inner, hinner, hd⟩ := List.mem_flatten.1 hd
    obtain ⟨x, -, hx⟩ := exists_of_mem_mapM hnested inner hinner
    cases (ih hx d hd htop).1

end

/-- The files added so far are named as they should be. -/
def FileTable.Qualified (t : FileTable) : Prop := ∀ g ∈ t.files, g.1.Qualified

section

variable {t t' : FileTable} {depth : Nat} {f : MessageTree}

/-- A file is added with names that were checked when they were declared. -/
theorem FileTable.qualified_add (ht : t.Qualified) (h : t.add depth f = .ok t') : t'.Qualified := by
  rw [FileTable.add] at h
  obtain ⟨edition, -, h⟩ := bind_eq_ok.1 h
  dsimp only at h
  split at h
  · cases h
  · split at h
    · cases h
    · rename_i hpackage
      obtain ⟨-, -, h⟩ := bind_eq_ok.1 h
      obtain ⟨-, -, h⟩ := bind_eq_ok.1 h
      obtain ⟨-, -, h⟩ := bind_eq_ok.1 h
      obtain ⟨own, -, h⟩ := bind_eq_ok.1 h
      obtain ⟨own', hdeclared, h⟩ := bind_eq_ok.1 h
      obtain ⟨messages, hmessages, h⟩ := bind_eq_ok.1 h
      obtain ⟨-, -, h⟩ := bind_eq_ok.1 h
      obtain ⟨-, -, h⟩ := bind_eq_ok.1 h
      obtain ⟨-, -, h⟩ := bind_eq_ok.1 h
      cases h
      refine fun g hg => (List.mem_append.1 hg).elim (ht g) fun hg => ?_
      rw [List.mem_singleton.1 hg]
      refine ⟨?_, fun d hd htop => ?_⟩
      · by_cases hempty : f.textAt 2 = []
        · exact .inl hempty
        · exact isPackage_of_isDottedName (by simpa [hempty] using hpackage)
      · obtain ⟨descs, hdescs, hd⟩ := List.mem_flatten.1 hd
        obtain ⟨m, hm, hmade⟩ := exists_of_mem_mapM hmessages descs hdescs
        obtain ⟨-, hdepth, hname⟩ := isTop_of_mem_messageDescsOf hmade d hd htop
        obtain ⟨k, rfl⟩ := Nat.exists_eq_succ_of_ne_zero hdepth.ne'
        have hplain := forall_of_foldlM_ok (P := fun m => isPlainName (m.textAt 1) = true)
          (fun _ _ _ => isPlainName_of_declareMessage) hdeclared m hm
        exact ⟨m.textAt 1, isSimple_of_isPlainName hplain, hname⟩

theorem FileTable.qualified_addWithImports {all : List MessageTree} {fuel : Nat}
    {opened : List Bytes} (ht : t.Qualified)
    (h : FileTable.addWithImports all depth fuel opened t f = .ok t') : t'.Qualified := by
  induction fuel generalizing opened t t' f with
  | zero =>
    cases h
    exact ht
  | succ fuel ih =>
    rw [FileTable.addWithImports] at h
    dsimp only at h
    split at h
    · cases h
      exact ht
    · obtain ⟨t₁, himports, h⟩ := bind_eq_ok.1 h
      refine FileTable.qualified_add (foldlM_ok (fun dep _ u u' hu hstep => ?_) ht himports) h
      split at hstep
      · cases hstep
      · split at hstep
        · exact ih hu hstep
        · cases hstep
          exact hu

end

/-- The messages of a pool that is loaded are named within the packages of their files. -/
theorem qualified_loadDescriptorSet {data : Bytes} {p : Pool}
    (h : loadDescriptorSet data = .ok p) : p.linked = false ∧ p.Qualified := by
  rw [loadDescriptorSet] at h
  obtain ⟨set, -, h⟩ := bind_eq_ok.1 h
  cases hpool : Pool.ofDescriptorSet data.length set with
  | error e =>
    rw [hpool] at h
    cases h
  | ok p' =>
    rw [hpool] at h
    cases h
    rw [Pool.ofDescriptorSet] at hpool
    dsimp only at hpool
    split at hpool
    · cases hpool
    · obtain ⟨t, ht, hpool⟩ := bind_eq_ok.1 hpool
      cases hpool
      refine ⟨rfl, fun f hf => ?_⟩
      obtain ⟨g, hg, rfl⟩ := List.mem_map.1 hf
      refine foldlM_ok (P := FileTable.Qualified) (fun _ _ u u' hu => ?_) ?_ ht g hg
      · exact FileTable.qualified_addWithImports hu
      · exact fun g hg => absurd hg List.not_mem_nil

end Stencil
