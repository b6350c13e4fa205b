import Schemata.Proofs.Scope.Lookup

/-!
# Types at and below a package

Going down from a package through its children comes to an end, also without a bound, as packages
lie no deeper than the workspace is high. It lists the types of just those packages whose paths go
on from that of the package, by no more segments than the depth allows, each type once and the types
of a package before those of the packages below it.
-/

namespace Schemata

open Schemata.Path (segments)

namespace Path

/-- One path goes on where another one ends, by no more segments than `depth` allows. -/
def Extends (depth : Option Nat) (p q : String) : Prop :=
  ∃ segs, segments q = segments p ++ segs ∧ ∀ d ∈ depth, segs.length ≤ d

/-- One path leads to another one by some segments. -/
def IsAbove (p q : String) : Prop := ∃ segs, segs ≠ [] ∧ segments q = segments p ++ segs

/-- No package lies above itself. -/
theorem not_isAbove_self (p : String) : ¬IsAbove p p := by
  rintro ⟨segs, hne, e⟩
  exact hne (List.append_right_eq_self.1 e.symm)

end Path

open Schemata.Path (Extends IsAbove)

namespace Workspace

variable {w : Workspace} {p q : String} {depth : Option Nat}
  {listed listed' : List Symbol} {s t : Symbol}

/-! ## Going down -/

/-- Goes down from a package through its children, with the types in the order in which it comes to
them. Nothing but the depth and the children tells how far. -/
inductive Descent (w : Workspace) : Option Nat → String → List Symbol → Prop where
  | here (p : String) : Descent w (some 0) p (w.symbolsOf p)
  | bounded {d : Nat} {p : String} {listed : String → List Symbol}
      (children : ∀ c ∈ w.childrenOf p, Descent w (some d) c (listed c)) :
      Descent w (some (d + 1)) p (w.symbolsOf p ++ (w.childrenOf p).flatMap listed)
  | unbounded {p : String} {listed : String → List Symbol}
      (children : ∀ c ∈ w.childrenOf p, Descent w none c (listed c)) :
      Descent w none p (w.symbolsOf p ++ (w.childrenOf p).flatMap listed)

/-- There is one order in which types are come to. -/
theorem Descent.unique (h : w.Descent depth p listed) (h' : w.Descent depth p listed') :
    listed = listed' := by
  induction h generalizing listed' with
  | here p =>
    cases h'
    rfl
  | bounded _ ih =>
    cases h' with
    | bounded children' => rw [List.flatMap_congr fun c hc => ih c hc (children' c hc)]
  | unbounded _ ih =>
    cases h' with
    | unbounded children' => rw [List.flatMap_congr fun c hc => ih c hc (children' c hc)]

theorem flatMap_packagesBelow_succ (w : Workspace) (d : Nat) (p : String) :
    (w.packagesBelow (d + 1) p).flatMap w.symbolsOf =
      w.symbolsOf p ++ (w.childrenOf p).flatMap fun c =>
        (w.packagesBelow d c).flatMap w.symbolsOf := by
  rw [packagesBelow, List.flatMap_cons, List.flatMap_assoc]

/-- The descent to a depth collects the packages down to that depth. -/
theorem descent_some (w : Workspace) (d : Nat) (p : String) :
    w.Descent (some d) p ((w.packagesBelow d p).flatMap w.symbolsOf) := by
  induction d generalizing p with
  | zero =>
    rw [packagesBelow, List.flatMap_singleton]
    exact .here p
  | succ d ih =>
    rw [flatMap_packagesBelow_succ]
    exact .bounded fun c _ => ih c

/-- Without a bound the way down ends where no package lies deeper. -/
theorem descent_none {n : Nat} (hp : p ∈ w.packages) (hn : w.height ≤ (segments p).length + n) :
    w.Descent none p ((w.packagesBelow n p).flatMap w.symbolsOf) := by
  induction n generalizing p with
  | zero =>
    have hnone : w.childrenOf p = [] := by
      refine List.eq_nil_iff_forall_not_mem.2 fun c hc => ?_
      have hlength := (segments_of_mem_childrenOf hp hc).2
      have hheight := length_segments_le_height ((mem_childrenOf_iff hp).1 hc).1
      omega
    have h : w.Descent none p (w.symbolsOf p ++ (w.childrenOf p).flatMap fun _ => []) :=
      .unbounded fun c hc => by rw [hnone] at hc; cases hc
    rwa [hnone, List.flatMap_nil, List.append_nil, ← List.flatMap_singleton w.symbolsOf p] at h
  | succ n ih =>
    rw [flatMap_packagesBelow_succ]
    refine .unbounded fun c hc => ih ((mem_childrenOf_iff hp).1 hc).1 ?_
    rw [(segments_of_mem_childrenOf hp hc).2]
    omega

/-- The types below a package are those that going down comes to. -/
theorem descent_symbolsBelow (hp : p ∈ w.packages) (depth : Option Nat) :
    w.Descent depth p (w.symbolsBelow p depth) := by
  cases depth with
  | none => exact descent_none hp (Nat.le_add_left _ _)
  | some d => exact descent_some w d p

/-! ## Packages below a package -/

/-- The packages collected are those below the start, as deep as the depth allows. -/
theorem mem_packagesBelow_getD_iff (hp : p ∈ w.packages) :
    q ∈ w.packagesBelow (depth.getD w.height) p ↔ q ∈ w.packages ∧ Extends depth p q := by
  rw [mem_packagesBelow_iff hp]
  refine and_congr_right fun hq => ?_
  constructor
  · rintro ⟨⟨segs, e⟩, hlength⟩
    refine ⟨segs, e.symm, ?_⟩
    rintro d ⟨⟩
    rw [← e, List.length_append, Option.getD_some] at hlength
    omega
  · rintro ⟨segs, e, hdepth⟩
    refine ⟨⟨segs, e.symm⟩, ?_⟩
    cases depth with
    | none => exact (length_segments_le_height hq).trans (Nat.le_add_left _ _)
    | some d =>
      have := hdepth d rfl
      rw [e, List.length_append, Option.getD_some]
      omega

/-! ## Types below a package -/

section Assembled

variable {sources : List SourceFile} {ds : List Diagnostic}

theorem package_of_mem_symbolsOf (h : assemble sources = .ok (w, ds)) (hs : s ∈ w.symbolsOf p) :
    s.package = p := by
  obtain ⟨f, hf, rfl, hsf⟩ := mem_symbolsOf_iff.1 hs
  rw [fileSymbols_of_assemble h hf] at hsf
  rw [Symbol.package, eq_of_beq (List.mem_filter.1 hsf).2]

theorem mem_symbolsOf_package (h : assemble sources = .ok (w, ds)) (hs : s ∈ w.symbols) :
    s.package ∈ w.packages ∧ s ∈ w.symbolsOf s.package := by
  obtain ⟨f, hf, hsf⟩ := List.mem_flatMap.1 hs
  have hmem := mem_symbolsOf_iff.2 ⟨f, hf, rfl, hsf⟩
  rw [package_of_mem_symbolsOf h hmem]
  exact ⟨(isCanonical_of_assemble h).path_mem_packages hf, hmem⟩

/-- Assembly keeps no declaration twice. -/
theorem nodup_symbols_of_assemble (h : assemble sources = .ok (w, ds)) : w.symbols.Nodup := by
  apply List.Nodup.of_map symbolKey
  rw [symbols_of_assemble h]
  exact nodup_map_firsts _ _

/-- Going down comes to the types of the packages whose paths go on from the start. -/
theorem mem_symbolsBelow_iff (h : assemble sources = .ok (w, ds)) (hp : p ∈ w.packages) :
    s ∈ w.symbolsBelow p depth ↔ s ∈ w.symbols ∧ Extends depth p s.package := by
  rw [symbolsBelow, List.mem_flatMap]
  constructor
  · rintro ⟨q, hq, hs⟩
    have hextends := ((mem_packagesBelow_getD_iff hp).1 hq).2
    rw [package_of_mem_symbolsOf h hs]
    exact ⟨mem_symbols_of_mem_symbolsOf hs, hextends⟩
  · rintro ⟨hs, hextends⟩
    obtain ⟨hmem, hsymbols⟩ := mem_symbolsOf_package h hs
    exact ⟨s.package, (mem_packagesBelow_getD_iff hp).2 ⟨hmem, hextends⟩, hsymbols⟩

/-- No type is come to twice. -/
theorem nodup_symbolsBelow (h : assemble sources = .ok (w, ds)) (hp : p ∈ w.packages) :
    (w.symbolsBelow p depth).Nodup := by
  rw [symbolsBelow, List.nodup_flatMap]
  constructor
  · intro q _
    exact (nodup_symbols_of_assemble h).sublist (List.filter_sublist.flatMap _)
  · refine (nodup_packagesBelow hp).imp fun {q q'} hne s hs hs' => hne ?_
    rw [← package_of_mem_symbolsOf h hs, package_of_mem_symbolsOf h hs']

/-- No type is come to before one of a package above. -/
theorem pairwise_symbolsBelow (h : assemble sources = .ok (w, ds)) (hp : p ∈ w.packages) :
    (w.symbolsBelow p depth).Pairwise fun s t => ¬IsAbove t.package s.package := by
  rw [symbolsBelow, List.pairwise_flatMap]
  constructor
  · intro q _
    apply List.pairwise_of_forall_mem_list
    intro s hs t ht
    rw [package_of_mem_symbolsOf h hs, package_of_mem_symbolsOf h ht]
    exact Path.not_isAbove_self q
  · refine (pairwise_packagesBelow hp).imp fun {q q'} hnot s hs t ht => ?_
    rw [package_of_mem_symbolsOf h hs, package_of_mem_symbolsOf h ht]
    rintro ⟨segs, -, e⟩
    exact hnot ⟨segs, e.symm⟩

end Assembled

/-- Types in the order in which going down from a package comes to them. -/
structure ListsBelow (w : Workspace) (p : String) (depth : Option Nat)
    (listed : List Symbol) : Prop where
  /-- The way down ends, and lists just these types. -/
  descent : ∀ listed', w.Descent depth p listed' ↔ listed' = listed
  mem_iff : ∀ s, s ∈ listed ↔ s ∈ w.symbols ∧ Extends depth p s.package
  nodup : listed.Nodup
  /-- The types of a package come before those of the packages below it. -/
  above_first : ∀ i j (hi : i < listed.length) (hj : j < listed.length),
    IsAbove listed[i].package listed[j].package → i < j

/-- Going down from a package of an assembled workspace lists the types at and below it, and going
down from the root all types. -/
theorem listsBelow_of_assemble {sources : List SourceFile} {ds : List Diagnostic}
    (h : assemble sources = .ok (w, ds)) :
    (∀ p ∈ w.packages, ∀ depth, w.ListsBelow p depth (w.symbolsBelow p depth)) ∧
      "" ∈ w.packages ∧ (w.symbolsBelow "" none).Perm w.symbols ∧ w.symbols.Nodup := by
  have hroot : "" ∈ w.packages := (mem_packages_iff_of_assemble h).2 (.inl rfl)
  refine ⟨fun p hp depth => ?_, hroot, ?_, nodup_symbols_of_assemble h⟩
  · have hdescent := descent_symbolsBelow hp depth
    constructor
    case descent =>
      intro listed'
      constructor
      · exact fun h' => h'.unique hdescent
      · rintro rfl
        exact hdescent
    case mem_iff => exact fun s => mem_symbolsBelow_iff h hp
    case nodup => exact nodup_symbolsBelow h hp
    case above_first =>
      intro i j hi hj habove
      by_contra hle
      rcases Nat.lt_or_eq_of_le (Nat.not_lt.1 hle) with hlt | rfl
      · exact List.pairwise_iff_getElem.1 (pairwise_symbolsBelow h hp) j i hj hi hlt habove
      · exact Path.not_isAbove_self _ habove
  · rw [List.perm_ext_iff_of_nodup (nodup_symbolsBelow h hroot) (nodup_symbols_of_assemble h)]
    intro s
    rw [mem_symbolsBelow_iff h hroot, and_iff_left_iff_imp]
    intro _
    exact ⟨segments s.package, rfl, by simp⟩

end Workspace

namespace Sample

/-- Going down from a package by one level lists the type of the package there, and from the root
all types. -/
theorem listsBelow_shelves :
    Workspace.assemble [shelfFile "left.nex", shelfFile "right.nex"] =
        .ok (shelves, [shelfReport]) ∧
      "home" ∈ shelves.packages ∧
      shelves.ListsBelow "home" (some 1) [⟨⟨"home/room", "left.nex"⟩, shelf⟩] ∧
      (shelves.symbolsBelow "" none).Perm shelves.symbols ∧ shelves.symbols.Nodup := by
  obtain ⟨hbelow, -, hall⟩ := Workspace.listsBelow_of_assemble assemble_shelves
  have hhome : "home" ∈ shelves.packages := by decide
  exact ⟨assemble_shelves, hhome, hbelow "home" hhome (some 1), hall⟩

end Sample

end Schemata
