import Mathlib.Data.List.Perm.Basic
import Schemata.Proofs.Data.Lists
import Schemata.Proofs.Data.OrderedMap
import Schemata.Proofs.Text.Path
import Schemata.Scope.Workspace

/-!
# Walking through packages

The packages of a workspace form a tree under the root package. A walk from a package comes to every
package at most so many levels below it, and to each of them once. A walk from the root therefore
comes to every file once.
-/

namespace Schemata

open Schemata.Path (segments join)

namespace Workspace

variable {w : Workspace} {p q : String}

/-! ## The tree of packages -/

theorem nodup_packages (w : Workspace) : w.packages.Nodup := nodup_eraseDups _

/-- The packages of a workspace are those on the way to its files. -/
theorem mem_packages_iff :
    q ∈ w.packages ↔ ∃ f ∈ w.files, ∃ segs, segs <+: segments f.file.path ∧ q = join segs := by
  simp [packages, List.mem_eraseDups, List.mem_flatMap, Path.mem_ancestors_iff]

/-- The path of a package is in normal form. -/
theorem normalize_of_mem_packages (h : q ∈ w.packages) : Path.normalize q = q := by
  obtain ⟨f, -, segs, hpre, rfl⟩ := mem_packages_iff.1 h
  exact Path.normalize_join ((Path.isClean_segments _).of_subset hpre.subset)

/-- With a package come all packages above it. -/
theorem join_mem_packages (h : q ∈ w.packages) {segs : List Path.Segment}
    (hpre : segs <+: segments q) :
    join segs ∈ w.packages := by
  obtain ⟨f, hf, segs', hpre', rfl⟩ := mem_packages_iff.1 h
  rw [Path.segments_join ((Path.isClean_segments _).of_subset hpre'.subset)] at hpre
  exact mem_packages_iff.2 ⟨f, hf, segs, hpre.trans hpre', rfl⟩

theorem root_mem_packages (h : w.files ≠ []) : "" ∈ w.packages := by
  obtain ⟨f, fs, e⟩ := List.exists_cons_of_ne_nil h
  exact mem_packages_iff.2 ⟨f, by simp [e], [], List.nil_prefix, rfl⟩

/-- Packages with the same segments are one package. -/
theorem eq_of_segments_eq (hp : p ∈ w.packages) (hq : q ∈ w.packages)
    (e : segments p = segments q) : p = q := by
  rw [← normalize_of_mem_packages hp, ← normalize_of_mem_packages hq, Path.normalize,
    Path.normalize, e]

/-- The children of a package are those whose path is one segment longer. -/
theorem mem_childrenOf_iff (hp : p ∈ w.packages) :
    q ∈ w.childrenOf p ↔
      q ∈ w.packages ∧ segments q ≠ [] ∧ segments p = (segments q).dropLast := by
  simp only [childrenOf, List.mem_filter, beq_iff_eq]
  refine and_congr_right fun hq => ?_
  exact Path.parent?_eq_some_iff (normalize_of_mem_packages hp) (normalize_of_mem_packages hq)

/-- A child is one segment longer than its package and goes on from it. -/
theorem segments_of_mem_childrenOf (hp : p ∈ w.packages) (hq : q ∈ w.childrenOf p) :
    segments p <+: segments q ∧ (segments q).length = (segments p).length + 1 := by
  obtain ⟨-, hne, e⟩ := (mem_childrenOf_iff hp).1 hq
  have hpos := List.length_pos_iff.2 hne
  refine ⟨e ▸ List.dropLast_prefix _, ?_⟩
  rw [e, List.length_dropLast]
  omega

/-- Children of a package whose paths begin the same path are one child. -/
theorem child_unique {c c' : String} {segs : List Path.Segment} (hp : p ∈ w.packages)
    (hc : c ∈ w.childrenOf p) (hc' : c' ∈ w.childrenOf p) (hpre : segments c <+: segs)
    (hpre' : segments c' <+: segs) :
    c = c' := by
  have hlen := (segments_of_mem_childrenOf hp hc).2
  have hlen' := (segments_of_mem_childrenOf hp hc').2
  refine eq_of_segments_eq ((mem_childrenOf_iff hp).1 hc).1 ((mem_childrenOf_iff hp).1 hc').1 ?_
  rw [List.prefix_iff_eq_take.1 hpre, List.prefix_iff_eq_take.1 hpre', hlen, hlen']

/-! ## Walks -/

/-- A walk comes to the packages that its start is an initial part of, down to its depth. -/
theorem mem_packagesBelow_iff {depth : Nat} (hp : p ∈ w.packages) :
    q ∈ w.packagesBelow depth p ↔
      q ∈ w.packages ∧ segments p <+: segments q ∧
        (segments q).length ≤ (segments p).length + depth := by
  induction depth generalizing p with
  | zero =>
    rw [packagesBelow, List.mem_singleton]
    constructor
    · rintro rfl
      exact ⟨hp, List.prefix_rfl, Nat.le_refl _⟩
    · rintro ⟨hq, hpre, hlen⟩
      exact eq_of_segments_eq hq hp (hpre.eq_of_length_le hlen).symm
  | succ depth ih =>
    rw [packagesBelow, List.mem_cons, List.mem_flatMap]
    constructor
    · rintro (rfl | ⟨c, hc, hq⟩)
      · exact ⟨hp, List.prefix_rfl, by omega⟩
      · obtain ⟨hpre, hlen⟩ := segments_of_mem_childrenOf hp hc
        obtain ⟨hq, hpre', hlen'⟩ := (ih ((mem_childrenOf_iff hp).1 hc).1).1 hq
        exact ⟨hq, hpre.trans hpre', by omega⟩
    · rintro ⟨hq, hpre, hlen⟩
      by_cases heq : (segments q).length ≤ (segments p).length
      · exact .inl (eq_of_segments_eq hq hp (hpre.eq_of_length_le heq).symm)
      · -- the way to `q` leads through the child one segment below `p`
        let step := (segments q).take ((segments p).length + 1)
        have hstep : step <+: segments q := List.take_prefix _ _
        have hclean : Path.IsClean step := Path.isClean_take (Path.isClean_segments q) _
        have hmem : join step ∈ w.packages := join_mem_packages hq hstep
        have hlength : step.length = (segments p).length + 1 := by
          rw [List.length_take]
          omega
        have hchild : join step ∈ w.childrenOf p := by
          refine (mem_childrenOf_iff hp).2 ⟨hmem, ?_⟩
          rw [Path.segments_join hclean]
          refine ⟨by intro e; simp [e] at hlength, ?_⟩
          rw [List.dropLast_eq_take, hlength, List.take_take, Nat.add_sub_cancel,
            Nat.min_eq_left (by omega)]
          exact List.prefix_iff_eq_take.1 hpre
        refine .inr ⟨join step, hchild, (ih hmem).2 ⟨hq, ?_, ?_⟩⟩
        · rwa [Path.segments_join hclean]
        · rw [Path.segments_join hclean]
          omega

/-- A walk comes to a package before it comes to any whose path goes on from it. -/
theorem pairwise_packagesBelow {depth : Nat} (hp : p ∈ w.packages) :
    (w.packagesBelow depth p).Pairwise fun a b => ¬segments b <+: segments a := by
  induction depth generalizing p with
  | zero => exact List.pairwise_singleton _ p
  | succ depth ih =>
    have hmem : ∀ c ∈ w.childrenOf p, c ∈ w.packages := fun c hc => ((mem_childrenOf_iff hp).1 hc).1
    rw [packagesBelow, List.pairwise_cons, List.pairwise_flatMap]
    refine ⟨?_, fun c hc => ih (hmem c hc), ?_⟩
    · intro b hb hpre
      obtain ⟨c, hc, hb⟩ := List.mem_flatMap.1 hb
      have hlength := (segments_of_mem_childrenOf hp hc).2
      have hle := ((mem_packagesBelow_iff (hmem c hc)).1 hb).2.1.length_le
      have := hpre.length_le
      omega
    · refine ((nodup_packages w).filter _).imp_of_mem fun {c c'} hc hc' hne a ha b hb hpre => hne ?_
      obtain ⟨-, hfrom, -⟩ := (mem_packagesBelow_iff (hmem c hc)).1 ha
      obtain ⟨-, hfrom', -⟩ := (mem_packagesBelow_iff (hmem c' hc')).1 hb
      exact child_unique hp hc hc' hfrom (hfrom'.trans hpre)

/-- A walk comes to no package twice. -/
theorem nodup_packagesBelow {depth : Nat} (hp : p ∈ w.packages) :
    (w.packagesBelow depth p).Nodup := by
  refine (pairwise_packagesBelow hp).imp ?_
  rintro a b hnot rfl
  exact hnot List.prefix_rfl

theorem le_foldl_max {l : List Nat} {a n : Nat} (h : n ≤ a ∨ n ∈ l) : n ≤ l.foldl max a := by
  induction l generalizing a with
  | nil => simpa using h
  | cons b l ih =>
    refine ih ?_
    rcases h with h | h
    · exact .inl (Nat.le_trans h (Nat.le_max_left a b))
    · rcases List.mem_cons.1 h with rfl | h
      · exact .inl (Nat.le_max_right a _)
      · exact .inr h

/-- No package lies deeper than the height of the workspace. -/
theorem length_segments_le_height (h : q ∈ w.packages) : (segments q).length ≤ w.height :=
  le_foldl_max (.inr (List.mem_map_of_mem h))

/-- A walk from the root comes to every package. -/
theorem mem_packagesBelow_root (h : q ∈ w.packages) (hne : w.files ≠ []) :
    q ∈ w.packagesBelow w.height "" := by
  refine (mem_packagesBelow_iff (root_mem_packages hne)).2 ⟨h, ?_, ?_⟩
  · rw [show segments "" = [] from rfl]
    exact List.nil_prefix
  · exact Nat.le_trans (length_segments_le_height h) (Nat.le_add_left _ _)

/-- A workspace whose files give the paths of their packages in canonical spelling. -/
def IsCanonical (w : Workspace) : Prop := ∀ f ∈ w.files, Path.normalize f.file.path = f.file.path

theorem IsCanonical.path_mem_packages (hw : w.IsCanonical) {f : FileScope} (hf : f ∈ w.files) :
    f.file.path ∈ w.packages :=
  mem_packages_iff.2 ⟨f, hf, _, List.prefix_rfl, (hw f hf).symm⟩

/-- A walk from the root comes to every file once. -/
theorem filesByPackage_perm (hw : w.IsCanonical) : w.filesByPackage.Perm w.files := by
  by_cases hne : w.files = []
  · have hnone : ∀ p, w.filesOf p = [] := fun p => by simp [filesOf, hne]
    simp [filesByPackage, hnone, hne]
  · exact flatMap_filter_key_perm (nodup_packagesBelow (root_mem_packages hne))
      fun f hf => mem_packagesBelow_root (hw.path_mem_packages hf) hne

theorem mem_files_of_mem_filesByPackage {f : FileScope} (h : f ∈ w.filesByPackage) :
    f ∈ w.files := by
  obtain ⟨p, -, h⟩ := List.mem_flatMap.1 h
  exact List.mem_of_mem_filter h

/-! ## Changes within files

Whatever is changed within files, the packages stay as they are as long as every file stays in its
own. -/

section Map

variable {g : FileScope → FileScope}

/-- Which packages there are depends on the names of the files only. -/
theorem packages_map (hg : ∀ f, (g f).file = f.file) (w : Workspace) :
    (mk (w.files.map g)).packages = w.packages := by
  simp only [packages, List.flatMap_map, hg]

/-- The files of a package may be changed before or after they are picked. -/
theorem filesOf_map (hg : ∀ f, (g f).file = f.file) (w : Workspace) (p : String) :
    (mk (w.files.map g)).filesOf p = (w.filesOf p).map g := by
  rw [filesOf, filesOf, List.filter_map]
  refine congrArg (List.map g) (List.filter_congr fun f _ => ?_)
  rw [Function.comp_apply, hg]

theorem packagesBelow_map (hg : ∀ f, (g f).file = f.file) (w : Workspace) (depth : Nat) :
    (mk (w.files.map g)).packagesBelow depth = w.packagesBelow depth := by
  induction depth with
  | zero => rfl
  | succ depth ih =>
    funext p
    simp only [packagesBelow, childrenOf, packages_map hg, ih]

/-- The files may be changed before or after they are put in the order of their packages. -/
theorem filesByPackage_map (hg : ∀ f, (g f).file = f.file) (w : Workspace) :
    (mk (w.files.map g)).filesByPackage = w.filesByPackage.map g := by
  rw [filesByPackage, filesByPackage, height, height, packages_map hg, packagesBelow_map hg,
    List.map_flatMap]
  exact List.flatMap_congr fun p _ => filesOf_map hg w p

end Map

end Workspace

end Schemata
