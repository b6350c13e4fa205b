import Schemata.Proofs.Scope.Filling
import Schemata.Proofs.Scope.Packages

/-!
# Assembled workspaces are well formed

Putting files together makes one package after the other, each behind the package above it. Every
file belongs to one package, and every type that is declared either is the first of its package and
name, and then the file that declares it holds it, or is reported.
-/

namespace Schemata

open Schemata.Path (segments join)

/-! ## Parents come first -/

/-- A list of packages, each of which comes behind its parent. -/
inductive ParentsFirst : List String → Prop where
  | nil : ParentsFirst []
  | concat {l : List String} {p : String} (front : ParentsFirst l)
      (parent : ∀ q, Path.parent? p = some q → q ∈ l) : ParentsFirst (l ++ [p])

namespace ParentsFirst

variable {l l' : List String}

/-- Two lists with parents first may be put behind each other. -/
theorem append (h : ParentsFirst l) (h' : ParentsFirst l') : ParentsFirst (l ++ l') := by
  induction h' with
  | nil => rwa [List.append_nil]
  | concat _ hparent ih =>
    rw [← List.append_assoc]
    exact .concat ih fun q hq => List.mem_append_right l (hparent q hq)

theorem flatMap {α : Type} {f : α → List String} {items : List α}
    (h : ∀ a ∈ items, ParentsFirst (f a)) :
    ParentsFirst (items.flatMap f) := by
  induction items with
  | nil => exact .nil
  | cons a items ih =>
    obtain ⟨ha, hitems⟩ := List.forall_mem_cons.1 h
    exact ha.append (ih hitems)

/-- A package that is made once only still comes behind its parent. -/
theorem eraseDups (h : ParentsFirst l) : ParentsFirst l.eraseDups := by
  induction h with
  | nil => exact .nil
  | @concat l p _ hparent ih =>
    rw [List.eraseDups_append]
    by_cases hp : p ∈ l
    · have hnone : [p].removeAll l = [] := by simp [List.removeAll, hp]
      rwa [hnone, List.eraseDups_nil, List.append_nil]
    · have hone : [p].removeAll l = [p] := by simp [List.removeAll, hp]
      have hsingle : [p].eraseDups = [p] := by simp [List.eraseDups_cons]
      rw [hone, hsingle]
      exact .concat ih fun q hq => List.mem_eraseDups.2 (hparent q hq)

/-- The package that comes first has no package above it. -/
theorem getElem?_zero (h : ParentsFirst l) (hne : l ≠ []) : l[0]? = some "" := by
  induction h with
  | nil => exact absurd rfl hne
  | @concat l p _ hparent ih =>
    by_cases hl : l = []
    · subst hl
      have hnone : Path.parent? p = none :=
        Option.eq_none_iff_forall_ne_some.2 fun q hq => nomatch hparent q hq
      exact congrArg some (Path.eq_empty_of_parent?_eq_none hnone)
    · rw [List.getElem?_append_left (List.length_pos_iff.2 hl)]
      exact ih hl

/-- The parent of a package has a smaller number than the package. -/
theorem idxOf_lt (h : ParentsFirst l) {p q : String} (hp : p ∈ l) (hq : Path.parent? p = some q) :
    q ∈ l ∧ l.idxOf q < l.idxOf p := by
  induction h with
  | nil => cases hp
  | @concat l p' _ hparent ih =>
    by_cases hmem : p ∈ l
    · obtain ⟨hql, hlt⟩ := ih hmem
      refine ⟨List.mem_append_left _ hql, ?_⟩
      rwa [List.idxOf_append_of_mem hql, List.idxOf_append_of_mem hmem]
    · obtain rfl : p = p' := by simpa [hmem] using hp
      have hql := hparent q hq
      refine ⟨List.mem_append_left _ hql, ?_⟩
      rw [List.idxOf_append_of_mem hql, List.idxOf_append_of_notMem hmem]
      exact Nat.lt_add_right _ (List.idxOf_lt_length_of_mem hql)

end ParentsFirst

/-- The ancestors of a path come with the parents first. -/
theorem Path.parentsFirst_ancestors (path : String) : ParentsFirst (ancestors path) := by
  rw [ancestors]
  generalize (segments path).length + 1 = n
  induction n with
  | zero => exact .nil
  | succ n ih =>
    rw [List.range_succ, List.map_append, List.map_singleton]
    refine .concat ih fun q hq => ?_
    have hclean := isClean_take (isClean_segments path) n
    by_cases hnil : (segments path).take n = []
    · rw [hnil, join_nil] at hq
      cases hq
    · rw [parent?_join hclean hnil, Option.some.injEq, List.dropLast_eq_take, List.take_take] at hq
      have hn : n ≠ 0 := by
        rintro rfl
        exact hnil List.take_zero
      refine List.mem_map.2 ⟨_, List.mem_range.2 ?_, hq⟩
      rw [List.length_take]
      omega

namespace Workspace

variable {w : Workspace} {sources : List SourceFile} {ds : List Diagnostic}

/-- The packages of a workspace come with the parents first. -/
theorem parentsFirst_packages (w : Workspace) : ParentsFirst w.packages :=
  (ParentsFirst.flatMap fun f _ => Path.parentsFirst_ancestors f.file.path).eraseDups

/-! ## Types that are kept -/

/-- All types that some files declare, in the order of the files. -/
def declared (sources : List SourceFile) : List Symbol := (arrange sources).flatMap (·.symbols)

theorem length_declared (sources : List SourceFile) :
    (declared sources).length = (sources.flatMap (·.types)).length := by
  have hlength : ∀ s : SourceFile, s.canonical.symbols.length = s.types.length :=
    fun s => List.length_map _
  have hperm := ((arrange_perm sources).flatMap_right (·.symbols)).length_eq
  rw [declared, hperm, List.flatMap_map, List.length_flatMap, List.length_flatMap,
    List.map_congr_left fun s _ => hlength s]

/-- Assembly keeps one file of each name and path. -/
theorem nodup_files_of_assemble (h : assemble sources = .ok (w, ds)) :
    (w.files.map (·.file)).Nodup := by
  obtain ⟨-, hrepeated, rfl, -⟩ := assemble_eq_ok_iff.1 h
  rw [List.map_map]
  exact SourceFile.nodup_of_repeated?_eq_none (pairwise_arrange sources) hrepeated

/-- The types of a workspace are the first ones of their package and name. -/
theorem symbols_of_assemble (h : assemble sources = .ok (w, ds)) :
    w.symbols = firsts symbolKey (declared sources) := by
  obtain ⟨-, hrepeated, rfl, -⟩ := assemble_eq_ok_iff.1 h
  have hnodup := SourceFile.nodup_of_repeated?_eq_none (pairwise_arrange sources) hrepeated
  have hfile : ∀ s ∈ arrange sources, ∀ t ∈ s.symbols, t.file = s.file := by
    intro s _ t ht
    obtain ⟨d, -, rfl⟩ := List.mem_map.1 ht
    rfl
  rw [symbols, List.flatMap_map]
  exact flatMap_filter_eq_of_sublist hnodup hfile (firsts_sublist symbolKey _)

/-- A file holds those types of the workspace that it declares. -/
theorem fileSymbols_of_assemble (h : assemble sources = .ok (w, ds)) {f : FileScope}
    (hf : f ∈ w.files) :
    f.symbols = w.symbols.filter (·.file == f.file) := by
  rw [symbols_of_assemble h]
  obtain ⟨-, -, rfl, -⟩ := assemble_eq_ok_iff.1 h
  obtain ⟨s, -, rfl⟩ := List.mem_map.1 hf
  rfl

/-- The packages are the ancestors of the written paths and no others. -/
theorem mem_packages_iff_of_assemble (h : assemble sources = .ok (w, ds)) {p : String} :
    p ∈ w.packages ↔ p = "" ∨ ∃ s ∈ sources, ∃ segs, segs <+: segments s.file.path ∧
      p = join segs := by
  obtain ⟨hne, -, rfl, -⟩ := assemble_eq_ok_iff.1 h
  have hmem : ∀ {s}, s ∈ arrange sources ↔ ∃ t ∈ sources, t.canonical = s := by
    intro s
    rw [(arrange_perm sources).mem_iff, List.mem_map]
  rw [mem_packages_iff]
  constructor
  · rintro ⟨f, hf, segs, hpre, rfl⟩
    obtain ⟨s, hs, rfl⟩ := List.mem_map.1 hf
    obtain ⟨t, ht, rfl⟩ := hmem.1 hs
    have hsegs : segments (Path.normalize t.file.path) = segments t.file.path :=
      Path.segments_normalize _
    exact .inr ⟨t, ht, segs, hsegs ▸ hpre, rfl⟩
  · rintro (rfl | ⟨t, ht, segs, hpre, rfl⟩)
    · obtain ⟨t, ht⟩ := List.exists_mem_of_ne_nil _ hne
      exact ⟨_, List.mem_map_of_mem (hmem.2 ⟨t, ht, rfl⟩), [], List.nil_prefix, rfl⟩
    · refine ⟨_, List.mem_map_of_mem (hmem.2 ⟨t, ht, rfl⟩), segs, ?_, rfl⟩
      show segs <+: segments (Path.normalize t.file.path)
      rwa [Path.segments_normalize]

/-- Every source becomes one file with the imports it was written with. -/
theorem files_perm_of_assemble (h : assemble sources = .ok (w, ds)) :
    (w.files.map fun f => (f.file, f.uses)).Perm
    (sources.map fun s => (s.canonical.file, s.uses)) := by
  obtain ⟨-, -, rfl, -⟩ := assemble_eq_ok_iff.1 h
  have hperm := (arrange_perm sources).map fun s => (s.file, s.uses)
  rw [List.map_map] at hperm ⊢
  exact hperm

theorem files_le_of_assemble (h : assemble sources = .ok (w, ds)) :
    w.files.Pairwise fun f g => f.file.le g.file := by
  obtain ⟨-, -, rfl, -⟩ := assemble_eq_ok_iff.1 h
  exact List.pairwise_map.2 (pairwise_arrange sources)

end Workspace

/-! ## Well-formed arenas -/

/-- A list of which every element has its place as its number. -/
def Arena.Numbered {α : Type} (number : α → Nat) (l : List α) : Prop :=
  ∀ n a, l[n]? = some a → number a = n

/-- An arena that is well linked: what refers to something by number leads there, and
nowhere else. -/
structure Arena.Linked (t : Arena) : Prop where
  packages : Numbered Package.number t.packages
  files : Numbered File.number t.files
  types : Numbered Declared.number t.types
  nodup_paths : (t.packages.map (·.path)).Nodup
  /-- The index leads from a path to the package that has it, and back. -/
  packageAt : ∀ path number,
    t.packageAt? path = some number ↔ (t.packages[number]?).map (·.path) = some path
  /-- The root is made first, and has no package above it. -/
  root : ∃ p, t.packages[0]? = some p ∧ p.path = "" ∧ p.parent = none
  /-- Any other package is the child of the package that its path names as the one above it, which
  was made before, and of no other package. -/
  parent : ∀ p ∈ t.packages, p.path ≠ "" → ∃ q ∈ t.packages, Path.parent? p.path = some q.path ∧
    p.parent = some q.number ∧ q.number < p.number ∧ p.number ∈ q.children ∧
    (t.packages.flatMap (·.children)).count p.number = 1
  children : ∀ q ∈ t.packages, ∀ n ∈ q.children, ∃ p ∈ t.packages, p.number = n ∧
    p.parent = some q.number
  /-- A file knows the package at its path. -/
  home : ∀ f ∈ t.files, ∃ p ∈ t.packages, f.package = p.number ∧ f.file.path = p.path
  /-- A package lists its files and no others. -/
  listed : ∀ f ∈ t.files, ∀ p ∈ t.packages, f.number ∈ p.files ↔ f.package = p.number
  listed_once : (t.packages.flatMap (·.files)).Perm (t.files.map (·.number))
  /-- A type knows its file, which alone holds it, and under its name. -/
  held : ∀ d ∈ t.types, d.name = d.decl.name.name ∧ ∃ f ∈ t.files, d.file = f.number ∧
    d.id = d.decl.id f.file.path ∧
    ∀ g ∈ t.files, ∀ name, g.types.get? name = some d.number ↔ g = f ∧ name = d.name
  holds : ∀ f ∈ t.files, ∀ name number, f.types.get? name = some number →
    ∃ d ∈ t.types, d.number = number

namespace Arena

open Workspace (symbolKey declared ofArranged)

variable {paths : List String} {w : Workspace}

theorem mem_packages_holding {p : Package} : p ∈ (holding paths w).packages ↔
    ∃ number path, paths[number]? = some path ∧ packageOf paths w number path = p := by
  simp only [List.mem_iff_getElem?, getElem?_packages_holding, Option.map_eq_some_iff]

theorem mem_files_holding {f : File} : f ∈ (holding paths w).files ↔
    ∃ number scope, w.files[number]? = some scope ∧ fileOf paths w number scope = f := by
  simp only [List.mem_iff_getElem?, getElem?_files_holding, Option.map_eq_some_iff]

theorem mem_types_holding {d : Declared} : d ∈ (holding paths w).types ↔
    ∃ number s, w.symbols[number]? = some s ∧ declaredOf w number s = d := by
  simp only [List.mem_iff_getElem?, getElem?_types_holding, Option.map_eq_some_iff]

/-- A list built by position is numbered by position. -/
theorem numbered_mapIdx {α β : Type} {number : β → Nat} {f : Nat → α → β}
    (h : ∀ n a, number (f n a) = n) (l : List α) : Numbered number (l.mapIdx f) := by
  intro n b hb
  rw [List.getElem?_mapIdx] at hb
  obtain ⟨a, -, rfl⟩ := Option.map_eq_some_iff.1 hb
  exact h n a

theorem map_packages_holding {α : Type} {part : Package → α} {of : String → α}
    (h : ∀ n p, part (packageOf paths w n p) = of p) :
    (holding paths w).packages.map part = paths.map of :=
  map_mapIdx h paths

theorem paths_holding (paths : List String) (w : Workspace) :
    (holding paths w).packages.map (·.path) = paths :=
  (map_packages_holding fun _ _ => rfl).trans (List.map_id paths)

/-- The children of all packages. -/
theorem children_holding (paths : List String) (w : Workspace) :
    (holding paths w).packages.flatMap (·.children) =
      paths.flatMap fun p => paths.findIdxs fun q => Path.parent? q == some p := by
  rw [List.flatMap_def, List.flatMap_def]
  exact congrArg List.flatten (map_packages_holding fun _ _ => rfl)

/-- The files of all packages. -/
theorem files_holding (paths : List String) (w : Workspace) :
    (holding paths w).packages.flatMap (·.files) =
      paths.flatMap fun p => w.files.findIdxs fun f => some f.file.path == some p := by
  rw [List.flatMap_def, List.flatMap_def]
  exact congrArg List.flatten (map_packages_holding fun _ _ => rfl)

namespace Fit

/-- A package other than the root has one package above it. -/
theorem parent_holding (h : Fit paths w) (hfirst : ParentsFirst paths) {p : Package}
    (hp : p ∈ (holding paths w).packages) (hroot : p.path ≠ "") :
    ∃ q ∈ (holding paths w).packages, Path.parent? p.path = some q.path ∧ p.parent = some q.number ∧
      q.number < p.number ∧ p.number ∈ q.children ∧
      ((holding paths w).packages.flatMap (·.children)).count p.number = 1 := by
  obtain ⟨n, path, hn, rfl⟩ := mem_packages_holding.1 hp
  obtain ⟨above, habove⟩ := Option.ne_none_iff_exists'.1 (mt Path.eq_empty_of_parent?_eq_none hroot)
  have hmem := List.mem_of_getElem? hn
  obtain ⟨hin, hlt⟩ := hfirst.idxOf_lt hmem habove
  have hplace := List.getElem?_idxOf hin
  have hchild : n ∈ paths.findIdxs fun q => Path.parent? q == some above :=
    mem_findIdxs_iff.2 ⟨path, hn, beq_iff_eq.2 habove⟩
  refine ⟨packageOf paths w (paths.idxOf above) above, mem_packages_holding.2 ⟨_, _, hplace, rfl⟩,
    habove, ?_, ?_, hchild, ?_⟩
  · exact congrArg (Option.map fun q => paths.idxOf q) habove
  · rwa [idxOf_eq_of_getElem? h.nodup_paths hn] at hlt
  · rw [children_holding]
    exact List.count_eq_one_of_mem (nodup_flatMap_findIdxs h.nodup_paths Path.parent? paths)
      (List.mem_flatMap.2 ⟨above, hin, hchild⟩)

/-- Every file is listed once. -/
theorem listed_once_holding (h : Fit paths w) : ((holding paths w).packages.flatMap (·.files)).Perm
    ((holding paths w).files.map (·.number)) := by
  have hnumbers : (holding paths w).files.map (·.number) = List.range w.files.length := by
    refine (map_eq_range (numbered_mapIdx (fun _ _ => rfl) w.files)).trans ?_
    rw [List.length_mapIdx]
  rw [hnumbers, files_holding]
  refine (List.perm_ext_iff_of_nodup ?_ List.nodup_range).2 fun n => ?_
  · exact nodup_flatMap_findIdxs h.nodup_paths (fun f : FileScope => some f.file.path) w.files
  · rw [List.mem_flatMap, List.mem_range]
    constructor
    · rintro ⟨p, -, hn⟩
      obtain ⟨f, hf, -⟩ := mem_findIdxs_iff.1 hn
      exact (List.getElem?_eq_some_iff.1 hf).1
    · intro hn
      have hf := List.getElem?_eq_getElem hn
      exact ⟨_, h.homes _ (List.getElem_mem hn), mem_findIdxs_iff.2 ⟨_, hf, beq_self_eq_true _⟩⟩

/-- Every type is held by its file, and by no other one. -/
theorem held_holding (h : Fit paths w) {d : Declared} (hd : d ∈ (holding paths w).types) :
    ∃ f ∈ (holding paths w).files, d.file = f.number ∧ d.id = d.decl.id f.file.path ∧
      ∀ g ∈ (holding paths w).files, ∀ name, g.types.get? name = some d.number ↔
        g = f ∧ name = d.name := by
  obtain ⟨n, s, hs, rfl⟩ := mem_types_holding.1 hd
  obtain ⟨scope, hscope, hfile⟩ := List.mem_map.1 (h.file_mem (List.mem_of_getElem? hs))
  have hplace : ∀ {m : Nat} {f : FileScope}, w.files[m]? = some f →
      (w.files.map (·.file)).idxOf f.file = m :=
    fun hm => idxOf_eq_of_getElem? h.nodup_files (by rw [List.getElem?_map, hm, Option.map_some])
  obtain ⟨m, hm⟩ := List.mem_iff_getElem?.1 hscope
  refine ⟨fileOf paths w m scope, mem_files_holding.2 ⟨m, scope, hm, rfl⟩, ?_, ?_, ?_⟩
  · exact (congrArg (w.files.map (·.file)).idxOf hfile.symm).trans (hplace hm)
  · exact congrArg (fun file : FileRef => s.decl.id file.path) hfile.symm
  · intro g hg name
    obtain ⟨k, other, hk, rfl⟩ := mem_files_holding.1 hg
    have hget : (fileOf paths w k other).types.get? name = some n ↔ s.file = other.file ∧
        s.name = name := by
      refine (h.get?_numbersIn_eq_some_iff (List.mem_of_getElem? hk)).trans
        ⟨?_, fun hown => ⟨s, hs, hown⟩⟩
      rintro ⟨s', hs', hown⟩
      rwa [Option.some.inj (hs.symm.trans hs')]
    refine hget.trans (and_congr ?_ eq_comm)
    rw [← hfile]
    constructor
    · intro e
      have hkm : k = m := by rw [← hplace hk, ← hplace hm, e]
      subst hkm
      rw [Option.some.inj (hk.symm.trans hm)]
    · intro e
      exact (congrArg File.file e).symm

/-- An arena is well linked if its packages come behind those above them. -/
theorem linked (h : Fit paths w) (hne : paths ≠ []) (hfirst : ParentsFirst paths) :
    Linked (holding paths w) where
  packages := numbered_mapIdx (fun _ _ => rfl) paths
  files := numbered_mapIdx (fun _ _ => rfl) w.files
  types := numbered_mapIdx (fun _ _ => rfl) w.symbols
  nodup_paths := by
    rw [paths_holding]
    exact h.nodup_paths
  packageAt := by
    intro path number
    rw [h.packageAt?_eq_some_iff, getElem?_packages_holding, Option.map_map]
    exact iff_of_eq (congrArg (· = some path) (congrFun Option.map_id _).symm)
  root := by
    have hroot := hfirst.getElem?_zero hne
    have hget : (holding paths w).packages[0]? = some (packageOf paths w 0 "") := by
      rw [getElem?_packages_holding, hroot, Option.map_some]
    exact ⟨packageOf paths w 0 "", hget, rfl, rfl⟩
  parent := fun p hp hroot => h.parent_holding hfirst hp hroot
  children := by
    intro q hq n hn
    obtain ⟨m, above, hm, rfl⟩ := mem_packages_holding.1 hq
    obtain ⟨path, hpath, hparent⟩ := mem_findIdxs_iff.1 hn
    refine ⟨packageOf paths w n path, mem_packages_holding.2 ⟨n, path, hpath, rfl⟩, rfl, ?_⟩
    have habove := congrArg (Option.map fun q => paths.idxOf q) (eq_of_beq hparent)
    exact habove.trans (congrArg some (idxOf_eq_of_getElem? h.nodup_paths hm))
  home := by
    intro f hf
    obtain ⟨n, scope, hn, rfl⟩ := mem_files_holding.1 hf
    have hplace := List.getElem?_idxOf (h.homes scope (List.mem_of_getElem? hn))
    exact ⟨_, mem_packages_holding.2 ⟨_, _, hplace, rfl⟩, rfl, rfl⟩
  listed := by
    intro f hf p hp
    obtain ⟨n, scope, hn, rfl⟩ := mem_files_holding.1 hf
    obtain ⟨m, path, hm, rfl⟩ := mem_packages_holding.1 hp
    have hin := h.homes scope (List.mem_of_getElem? hn)
    have hplace : paths.idxOf scope.file.path = m ↔ scope.file.path = path := by
      rw [← idxOf_eq_of_getElem? h.nodup_paths hm]
      exact List.idxOf_inj hin
    refine Iff.trans ?_ hplace.symm
    refine mem_findIdxs_iff.trans ⟨?_, fun e => ⟨scope, hn, beq_iff_eq.2 e⟩⟩
    rintro ⟨scope', hscope, hpath⟩
    rw [Option.some.inj (hn.symm.trans hscope), eq_of_beq hpath]
  listed_once := h.listed_once_holding
  held := by
    intro d hd
    obtain ⟨n, s, -, rfl⟩ := mem_types_holding.1 hd
    exact ⟨rfl, h.held_holding hd⟩
  holds := by
    intro f hf name number hget
    obtain ⟨n, scope, hn, rfl⟩ := mem_files_holding.1 hf
    obtain ⟨s, hs, -⟩ := (h.get?_numbersIn_eq_some_iff (List.mem_of_getElem? hn)).1 hget
    exact ⟨declaredOf w number s, mem_types_holding.2 ⟨number, s, hs, rfl⟩, rfl⟩

end Fit

end Arena

/-! ## Arenas of files -/

/-- An arena that is well formed for some files: it is well linked, its packages are the root and
those on the way to the files, and of all types that are declared it has the first one of each name
in a package, in the order of the files. The other ones are reported. -/
structure Arena.WellFormed (t : Arena) (sources : List SourceFile)
    (ds : List Diagnostic) : Prop where
  linked : t.Linked
  mem_paths : ∀ path, path ∈ t.packages.map (·.path) ↔
    path = "" ∨ ∃ s ∈ sources, ∃ segs, segs <+: segments s.file.path ∧ path = join segs
  files : (t.files.map fun f => (f.file, f.uses)).Perm (sources.map fun s =>
    (s.canonical.file, s.uses))
  nodup_files : (t.files.map (·.file)).Nodup
  files_le : t.files.Pairwise fun f g => f.file.le g.file
  types : t.types.map (fun d => t.symbol? d.number) =
    (((Workspace.declared sources).inits.zip (Workspace.declared sources)).filter fun x =>
      !x.1.any fun s => s.package == x.2.package && s.name == x.2.name).map fun x => some x.2
  counted : t.types.length + ds.countP (·.kind == .alreadyDefined) =
    (sources.flatMap (·.types)).length

/-- An arena that tells of the same packages, files and types as a workspace. -/
structure Arena.Tells (t : Arena) (w : Workspace) : Prop where
  workspace : t.workspace = w
  paths : t.packages.map (·.path) = w.packages
  children : ∀ p ∈ t.packages,
    (p.children.filterMap fun n => t.packages[n]?).map (·.path) = w.childrenOf p.path
  files : ∀ p ∈ t.packages, (p.files.filterMap fun n => t.files[n]?).map (·.file) =
    (w.filesOf p.path).map (·.file)
  symbols : ∀ p ∈ t.packages, t.packageSymbols p.number = w.symbolsOf p.path
  symbolOf : ∀ p ∈ t.packages, ∀ name, (t.typeIn? p.number name).bind t.symbol? =
    w.symbolOf? p.path name

namespace Arena

open Workspace (symbolKey declared arrange ofArranged)

variable {sources : List SourceFile} {t : Arena} {ds : List Diagnostic}

/-- The children of a package, found by their numbers. -/
theorem map_path_children (paths : List String) (w : Workspace) (n : Nat) (p : String) :
    ((packageOf paths w n p).children.filterMap fun m => (holding paths w).packages[m]?).map
    (·.path) =
      paths.filter fun q => Path.parent? q == some p := by
  have hpath : ∀ m : Nat, ((holding paths w).packages[m]?).map (·.path) = paths[m]? := by
    intro m
    rw [← List.getElem?_map, paths_holding]
  rw [List.map_filterMap, ← filterMap_findIdxs]
  exact congrFun (congrArg _ (funext hpath)) _

/-- The files of a package, found by their numbers. -/
theorem map_file_files (paths : List String) (w : Workspace) (n : Nat) (p : String) :
    ((packageOf paths w n p).files.filterMap fun m => (holding paths w).files[m]?).map (·.file) =
      (w.filesOf p).map (·.file) := by
  have hfile : ∀ m : Nat, ((holding paths w).files[m]?).map (·.file) =
      (w.files[m]?).map (·.file) := by
    intro m
    rw [getElem?_files_holding, Option.map_map]
    rfl
  rw [List.map_filterMap, Workspace.filesOf, ← filterMap_findIdxs, List.map_filterMap]
  exact congrFun (congrArg _ (funext hfile)) _

/-- The types of a package are found file by file. -/
theorem Fit.packageSymbols_holding {paths : List String} {w : Workspace} (h : Fit paths w)
    {n : Nat} {p : String}
    (hn : paths[n]? = some p) : (holding paths w).packageSymbols n = w.symbolsOf p := by
  have hfile : ∀ m : Nat, ((holding paths w).files[m]?).elim [] (holding paths w).symbolsIn =
      (w.files[m]?).elim [] (·.symbols) := by
    intro m
    rw [getElem?_files_holding]
    cases hm : w.files[m]? with
    | none => rfl
    | some f => exact h.symbolsIn_holding (List.mem_of_getElem? hm) m
  have hfiles : ((holding paths w).packages[n]?).elim [] (·.files) = w.files.findIdxs fun f =>
      f.file.path == p := by
    rw [getElem?_packages_holding, hn]
    rfl
  rw [packageSymbols, hfiles, Workspace.symbolsOf, Workspace.filesOf, ← filterMap_findIdxs,
    flatMap_filterMap]
  exact congrFun (congrArg _ (funext hfile)) _

/-- An arena that holds a workspace tells all of it. -/
theorem Fit.tells {w : Workspace} (h : Fit w.packages w) : (holding w.packages w).Tells w where
  workspace := h.workspace_holding
  paths := paths_holding w.packages w
  children := by
    intro p hp
    obtain ⟨n, path, -, rfl⟩ := mem_packages_holding.1 hp
    exact map_path_children w.packages w n path
  files := by
    intro p hp
    obtain ⟨n, path, -, rfl⟩ := mem_packages_holding.1 hp
    exact map_file_files w.packages w n path
  symbols := by
    intro p hp
    obtain ⟨n, path, hn, rfl⟩ := mem_packages_holding.1 hp
    exact h.packageSymbols_holding hn
  symbolOf := by
    intro p hp name
    obtain ⟨n, path, hn, rfl⟩ := mem_packages_holding.1 hp
    have hfind := h.typeIn?_holding (List.mem_of_getElem? hn) name
    rwa [idxOf_eq_of_getElem? h.nodup_paths hn] at hfind

/-- The arena that is built is that of the workspace that is put together. -/
theorem eq_holding_of_build (h : build sources = .ok (t, ds)) :
    ∃ w, Workspace.assemble sources = .ok (w, ds) ∧
    Fit w.packages w ∧ t = holding w.packages w := by
  obtain ⟨hne, hnone, rfl, rfl⟩ := build_eq_ok_iff.1 h
  exact ⟨_, Workspace.assemble_eq_ok_iff.2 ⟨hne, hnone, rfl, rfl⟩,
    (enterAll_arrange hne hnone rfl).1, rfl⟩

/-- Lookups in a workspace give what those in its arena give. -/
theorem tells_of_build (h : build sources = .ok (t, ds)) :
    Workspace.assemble sources = .ok (t.workspace, ds) ∧ t.Tells t.workspace := by
  obtain ⟨w, hw, hfit, rfl⟩ := eq_holding_of_build h
  rw [hfit.workspace_holding]
  exact ⟨hw, hfit.tells⟩

/-- Each type that is declared is in the workspace or is reported. -/
theorem length_symbols_of_assemble {w : Workspace} (h : Workspace.assemble sources = .ok (w, ds)) :
    w.symbols.length + ds.countP (·.kind == .alreadyDefined) =
      (sources.flatMap (·.types)).length := by
  have hreports : ds.length = (repeats symbolKey (declared sources)).length := by
    obtain ⟨-, -, -, rfl⟩ := Workspace.assemble_eq_ok_iff.1 h
    exact List.length_map _
  have hkind : ∀ d ∈ ds, (d.kind == .alreadyDefined) = true := by
    obtain ⟨-, -, -, rfl⟩ := Workspace.assemble_eq_ok_iff.1 h
    intro d hd
    obtain ⟨x, -, rfl⟩ := List.mem_map.1 hd
    rfl
  rw [List.countP_eq_length.2 hkind, hreports, Workspace.symbols_of_assemble h,
    length_firsts_add_length_repeats, Workspace.length_declared]

/-- Building an arena makes a well-formed one. -/
theorem wellFormed_of_build (h : build sources = .ok (t, ds)) : t.WellFormed sources ds := by
  obtain ⟨w, hw, hfit, rfl⟩ := eq_holding_of_build h
  have hfiles : ∀ {α : Type} (part : FileScope → α) (part' : File → α),
      (∀ n f, part' (fileOf w.packages w n f) = part f) →
        (holding w.packages w).files.map part' = w.files.map part :=
        fun _ _ hpart => map_mapIdx hpart w.files
  have hpackages : w.packages ≠ [] :=
    List.ne_nil_of_mem ((Workspace.mem_packages_iff_of_assemble hw).2 (.inl rfl))
  exact {
    linked := hfit.linked hpackages w.parentsFirst_packages
    mem_paths := fun path => by
      rw [paths_holding]
      exact Workspace.mem_packages_iff_of_assemble hw
    files := by
      rw [hfiles (fun f => (f.file, f.uses)) (fun f => (f.file, f.uses)) fun _ _ => rfl]
      exact Workspace.files_perm_of_assemble hw
    nodup_files := by
      rw [hfiles (·.file) (·.file) fun _ _ => rfl]
      exact Workspace.nodup_files_of_assemble hw
    files_le := by
      have hle : (w.files.map (·.file)).Pairwise fun a b => a.le b :=
        List.pairwise_map.2 (Workspace.files_le_of_assemble hw)
      rw [← hfiles (·.file) (·.file) fun _ _ => rfl] at hle
      exact List.pairwise_map.1 hle
    types := by
      have htypes : (holding w.packages w).types.map
          (fun d => (holding w.packages w).symbol? d.number) =
          w.symbols.map some := by
        refine List.ext_getElem? fun n => ?_
        rw [List.getElem?_map, getElem?_types_holding, List.getElem?_map, Option.map_map]
        cases hn : w.symbols[n]? with
        | none => rfl
        | some s => exact congrArg some ((hfit.symbol?_holding n).trans hn)
      rw [htypes, Workspace.symbols_of_assemble hw, firsts_eq_filter, List.map_map]
      rfl
    counted := by
      have hlength : (holding w.packages w).types.length = w.symbols.length := List.length_mapIdx
      rw [hlength]
      exact length_symbols_of_assemble hw }

end Arena

namespace Sample

def shelfPlace : Span := ⟨⟨2, 1⟩, ⟨2, 6⟩⟩

def shelf : TypeDecl := ⟨⟨"Shelf", shelfPlace⟩, .struct, none, [], [], [], [], shelfPlace⟩

def shelfFile (name : String) : SourceFile := ⟨⟨"home/room", name⟩, [], [shelf]⟩

/-- Both files that declare the struct, of which the first one holds it. -/
def shelves : Workspace :=
  ⟨[⟨⟨"home/room", "left.nex"⟩, [], [⟨⟨"home/room", "left.nex"⟩, shelf⟩], []⟩,
    ⟨⟨"home/room", "right.nex"⟩, [], [], []⟩]⟩

def shelfReport : Diagnostic :=
  Workspace.alreadyDeclared ⟨⟨"home/room", "right.nex"⟩, shelf⟩ ⟨⟨"home/room", "left.nex"⟩, shelf⟩

def shelvesArena : Arena where
  packages :=
    [⟨0, "", none, [1], []⟩, ⟨1, "home", some 0, [2], []⟩, ⟨2, "home/room", some 1, [], [0, 1]⟩]
  files := [⟨0, ⟨"home/room", "left.nex"⟩, 2, [], .ofLasts [("Shelf", 0)], .empty⟩,
    ⟨1, ⟨"home/room", "right.nex"⟩, 2, [], .empty, .empty⟩]
  types := [⟨0, "Shelf", shelf.id "home/room", shelf, 0⟩]
  byPath := .ofLasts [("", 0), ("home", 1), ("home/room", 2)]

theorem build_shelves :
    Arena.build [shelfFile "left.nex", shelfFile "right.nex"] =
      .ok (shelvesArena, [shelfReport]) := by
  have harrange : Workspace.arrange [shelfFile "left.nex", shelfFile "right.nex"] =
      [shelfFile "left.nex", shelfFile "right.nex"] := by
    refine Workspace.arrange_eq_self ?_ (by decide)
    intro s hs
    rcases List.mem_pair.1 hs with rfl | rfl
    · rfl
    · rfl
  refine Arena.build_eq_ok_iff.2 ⟨by simp, ?_, ?_, ?_⟩
  · rw [harrange]
    decide
  · rw [harrange]
    rfl
  · rw [harrange]
    rfl

theorem wellFormed_shelves :
    Arena.build [shelfFile "left.nex", shelfFile "right.nex"] = .ok (shelvesArena, [shelfReport]) ∧
      shelvesArena.WellFormed [shelfFile "left.nex", shelfFile "right.nex"] [shelfReport] :=
  ⟨build_shelves, Arena.wellFormed_of_build build_shelves⟩

theorem assemble_shelves :
    Workspace.assemble [shelfFile "left.nex", shelfFile "right.nex"] =
      .ok (shelves, [shelfReport]) :=
  (Arena.tells_of_build build_shelves).1

end Sample

end Schemata
