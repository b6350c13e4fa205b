import Schemata.Proofs.Data.Lists
import Schemata.Proofs.Data.OrderedMap
import Schemata.Proofs.Source.Texts
import Schemata.Proofs.Text.Path
import Schemata.Scope.Assembly

/-!
# What an arena holds

An arena is all told by the paths of its packages and the workspace of its files: the numbers in it
are places in three lists. Every step of putting files together leads from the arena of some paths
and a workspace to that of more paths and a larger workspace.
-/

namespace Schemata

namespace SourceFile

def symbols (s : SourceFile) : List Symbol := s.types.map fun d => ⟨s.file, d⟩

end SourceFile

namespace Workspace

/-- What makes a type unique: its package and its name. -/
def symbolKey (s : Symbol) : String × String := (s.package, s.name)

end Workspace

/-! ## Arenas told by paths and workspaces -/

namespace Arena

open Workspace (symbolKey)

/-- The numbers of the types of a file under their names. -/
def numbersIn (w : Workspace) (f : FileScope) : OrderedMap Nat :=
  .ofLasts ((w.symbols.zipIdx.filter (·.1.file == f.file)).map fun x => (x.1.name, x.2))

/-- The package at the path `p`, which has the number `n`. -/
def packageOf (paths : List String) (w : Workspace) (n : Nat) (p : String) : Package where
  number := n
  path := p
  parent := (Path.parent? p).map fun q => paths.idxOf q
  children := paths.findIdxs fun q => Path.parent? q == some p
  files := w.files.findIdxs fun f => f.file.path == p

/-- A file of a workspace, which has the number `n`. -/
def fileOf (paths : List String) (w : Workspace) (n : Nat) (f : FileScope) : File where
  number := n
  file := f.file
  package := paths.idxOf f.file.path
  uses := f.uses
  types := numbersIn w f
  imports := .empty

/-- A type of a workspace, which has the number `n`. -/
def declaredOf (w : Workspace) (n : Nat) (s : Symbol) : Declared where
  number := n
  name := s.name
  id := s.id
  decl := s.decl
  file := (w.files.map (·.file)).idxOf s.file

/-- The arena that has packages at some paths, and the files of a workspace. -/
def holding (paths : List String) (w : Workspace) : Arena where
  packages := paths.mapIdx (packageOf paths w)
  files := w.files.mapIdx (fileOf paths w)
  types := w.symbols.mapIdx (declaredOf w)
  byPath := .ofLasts paths.zipIdx

/-- The arena that holds a workspace keeps the packages by their numbers. -/
theorem getElem?_packages_holding (paths : List String) (w : Workspace) (number : Nat) :
    (holding paths w).packages[number]? = (paths[number]?).map (packageOf paths w number) :=
  List.getElem?_mapIdx

/-- The arena that holds a workspace keeps the files by their numbers. -/
theorem getElem?_files_holding (paths : List String) (w : Workspace) (number : Nat) :
    (holding paths w).files[number]? = (w.files[number]?).map (fileOf paths w number) :=
  List.getElem?_mapIdx

/-- The arena that holds a workspace keeps the types by their numbers. -/
theorem getElem?_types_holding (paths : List String) (w : Workspace) (number : Nat) :
    (holding paths w).types[number]? = (w.symbols[number]?).map (declaredOf w number) :=
  List.getElem?_mapIdx

/-- Paths and a workspace that an arena can have: each path is there once, and so are the parents of
the packages and the homes of the files; files are there once and hold types of their own, no two of
a package with one name. -/
structure Fit (paths : List String) (w : Workspace) : Prop where
  nodup_paths : paths.Nodup
  parents : ∀ p ∈ paths, ∀ q, Path.parent? p = some q → q ∈ paths
  homes : ∀ f ∈ w.files, f.file.path ∈ paths
  nodup_files : (w.files.map (·.file)).Nodup
  own : ∀ f ∈ w.files, ∀ s ∈ f.symbols, s.file = f.file
  nodup_symbols : (w.symbols.map symbolKey).Nodup
  bare : ∀ f ∈ w.files, f.imports = []

variable {paths : List String} {w : Workspace} {p : String}

/-! ## Packages -/

namespace Fit

/-- There is room for one more package where the package above it is. -/
theorem addPath (h : Fit paths w) (hp : p ∉ paths)
    (hparent : ∀ q, Path.parent? p = some q → q ∈ paths) :
    Fit (paths ++ [p]) w where
  nodup_paths := nodup_concat h.nodup_paths hp
  parents := by
    intro a ha q hq
    rcases List.mem_append.1 ha with ha | ha
    · exact List.mem_append_left _ (h.parents a ha q hq)
    · rw [List.mem_singleton.1 ha] at hq
      exact List.mem_append_left _ (hparent q hq)
  homes := fun f hf => List.mem_append_left _ (h.homes f hf)
  nodup_files := h.nodup_files
  own := h.own
  nodup_symbols := h.nodup_symbols
  bare := h.bare

/-- A package is found by its path. -/
theorem packageAt?_eq_some_iff (h : Fit paths w) {number : Nat} :
    (holding paths w).packageAt? p = some number ↔ paths[number]? = some p := by
  have hentries : (OrderedMap.ofLasts paths.zipIdx).entries = paths.zipIdx :=
    OrderedMap.entries_ofLasts (by rw [List.zipIdx_map_fst]; exact h.nodup_paths)
  rw [packageAt?, OrderedMap.get?_eq_some_iff, holding, hentries, List.mk_mem_zipIdx_iff_getElem?]

/-- A path without a number is one that was not filled in yet. -/
theorem packageAt?_eq_none_iff (h : Fit paths w) :
    (holding paths w).packageAt? p = none ↔ p ∉ paths := by
  rw [Option.eq_none_iff_forall_ne_some, List.mem_iff_getElem?, not_exists]
  exact forall_congr' fun number => not_congr h.packageAt?_eq_some_iff

/-- Only the parent of one more package is changed by it. -/
theorem packageOf_concat (h : Fit paths w)
    (hparent : ∀ q, Path.parent? p = some q → q ∈ paths) {n : Nat} {q : String}
    (hn : (paths ++ [p])[n]? = some q) :
    packageOf (paths ++ [p]) w n q =
      if Path.parent? p = some q then
        { packageOf paths w n q with
          children := (packageOf paths w n q).children ++ [paths.length] }
      else packageOf paths w n q := by
  have hindex : ∀ r, Path.parent? q = some r → (paths ++ [p]).idxOf r = paths.idxOf r := by
    intro r hr
    refine List.idxOf_append_of_mem ?_
    rcases List.mem_append.1 (List.mem_of_getElem? hn) with hq | hq
    · exact h.parents q hq r hr
    · exact hparent r (List.mem_singleton.1 hq ▸ hr)
  rw [packageOf, Option.map_congr hindex, findIdxs_concat]
  by_cases hlast : Path.parent? p = some q
  · simp [packageOf, hlast]
  · simp [packageOf, hlast]

/-- One more package comes without children and files, and becomes the last child of its parent. -/
theorem addPackage_holding (h : Fit paths w) (hp : p ∉ paths)
    (hparent : ∀ q, Path.parent? p = some q → q ∈ paths) :
    (holding paths w).addPackage p ((Path.parent? p).map fun q => paths.idxOf q) =
      holding (paths ++ [p]) w := by
  have hnodup := (h.addPath hp hparent).nodup_paths
  have hnew : (⟨paths.length, p, (Path.parent? p).map fun q => paths.idxOf q, [], []⟩ : Package) =
      packageOf paths w paths.length p := by
    have hchildren : (paths.findIdxs fun r => Path.parent? r == some p) = [] :=
      List.findIdxs_eq_nil_iff.2 fun r hr => beq_eq_false_iff_ne.2 fun e => hp (h.parents r hr p e)
    have hfiles : (w.files.findIdxs fun f => f.file.path == p) = [] :=
      List.findIdxs_eq_nil_iff.2 fun f hf => beq_eq_false_iff_ne.2 fun e => hp (e ▸ h.homes f hf)
    rw [packageOf, hchildren, hfiles]
  have hpackages : addChild ((paths ++ [p]).mapIdx (packageOf paths w)) paths.length
      ((Path.parent? p).map fun q => paths.idxOf q) =
      (paths ++ [p]).mapIdx (packageOf (paths ++ [p]) w) := by
    cases habove : Path.parent? p with
    | none =>
      refine mapIdx_congr fun n q hn => ?_
      rw [h.packageOf_concat hparent hn, habove, if_neg (Option.some_ne_none q).symm]
    | some r =>
      refine modify_mapIdx fun n q hn => ?_
      rw [h.packageOf_concat hparent hn, habove]
      have hr : r ∈ paths := hparent r habove
      have hplace : some r = some q ↔ paths.idxOf r = n := by
        rw [Option.some.injEq, ← List.idxOf_append_of_mem hr, ← idxOf_eq_of_getElem? hnodup hn]
        exact (List.idxOf_inj (List.mem_append_left _ hr)).symm
      exact if_congr hplace rfl rfl
  have hfiles : w.files.mapIdx (fileOf paths w) = w.files.mapIdx (fileOf (paths ++ [p]) w) := by
    refine mapIdx_congr fun n f hn => ?_
    rw [fileOf, fileOf, List.idxOf_append_of_mem (h.homes f (List.mem_of_getElem? hn))]
  have hlength : (holding paths w).packages.length = paths.length := List.length_mapIdx
  rw [addPackage, hlength, hnew]
  simp only [holding, Arena.mk.injEq]
  refine ⟨?_, hfiles, trivial, ?_⟩
  · rw [← hpackages, List.mapIdx_append_one]
  · rw [zipIdx_concat, OrderedMap.ofLasts_concat]

end Fit

/-! ## Packages and those above them -/

/-- A package with no parent is added by itself. -/
theorem ensurePackage_of_root {t : Arena} (hnew : t.packageAt? p = none)
    (hroot : Path.parent? p = none) :
    t.ensurePackage p = (t.addPackage p none, t.packages.length) := by
  rw [ensurePackage, hnew]
  dsimp only
  split
  · rfl
  · next habove => cases hroot.symm.trans habove

/-- A package below another is added behind it, with its number for the parent. -/
theorem ensurePackage_of_below {t : Arena} {q : String} (hnew : t.packageAt? p = none)
    (hq : Path.parent? p = some q) : t.ensurePackage p =
      ((t.ensurePackage q).1.addPackage p (some (t.ensurePackage q).2),
        (t.ensurePackage q).1.packages.length) := by
  rw [ensurePackage, hnew]
  dsimp only
  split
  · next hnone => cases hq.symm.trans hnone
  · next r hr =>
    obtain rfl := Option.some.inj (hq.symm.trans hr)
    rfl

/-- Some paths with those on the way to one more path. -/
def withAncestors (paths : List String) (p : String) : List String :=
  paths ++ (Path.ancestors p).filter fun q => !paths.contains q

/-- A new path comes behind its parent and all that the parent brings. -/
theorem withAncestors_eq_concat {q : String} (hp : Path.normalize p = p)
    (hq : Path.parent? p = some q)
    (hnew : p ∉ paths) : withAncestors paths p = withAncestors paths q ++ [p] := by
  rw [withAncestors, withAncestors, (Path.ancestors_eq_concat hp hq).2, List.filter_append,
    List.append_assoc]
  simp [hnew]

namespace Fit

/-- With a package all packages above it are there. -/
theorem withAncestors_eq_self (h : Fit paths w) (hp : Path.normalize p = p) (hmem : p ∈ paths) :
    withAncestors paths p = paths := by
  have hall : ∀ q ∈ Path.ancestors p, q ∈ paths := by
    induction p using Path.parent?_induction with
    | root p hroot =>
      obtain rfl := Path.eq_empty_of_parent?_eq_none hroot
      exact List.forall_mem_singleton.2 hmem
    | below p q hq ih =>
      obtain ⟨hnormal, hancestors⟩ := Path.ancestors_eq_concat hp hq
      rw [hancestors]
      exact List.forall_mem_append.2 ⟨ih hnormal (h.parents p hmem q hq),
        List.forall_mem_singleton.2 hmem⟩
  rw [withAncestors, List.filter_eq_nil_iff.2, List.append_nil]
  exact fun q hq => by simp [hall q hq]

/-- A path that is there already is found and nothing is added. -/
theorem ensurePackage_of_mem (h : Fit paths w) (hp : Path.normalize p = p) (hmem : p ∈ paths) :
    Fit (withAncestors paths p) w ∧ p ∈ withAncestors paths p ∧
      (holding paths w).ensurePackage p =
        (holding (withAncestors paths p) w, (withAncestors paths p).idxOf p) := by
  obtain ⟨number, hnumber⟩ := List.mem_iff_getElem?.1 hmem
  rw [h.withAncestors_eq_self hp hmem, ensurePackage, h.packageAt?_eq_some_iff.2 hnumber]
  exact ⟨h, hmem, by rw [idxOf_eq_of_getElem? h.nodup_paths hnumber]⟩

/-- The number of a new package that comes behind all others. -/
theorem idxOf_concat_self {p : String} (hnew : p ∉ paths) :
    (paths ++ [p]).idxOf p = paths.length := by
  rw [List.idxOf_append_of_notMem hnew, List.idxOf_cons_self, Nat.add_zero]

/-- Asking for a package makes those on the way to it that are not there. -/
theorem ensurePackage_holding (h : Fit paths w) (hp : Path.normalize p = p) :
    Fit (withAncestors paths p) w ∧ p ∈ withAncestors paths p ∧
      (holding paths w).ensurePackage p =
        (holding (withAncestors paths p) w, (withAncestors paths p).idxOf p) := by
  have hlength : ∀ paths, (holding paths w).packages.length = paths.length :=
    fun _ => List.length_mapIdx
  induction p using Path.parent?_induction with
  | root p hroot =>
    obtain rfl := Path.eq_empty_of_parent?_eq_none hroot
    by_cases hmem : "" ∈ paths
    · exact h.ensurePackage_of_mem hp hmem
    · have hconcat : withAncestors paths "" = paths ++ [""] := by
        have hself : Path.ancestors "" = [""] := rfl
        simp [withAncestors, hself, hmem]
      have hparent : ∀ q, Path.parent? "" = some q → q ∈ paths :=
        fun q hq => nomatch hroot.symm.trans hq
      have hadd := h.addPackage_holding hmem hparent
      rw [hroot] at hadd
      rw [hconcat, ensurePackage_of_root (h.packageAt?_eq_none_iff.2 hmem) hroot,
        idxOf_concat_self hmem]
      exact ⟨h.addPath hmem hparent, List.mem_append_right _ (List.mem_singleton_self _),
        Prod.ext hadd (hlength paths)⟩
  | below p q hq ih =>
    by_cases hmem : p ∈ paths
    · exact h.ensurePackage_of_mem hp hmem
    · obtain ⟨hnormal, hancestors⟩ := Path.ancestors_eq_concat hp hq
      obtain ⟨hfit, hqmem, hensure⟩ := ih hnormal
      have hnew : p ∉ withAncestors paths q := by
        have hnodup := hancestors ▸ Path.nodup_ancestors p
        intro hmem'
        rcases List.mem_append.1 hmem' with hmem' | hmem'
        · exact hmem hmem'
        · exact (List.nodup_append.1 hnodup).2.2 p (List.mem_of_mem_filter hmem') p
            (List.mem_singleton_self p) rfl
      have hparent : ∀ r, Path.parent? p = some r → r ∈ withAncestors paths q := by
        intro r hr
        rwa [← Option.some.inj (hq.symm.trans hr)]
      have hadd := hfit.addPackage_holding hnew hparent
      rw [hq, Option.map_some] at hadd
      rw [withAncestors_eq_concat hp hq hmem,
        ensurePackage_of_below (h.packageAt?_eq_none_iff.2 hmem) hq, hensure,
        idxOf_concat_self hnew]
      exact ⟨hfit.addPath hnew hparent, List.mem_append_right _ (List.mem_singleton_self _),
        Prod.ext hadd (hlength _)⟩

end Fit

/-! ## Files -/

theorem symbols_concat (files : List FileScope) (f : FileScope) :
    Workspace.symbols ⟨files ++ [f]⟩ = Workspace.symbols ⟨files⟩ ++ f.symbols := by
  rw [Workspace.symbols, Workspace.symbols, List.flatMap_append, List.flatMap_singleton]

namespace Fit

/-- Every type is in one of the files. -/
theorem file_mem (h : Fit paths w) {s : Symbol} (hs : s ∈ w.symbols) :
    s.file ∈ w.files.map (·.file) := by
  obtain ⟨f, hf, hsf⟩ := List.mem_flatMap.1 hs
  rw [h.own f hf s hsf]
  exact List.mem_map_of_mem hf

/-- There is room for one more file where its package is. -/
theorem addScope (h : Fit paths w) {s : SourceFile} (hpath : s.file.path ∈ paths)
    (hnew : s.file ∉ w.files.map (·.file)) : Fit paths ⟨w.files ++ [⟨s.file, s.uses, [], []⟩]⟩ where
  nodup_paths := h.nodup_paths
  parents := h.parents
  homes := List.forall_mem_append.2 ⟨h.homes, List.forall_mem_singleton.2 hpath⟩
  nodup_files := by
    rw [List.map_append]
    exact nodup_concat h.nodup_files hnew
  own := List.forall_mem_append.2 ⟨h.own, List.forall_mem_singleton.2 fun s hs => nomatch hs⟩
  nodup_symbols := by
    rw [symbols_concat, List.append_nil]
    exact h.nodup_symbols
  bare := List.forall_mem_append.2 ⟨h.bare, List.forall_mem_singleton.2 rfl⟩

/-- One more file comes without types, and becomes the last one of its package. -/
theorem addFile_holding (h : Fit paths w) {s : SourceFile} (hpath : s.file.path ∈ paths)
    (hnew : s.file ∉ w.files.map (·.file)) :
    (holding paths w).addFile s (paths.idxOf s.file.path) =
      holding paths ⟨w.files ++ [⟨s.file, s.uses, [], []⟩]⟩ := by
  have hsymbols : Workspace.symbols ⟨w.files ++ [⟨s.file, s.uses, [], []⟩]⟩ = w.symbols := by
    rw [symbols_concat, List.append_nil]
  have hlength : (holding paths w).files.length = w.files.length := List.length_mapIdx
  have hempty : numbersIn ⟨w.files ++ [⟨s.file, s.uses, [], []⟩]⟩
      ⟨s.file, s.uses, [], []⟩ = .empty := by
    have hnone : (w.symbols.zipIdx.filter fun x => x.1.file == s.file) = [] := by
      refine List.filter_eq_nil_iff.2 fun x hx e => hnew ?_
      rw [← eq_of_beq e]
      exact h.file_mem (List.fst_mem_of_mem_zipIdx hx)
    rw [numbersIn, hsymbols, hnone]
    rfl
  rw [addFile, hlength]
  simp only [holding, Arena.mk.injEq]
  refine ⟨modify_mapIdx fun n p hn => ?_, ?_, ?_, trivial⟩
  · have hplace : paths.idxOf s.file.path = n ↔ s.file.path = p := by
      rw [← idxOf_eq_of_getElem? h.nodup_paths hn]
      exact List.idxOf_inj hpath
    simp only [packageOf, findIdxs_concat, hplace]
    by_cases hp : s.file.path = p
    · simp [hp]
    · simp [hp]
  · have hold : w.files.mapIdx (fileOf paths ⟨w.files ++ [⟨s.file, s.uses, [], []⟩]⟩) =
        w.files.mapIdx (fileOf paths w) := by
      refine mapIdx_congr fun n f hn => ?_
      rw [fileOf, numbersIn, hsymbols]
      rfl
    rw [List.mapIdx_append_one, hold, fileOf, hempty]
  · rw [hsymbols]
    refine mapIdx_congr fun n d hn => ?_
    have hmem : d.file ∈ w.files.map (·.file) := h.file_mem (List.mem_of_getElem? hn)
    rw [declaredOf, declaredOf, List.map_append, List.idxOf_append_of_mem hmem]

end Fit

/-! ## Types -/

def withSymbols (f : FileScope) (types : List Symbol) : FileScope :=
  { f with symbols := f.symbols ++ types }

theorem symbols_withSymbols (files : List FileScope) (f : FileScope) (types : List Symbol) :
    Workspace.symbols ⟨files ++ [withSymbols f types]⟩ =
      Workspace.symbols ⟨files ++ [f]⟩ ++ types := by
  rw [symbols_concat, symbols_concat, withSymbols, List.append_assoc]

theorem withSymbols_nil (f : FileScope) : withSymbols f [] = f := by
  rw [withSymbols, List.append_nil]

theorem withSymbols_withSymbols (f : FileScope) (types types' : List Symbol) :
    withSymbols (withSymbols f types) types' = withSymbols f (types ++ types') := by
  rw [withSymbols, withSymbols, withSymbols, List.append_assoc]

/-- One more type of the last file takes the next number there, and no number elsewhere. -/
theorem numbersIn_withSymbols (files : List FileScope) (f : FileScope) (s : Symbol)
    (g : FileScope) :
    numbersIn ⟨files ++ [withSymbols f [s]]⟩ g =
      if s.file = g.file then
        (numbersIn ⟨files ++ [f]⟩ g).insert s.name (Workspace.symbols ⟨files ++ [f]⟩).length
      else numbersIn ⟨files ++ [f]⟩ g := by
  rw [numbersIn, symbols_withSymbols, zipIdx_concat, List.filter_append]
  by_cases hg : s.file = g.file
  · simp [hg, OrderedMap.ofLasts_concat, numbersIn]
  · simp [hg, numbersIn]

namespace Fit

variable {files : List FileScope} {f : FileScope} {s : Symbol}

/-- There is room for one more type of the last file if its name is not taken in the package. -/
theorem addSymbol (h : Fit paths ⟨files ++ [f]⟩) (hs : s.file = f.file)
    (hnew : symbolKey s ∉ (Workspace.symbols ⟨files ++ [f]⟩).map symbolKey) :
    Fit paths ⟨files ++ [withSymbols f [s]]⟩ where
  nodup_paths := h.nodup_paths
  parents := h.parents
  homes := by
    obtain ⟨hfront, hlast⟩ := List.forall_mem_append.1 h.homes
    have hlast : f.file.path ∈ paths := hlast f (List.mem_singleton_self f)
    exact List.forall_mem_append.2 ⟨hfront, List.forall_mem_singleton.2 hlast⟩
  nodup_files := by
    have hfiles := h.nodup_files
    rwa [List.map_append] at hfiles ⊢
  own := by
    obtain ⟨hfront, hlast⟩ := List.forall_mem_append.1 h.own
    refine List.forall_mem_append.2
      ⟨hfront, List.forall_mem_singleton.2 (List.forall_mem_append.2 ?_)⟩
    exact ⟨List.forall_mem_singleton.1 hlast, List.forall_mem_singleton.2 hs⟩
  nodup_symbols := by
    rw [symbols_withSymbols, List.map_append]
    exact nodup_concat h.nodup_symbols hnew
  bare := by
    obtain ⟨hfront, hlast⟩ := List.forall_mem_append.1 h.bare
    have hlast : f.imports = [] := hlast f (List.mem_singleton_self f)
    exact List.forall_mem_append.2 ⟨hfront, List.forall_mem_singleton.2 hlast⟩

/-- The last file comes once. -/
theorem last_notMem (h : Fit paths ⟨files ++ [f]⟩) : f.file ∉ files.map (·.file) := by
  have hnodup := h.nodup_files
  rw [List.map_append, List.nodup_append] at hnodup
  exact fun hmem => hnodup.2.2 _ hmem _ (List.mem_singleton_self _) rfl

/-- Only the last file has a number for one more type of it. -/
theorem files_addType (h : Fit paths ⟨files ++ [f]⟩) (hs : s.file = f.file) :
    (holding paths ⟨files ++ [withSymbols f [s]]⟩).files =
      (holding paths ⟨files ++ [f]⟩).files.modify files.length fun g =>
        { g with types := g.types.insert s.name (Workspace.symbols ⟨files ++ [f]⟩).length } := by
  have hother : files.mapIdx (fileOf paths ⟨files ++ [withSymbols f [s]]⟩) =
      files.mapIdx (fileOf paths ⟨files ++ [f]⟩) := by
    refine mapIdx_congr fun n g hn => ?_
    have hne : s.file ≠ g.file := fun e =>
      h.last_notMem (hs ▸ e ▸ List.mem_map_of_mem (List.mem_of_getElem? hn))
    rw [fileOf, numbersIn_withSymbols, if_neg hne]
    rfl
  have hself : fileOf paths ⟨files ++ [withSymbols f [s]]⟩ files.length (withSymbols f [s]) =
      { fileOf paths ⟨files ++ [f]⟩ files.length f with
        types := (numbersIn ⟨files ++ [f]⟩ f).insert s.name
          (Workspace.symbols ⟨files ++ [f]⟩).length } := by
    have hnumber := (numbersIn_withSymbols files f s f).trans (if_pos hs)
    rw [fileOf, fileOf, ← hnumber]
    rfl
  have hplace : files.length = (files.mapIdx (fileOf paths ⟨files ++ [f]⟩)).length :=
    List.length_mapIdx.symm
  simp only [holding]
  rw [List.mapIdx_append_one, List.mapIdx_append_one, hother, hself, hplace, modify_concat,
    ← hplace]
  rfl

/-- One more type of the last file comes last, and no other type changes its file. -/
theorem types_addType (h : Fit paths ⟨files ++ [f]⟩) (hs : s.file = f.file) :
    (holding paths ⟨files ++ [withSymbols f [s]]⟩).types =
      (holding paths ⟨files ++ [f]⟩).types ++
        [⟨(Workspace.symbols ⟨files ++ [f]⟩).length, s.name, s.id, s.decl, files.length⟩] := by
  have hpaths : (⟨files ++ [withSymbols f [s]]⟩ : Workspace).files.map (·.file) =
      (⟨files ++ [f]⟩ : Workspace).files.map (·.file) := by
    rw [List.map_append, List.map_append]
    rfl
  have hold : ∀ n d, declaredOf ⟨files ++ [withSymbols f [s]]⟩ n d =
      declaredOf ⟨files ++ [f]⟩ n d := by
    intro n d
    rw [declaredOf, declaredOf, hpaths]
  have hfile : ((⟨files ++ [f]⟩ : Workspace).files.map (·.file)).idxOf s.file = files.length := by
    rw [List.map_append, hs, List.map_singleton, List.idxOf_append_of_notMem h.last_notMem,
      List.idxOf_cons_self, List.length_map, Nat.add_zero]
  simp only [holding]
  rw [symbols_withSymbols, List.mapIdx_append_one, mapIdx_congr fun n d _ => hold n d, hold,
    declaredOf, hfile]

/-- One more type becomes the last one of its file. -/
theorem addType_holding (h : Fit paths ⟨files ++ [f]⟩) (hs : s.file = f.file) :
    (holding paths ⟨files ++ [f]⟩).addType files.length s =
      holding paths ⟨files ++ [withSymbols f [s]]⟩ := by
  have hlength : (holding paths ⟨files ++ [f]⟩).types.length =
      (Workspace.symbols ⟨files ++ [f]⟩).length := List.length_mapIdx
  have hpackages : (holding paths ⟨files ++ [f]⟩).packages =
      (holding paths ⟨files ++ [withSymbols f [s]]⟩).packages := by
    refine mapIdx_congr fun n p _ => ?_
    rw [packageOf, packageOf, findIdxs_concat, findIdxs_concat]
    rfl
  rw [addType, hlength, ← h.files_addType hs, ← h.types_addType hs, hpackages]
  rfl

end Fit

/-! ## Lookups -/

namespace Fit

variable {f : FileScope} {name : String}

/-- The types of a file are those of the workspace that are of the file. -/
theorem filter_symbols (h : Fit paths w) (hf : f ∈ w.files) :
    (w.symbols.filter (·.file == f.file)) = f.symbols :=
  filter_flatMap_eq_part h.nodup_files h.own hf

/-- No file keeps two types of one name. -/
theorem nodup_names (h : Fit paths w) (hf : f ∈ w.files) : (f.symbols.map (·.name)).Nodup := by
  have hsub : f.symbols.Sublist w.symbols := h.filter_symbols hf ▸ List.filter_sublist
  refine nodup_map_of_imp (h.nodup_symbols.sublist (hsub.map _)) fun s hs t ht hname => ?_
  rw [symbolKey, symbolKey, Symbol.package, Symbol.package, h.own f hf s hs, h.own f hf t ht, hname]

theorem entries_numbersIn (h : Fit paths w) (hf : f ∈ w.files) : (numbersIn w f).entries =
    (w.symbols.zipIdx.filter (·.1.file == f.file)).map fun x => (x.1.name, x.2) := by
  refine OrderedMap.entries_ofLasts ?_
  have hmap : ((w.symbols.zipIdx.filter (·.1.file == f.file)).map fun x =>
      (x.1.name, x.2)).map (·.1) =
      (w.symbols.filter (·.file == f.file)).map (·.name) := by
    conv_rhs => rw [← map_fst_filter_zipIdx]
    rw [List.map_map, List.map_map]
    rfl
  rw [hmap, h.filter_symbols hf]
  exact h.nodup_names hf

/-- The number of a type leads to the type. -/
theorem symbol?_holding (h : Fit paths w) (number : Nat) :
    (holding paths w).symbol? number = w.symbols[number]? := by
  rw [symbol?, getElem?_types_holding]
  cases hs : w.symbols[number]? with
  | none => rfl
  | some s =>
    have hplace : (w.files[(w.files.map (·.file)).idxOf s.file]?).map (·.file) = some s.file := by
      rw [← List.getElem?_map]
      exact List.getElem?_idxOf (h.file_mem (List.mem_of_getElem? hs))
    obtain ⟨f, hf, hfile⟩ := Option.map_eq_some_iff.1 hplace
    have hself : (⟨f.file, s.decl⟩ : Symbol) = s := by rw [hfile]
    rw [Option.map_some, Option.bind_some, getElem?_files_holding, declaredOf, hf]
    exact congrArg some hself

/-- The types of a file of an arena are those of the file of the workspace. -/
theorem symbolsIn_holding (h : Fit paths w) (hf : f ∈ w.files) (number : Nat) :
    (holding paths w).symbolsIn (fileOf paths w number f) = f.symbols := by
  have hlead : ∀ x ∈ w.symbols.zipIdx.filter (·.1.file == f.file),
      (holding paths w).symbol? x.2 = some x.1 := by
    intro x hx
    rw [h.symbol?_holding]
    exact List.mem_zipIdx_iff_getElem?.1 (List.mem_of_mem_filter hx)
  rw [symbolsIn, fileOf, h.entries_numbersIn hf, List.filterMap_map, ← h.filter_symbols hf,
    ← map_fst_filter_zipIdx fun s : Symbol => s.file == f.file]
  exact (List.filterMap_congr hlead).trans (congrFun List.filterMap_eq_map' _)

/-- The workspace of an arena that holds one is this one. -/
theorem workspace_holding (h : Fit paths w) : (holding paths w).workspace = w := by
  refine congrArg Workspace.mk (List.ext_getElem? fun number => ?_)
  rw [List.getElem?_map, getElem?_files_holding]
  cases hf : w.files[number]? with
  | none => rfl
  | some f =>
    have hmem := List.mem_of_getElem? hf
    have hbare : (⟨f.file, f.uses, f.symbols, []⟩ : FileScope) = f := by rw [← h.bare f hmem]
    rw [Option.map_some, Option.map_some, h.symbolsIn_holding hmem]
    exact congrArg some hbare

/-- The number of a type stands under its name. -/
theorem get?_numbersIn_eq_some_iff (h : Fit paths w) (hf : f ∈ w.files) {number : Nat} :
    (numbersIn w f).get? name = some number ↔
      ∃ s, w.symbols[number]? = some s ∧ s.file = f.file ∧ s.name = name := by
  rw [OrderedMap.get?_eq_some_iff, h.entries_numbersIn hf, List.mem_map]
  constructor
  · rintro ⟨⟨s, n⟩, hs, e⟩
    obtain ⟨rfl, rfl⟩ := Prod.mk.inj e
    obtain ⟨hs, hfile⟩ := List.mem_filter.1 hs
    exact ⟨s, List.mem_zipIdx_iff_getElem?.1 hs, eq_of_beq hfile, rfl⟩
  · rintro ⟨s, hs, hfile, rfl⟩
    exact ⟨(s, number), List.mem_filter.2 ⟨List.mem_zipIdx_iff_getElem?.2 hs,
      beq_iff_eq.2 hfile⟩, rfl⟩

/-- Looking a name up by its number finds the type that the file declares. -/
theorem bind_get?_numbersIn (h : Fit paths w) (hf : f ∈ w.files) (name : String) :
    ((numbersIn w f).get? name).bind (fun number => w.symbols[number]?) = f.symbol? name := by
  refine Option.ext fun s => ?_
  have hfound : f.symbol? name = some s ↔ s ∈ f.symbols ∧ s.name = name :=
    find?_key_eq_some_iff (h.nodup_names hf)
  rw [hfound, Option.bind_eq_some_iff, ← h.filter_symbols hf, List.mem_filter, beq_iff_eq]
  constructor
  · rintro ⟨number, hget, hs⟩
    obtain ⟨t, ht, hfile, hname⟩ := (h.get?_numbersIn_eq_some_iff hf).1 hget
    obtain rfl := Option.some.inj (hs.symm.trans ht)
    exact ⟨⟨List.mem_of_getElem? hs, hfile⟩, hname⟩
  · rintro ⟨⟨hs, hfile⟩, hname⟩
    obtain ⟨number, hnum⟩ := List.mem_iff_getElem?.1 hs
    exact ⟨number, (h.get?_numbersIn_eq_some_iff hf).2 ⟨s, hnum, hfile, hname⟩, hnum⟩

/-- A type is found by its name in its package. -/
theorem typeIn?_holding (h : Fit paths w) (hp : p ∈ paths) (name : String) :
    ((holding paths w).typeIn? (paths.idxOf p) name).bind (holding paths w).symbol? =
      w.symbolOf? p name := by
  have hfiles : ∀ number : Nat, ((holding paths w).files[number]?).bind (fun f : File =>
      f.types.get? name) =
      (w.files[number]?).bind fun f => (numbersIn w f).get? name := by
    intro number
    rw [getElem?_files_holding, Option.bind_map]
    rfl
  have hsearch : (holding paths w).typeIn? (paths.idxOf p) name =
      (w.filesOf p).findSome? fun f => (numbersIn w f).get? name := by
    rw [typeIn?, getElem?_packages_holding, List.getElem?_idxOf hp, Workspace.filesOf,
      ← filterMap_findIdxs fun f : FileScope => f.file.path == p, findSome?_filterMap]
    exact congrArg (fun g => List.findSome? g _) (funext hfiles)
  have hmem : ∀ f ∈ w.filesOf p, f ∈ w.files := fun f hf => List.mem_of_mem_filter hf
  rw [hsearch, funext h.symbol?_holding, bind_findSome?, Workspace.symbolOf?, Workspace.symbolsOf,
    List.find?_flatMap]
  · exact findSome?_congr fun f hf => h.bind_get?_numbersIn (hmem f hf) name
  · intro f hf number hnumber
    obtain ⟨s, hs, -⟩ := (h.get?_numbersIn_eq_some_iff (hmem f hf)).1 hnumber
    exact Option.isSome_of_eq_some hs

/-- Among all types, those of a package are told by their keys. -/
theorem symbolOf?_eq_find? (h : Fit paths w) (p name : String) :
    w.symbolOf? p name = w.symbols.find? (symbolKey · == (p, name)) := by
  have hpart : w.symbolsOf p = w.symbols.filter (·.package == p) := by
    rw [Workspace.symbolsOf, Workspace.filesOf, Workspace.symbols,
      List.filter_flatMap, flatMap_filter]
    refine List.flatMap_congr fun f hf => ?_
    have hpackage : ∀ s ∈ f.symbols, (s.package == p) = (f.file.path == p) := fun s hs => by
      rw [Symbol.package, h.own f hf s hs]
    rw [List.filter_congr hpackage]
    cases f.file.path == p <;> simp
  have hkey : ∀ s : Symbol, (symbolKey s == (p, name)) =
      decide ((s.package == p) = true ∧ (s.name == name) = true) :=
    fun s => by rw [Bool.eq_iff_iff]; simp [symbolKey]
  rw [Workspace.symbolOf?, hpart, List.find?_filter, funext hkey]

end Fit

end Arena

end Schemata
