import Schemata.Proofs.Scope.Arena

/-!
# Arenas filled file by file

A run that enters files in order makes the arena of the packages on the way to them and of the first
types of each name, and what it reports are the other types.
-/

namespace Schemata

namespace Arena

open Workspace (symbolKey)
open Repeats (firstsAfter repeatsAfter)

variable {paths : List String} {w : Workspace}

/-! ## Runs -/

/-- The reports on types left out of some that come behind others. -/
def reportsAfter (seen types : List Symbol) : List Diagnostic :=
  (repeatsAfter symbolKey seen types).map fun x => Workspace.alreadyDeclared x.1 x.2

namespace Fit

/-- Of some types of the last file those are left out whose names are taken in the package. -/
theorem declare_holding {files : List FileScope} {f : FileScope} (h : Fit paths ⟨files ++ [f]⟩)
    {seen : List Symbol}
    (hseen : seen = (Workspace.symbols ⟨files ++ [f]⟩).reverse) {types : List Symbol}
    (htypes : ∀ s ∈ types, s.file = f.file) :
    Fit paths ⟨files ++ [withSymbols f (firstsAfter symbolKey seen types)]⟩ ∧
      (holding paths ⟨files ++ [f]⟩).declare (paths.idxOf f.file.path) files.length types =
        (holding paths ⟨files ++ [withSymbols f (firstsAfter symbolKey seen types)]⟩,
          reportsAfter seen types) := by
  induction types generalizing f seen with
  | nil =>
    rw [firstsAfter, withSymbols_nil]
    exact ⟨h, rfl⟩
  | cons s rest ih =>
    obtain ⟨hs, hrest⟩ := List.forall_mem_cons.1 htypes
    have hpath : f.file.path ∈ paths :=
      h.homes f (List.mem_append_right _ (List.mem_singleton_self f))
    have hlookup : ((holding paths ⟨files ++ [f]⟩).typeIn? (paths.idxOf f.file.path) s.name).bind
        (holding paths ⟨files ++ [f]⟩).symbol? = seen.find? fun t =>
          symbolKey t == symbolKey s := by
      have hkey : symbolKey s = (f.file.path, s.name) := by rw [symbolKey, Symbol.package, hs]
      rw [h.typeIn?_holding hpath, h.symbolOf?_eq_find?, hseen, hkey]
      exact find?_key_of_perm h.nodup_symbols (List.reverse_perm _).symm _
    rw [declare, hlookup, reportsAfter, repeatsAfter]
    cases hfind : seen.find? fun t => symbolKey t == symbolKey s with
    | some first =>
      obtain ⟨hfit, hdeclare⟩ := ih h hseen hrest
      rw [Repeats.firstsAfter_cons_of_find?_eq_some hfind]
      dsimp only
      rw [hdeclare]
      exact ⟨hfit, rfl⟩
    | none =>
      have hnew : symbolKey s ∉ (Workspace.symbols ⟨files ++ [f]⟩).map symbolKey := by
        intro hmem
        obtain ⟨t, ht, hkey⟩ := List.mem_map.1 hmem
        have hne := List.find?_eq_none.1 hfind t (hseen ▸ List.mem_reverse.2 ht)
        exact hne (beq_iff_eq.2 hkey)
      have hseen' : s :: seen = (Workspace.symbols ⟨files ++ [withSymbols f [s]]⟩).reverse := by
        rw [symbols_withSymbols, List.reverse_append, List.reverse_singleton, ← hseen,
          List.singleton_append]
      obtain ⟨hfit, hdeclare⟩ := ih (h.addSymbol hs hnew) hseen' hrest
      rw [withSymbols_withSymbols] at hfit hdeclare
      rw [Repeats.firstsAfter_cons_of_find?_eq_none hfind, h.addType_holding hs]
      exact ⟨hfit, hdeclare⟩

/-- One more file comes with the packages on the way to it, and with those of its types whose names
are free. -/
theorem enter_holding (h : Fit paths w) {s : SourceFile}
    (hcanonical : Path.normalize s.file.path = s.file.path)
    (hnew : s.file ∉ w.files.map (·.file)) {seen : List Symbol} (hseen : seen = w.symbols.reverse) :
    Fit (withAncestors paths s.file.path)
        ⟨w.files ++ [⟨s.file, s.uses, firstsAfter symbolKey seen s.symbols, []⟩]⟩ ∧
      (holding paths w).enter s =
        (holding (withAncestors paths s.file.path)
          ⟨w.files ++ [⟨s.file, s.uses, firstsAfter symbolKey seen s.symbols, []⟩]⟩,
          reportsAfter seen s.symbols) := by
  obtain ⟨hpackages, hpath, hensure⟩ := h.ensurePackage_holding hcanonical
  have hfile := hpackages.addFile_holding hpath hnew
  have hsymbols : seen = (Workspace.symbols ⟨w.files ++ [⟨s.file, s.uses, [], []⟩]⟩).reverse := by
    rw [symbols_concat, List.append_nil, hseen]
  have hown : ∀ t ∈ s.symbols, t.file = s.file := by
    intro t ht
    obtain ⟨d, -, rfl⟩ := List.mem_map.1 ht
    rfl
  obtain ⟨hfit, hdeclare⟩ := (hpackages.addScope hpath hnew).declare_holding hsymbols hown
  have hlength : (holding (withAncestors paths s.file.path) w).files.length = w.files.length :=
    List.length_mapIdx
  rw [enter, hensure]
  dsimp only
  rw [hfile, hlength]
  exact ⟨hfit, hdeclare⟩

/-- Files come one by one. -/
theorem enterAll_holding (h : Fit paths w) {sources : List SourceFile}
    (hcanonical : ∀ s ∈ sources, Path.normalize s.file.path = s.file.path)
    (hnew : (w.files.map (·.file) ++ sources.map (·.file)).Nodup) {seen : List Symbol}
    (hseen : seen = w.symbols.reverse) :
    ∃ files : List FileScope,
      files.map (fun f => (f.file, f.uses)) = sources.map (fun s => (s.file, s.uses)) ∧
      files.flatMap (·.symbols) = firstsAfter symbolKey seen (sources.flatMap (·.symbols)) ∧
      Fit (sources.foldl (fun paths s => withAncestors paths s.file.path) paths)
        ⟨w.files ++ files⟩ ∧
      (holding paths w).enterAll sources =
        (holding (sources.foldl (fun paths s => withAncestors paths s.file.path) paths)
          ⟨w.files ++ files⟩,
          reportsAfter seen (sources.flatMap (·.symbols))) := by
  induction sources generalizing paths w seen with
  | nil => exact ⟨[], rfl, rfl, by simpa using h, by simp [enterAll, reportsAfter, repeatsAfter]⟩
  | cons s rest ih =>
    obtain ⟨hs, hrest⟩ := List.forall_mem_cons.1 hcanonical
    have hfree : s.file ∉ w.files.map (·.file) := by
      intro hmem
      exact (List.nodup_append.1 hnew).2.2 _ hmem _ List.mem_cons_self rfl
    obtain ⟨hfit, henter⟩ := h.enter_holding hs hfree hseen
    let f : FileScope := ⟨s.file, s.uses, firstsAfter symbolKey seen s.symbols, []⟩
    have hnew' : ((w.files ++ [f]).map (·.file) ++ rest.map (·.file)).Nodup := by
      rw [List.map_append, List.append_assoc]
      exact hnew
    have hseen' : (firstsAfter symbolKey seen s.symbols).reverse ++ seen =
        (Workspace.symbols ⟨w.files ++ [f]⟩).reverse := by
      rw [symbols_concat, List.reverse_append, ← hseen]
    obtain ⟨files, hfiles, hsymbols, hfit', hrun⟩ := ih hfit hrest hnew' hseen'
    refine ⟨f :: files, ?_, ?_, ?_, ?_⟩
    · rw [List.map_cons, List.map_cons, hfiles]
    · rw [List.flatMap_cons, List.flatMap_cons, Repeats.firstsAfter_append, hsymbols]
    · rw [List.append_assoc] at hfit'
      exact hfit'
    · rw [enterAll, henter]
      dsimp only
      rw [hrun, List.append_assoc, List.flatMap_cons, reportsAfter, reportsAfter, reportsAfter,
        Repeats.repeatsAfter_append, List.map_append]
      rfl

end Fit

end Arena

/-! ## Files in order -/

/-- Files in order of which none comes twice in a row are all different. -/
theorem SourceFile.nodup_of_repeated?_eq_none {l : List SourceFile}
    (hsorted : l.Pairwise fun a b => a.file.le b.file) (h : repeated? l = none) :
    (l.map (·.file)).Nodup := by
  induction l with
  | nil => exact List.nodup_nil
  | cons a l ih =>
    obtain ⟨hle, hsorted⟩ := List.pairwise_cons.1 hsorted
    cases l with
    | nil => simp
    | cons b rest =>
      rw [repeated?] at h
      split at h
      · cases h
      · next hne =>
        refine List.nodup_cons.2 ⟨fun hmem => ?_, ih hsorted h⟩
        obtain ⟨c, hc, hca⟩ := List.mem_map.1 hmem
        -- `b` stands between `a` and a file that is the same as `a`
        have hbc : b.file.le c.file := by
          rcases List.mem_cons.1 hc with rfl | hc
          · exact FileRef.le_iff.2 (.inr ⟨rfl, String.le_refl _⟩)
          · exact (List.pairwise_cons.1 hsorted).1 c hc
        rw [hca] at hbc
        exact hne (FileRef.le_antisymm (hle b List.mem_cons_self) hbc)

namespace Workspace

/-- Arranging loses no source and adds none. -/
theorem arrange_perm (sources : List SourceFile) :
    (arrange sources).Perm (sources.map (·.canonical)) := List.mergeSort_perm _ _

theorem canonical_of_mem_arrange {sources : List SourceFile} {s : SourceFile}
    (hs : s ∈ arrange sources) :
    s.canonical = s := by
  obtain ⟨t, -, rfl⟩ := List.mem_map.1 ((arrange_perm sources).mem_iff.1 hs)
  simp only [SourceFile.canonical, Path.normalize_normalize]

/-- Files in canonical spelling that are in order stay as they are. -/
theorem arrange_eq_self {sources : List SourceFile} (hcanonical : ∀ s ∈ sources, s.canonical = s)
    (hsorted : sources.Pairwise fun a b => a.file.le b.file) : arrange sources = sources := by
  have hmap : sources.map (·.canonical) = sources := by
    rw [List.map_congr_left hcanonical, List.map_id']
  rw [arrange, hmap]
  exact List.mergeSort_of_pairwise hsorted

/-- The arranged sources are in the order of their paths and names. -/
theorem pairwise_arrange (sources : List SourceFile) :
    (arrange sources).Pairwise fun a b => a.file.le b.file := by
  refine List.pairwise_mergeSort ?_ ?_ _
  · exact fun a b c hab hbc => FileRef.le_trans hab hbc
  · exact fun a b => FileRef.le_or_le a.file b.file

/-! ## The arena of some files -/

/-- A file with those of its types that the list `kept` has. -/
def bareScope (kept : List Symbol) (s : SourceFile) : FileScope :=
  ⟨s.file, s.uses, kept.filter (·.file == s.file), []⟩

/-- The workspace of files that are in order, in which the first type of each name in a package
counts. -/
def ofArranged (sources : List SourceFile) : Workspace :=
  ⟨sources.map (bareScope (firsts symbolKey (sources.flatMap (·.symbols))))⟩

end Workspace

namespace Arena

open Workspace (symbolKey arrange bareScope ofArranged)
open Repeats (firstsAfter repeatsAfter)

variable {paths : List String} {w : Workspace}

theorem withAncestors_eraseDups (l : List String) (p : String) :
    withAncestors l.eraseDups p = (l ++ Path.ancestors p).eraseDups := by
  have hnew : (Path.ancestors p).removeAll l = (Path.ancestors p).filter fun q =>
      !l.eraseDups.contains q := by
    refine List.filter_congr fun q _ => congrArg not ?_
    rw [Bool.eq_iff_iff, List.elem_iff, List.contains_iff_mem, List.mem_eraseDups]
  rw [withAncestors, List.eraseDups_append, hnew,
    eraseDups_eq_self ((Path.nodup_ancestors p).filter _)]

/-- Adding the sources one by one adds their ancestors in order, each once. -/
theorem foldl_withAncestors (l : List String) (sources : List SourceFile) :
    sources.foldl (fun paths s => withAncestors paths s.file.path) l.eraseDups =
      (l ++ sources.flatMap fun s => Path.ancestors s.file.path).eraseDups := by
  induction sources generalizing l with
  | nil => simp
  | cons s rest ih =>
    rw [List.foldl_cons, withAncestors_eraseDups, ih, List.flatMap_cons, List.append_assoc]

/-- A file of an arena without imports says what file it is, what it uses, and which types are its
own. -/
theorem Fit.scope_eq (h : Fit paths w) {f : FileScope} (hf : f ∈ w.files) :
    (⟨f.file, f.uses, w.symbols.filter (·.file == f.file), []⟩ : FileScope) = f := by
  rw [h.filter_symbols hf, ← h.bare f hf]

/-- Files without imports that keep the first type of each name are the workspace of their
sources. -/
theorem Fit.eq_ofArranged {files : List FileScope} {sources : List SourceFile}
    (h : Fit paths ⟨files⟩)
    (hfiles : files.map (fun f => (f.file, f.uses)) = sources.map fun s => (s.file, s.uses))
    (hkept : Workspace.symbols ⟨files⟩ = firsts symbolKey (sources.flatMap (·.symbols))) :
    ⟨files⟩ = ofArranged sources := by
  have hscopes : files = (files.map fun f => (f.file, f.uses)).map fun x =>
      ⟨x.1, x.2, (Workspace.symbols ⟨files⟩).filter (·.file == x.1), []⟩ := by
    rw [List.map_map]
    conv_lhs => rw [← List.map_id files]
    exact List.map_congr_left fun f hf => (h.scope_eq hf).symm
  rw [ofArranged]
  refine congrArg Workspace.mk (hscopes.trans ?_)
  rw [hfiles, List.map_map, hkept]
  rfl

/-- The packages made for some files behind the root are those of their workspace. -/
theorem foldl_withAncestors_root {sources : List SourceFile} (hne : sources ≠ []) :
    sources.foldl (fun paths s => withAncestors paths s.file.path) [""] =
      (ofArranged sources).packages := by
  have hroots : (ofArranged sources).packages =
      (sources.flatMap fun s => Path.ancestors s.file.path).eraseDups := by
    rw [ofArranged, Workspace.packages, List.flatMap_map]
    rfl
  obtain ⟨s, rest, rfl⟩ := List.exists_cons_of_ne_nil hne
  obtain ⟨below, hbelow⟩ := Path.ancestors_eq_cons s.file.path
  have hfold := foldl_withAncestors [""] (s :: rest)
  rw [eraseDups_eq_self (List.nodup_singleton "")] at hfold
  rw [hroots, hfold, List.flatMap_cons, hbelow]
  simp [List.eraseDups_cons]

/-- Putting files together makes the arena of their packages and of the first types of each name. -/
theorem enterAll_arrange {sources : List SourceFile} (hne : sources ≠ [])
    (hnone : SourceFile.repeated? (arrange sources) = none) {w : Workspace}
    (hw : w = ofArranged (arrange sources)) :
    Fit w.packages w ∧ (empty.ensurePackage "").1.enterAll (arrange sources) =
      (holding w.packages w, reportsAfter [] ((arrange sources).flatMap (·.symbols))) := by
  have hnothing : Fit [] ⟨[]⟩ := by
    constructor <;> simp [Workspace.symbols]
  have hroot : Fit [""] ⟨[]⟩ := hnothing.addPath (by simp) (by simp [Path.parent?])
  have hstart : (empty.ensurePackage "").1 = holding [""] ⟨[]⟩ :=
    congrArg Prod.fst (hnothing.ensurePackage_holding rfl).2.2
  have hnodup := SourceFile.nodup_of_repeated?_eq_none (Workspace.pairwise_arrange sources) hnone
  have hpaths : ∀ s ∈ arrange sources, Path.normalize s.file.path = s.file.path := fun s hs =>
    congrArg (fun s : SourceFile => s.file.path) (Workspace.canonical_of_mem_arrange hs)
  have harranged : arrange sources ≠ [] := by
    intro e
    have hlength := (Workspace.arrange_perm sources).length_eq
    rw [e, List.length_map] at hlength
    exact hne (List.length_eq_zero_iff.1 hlength.symm)
  obtain ⟨files, hfiles, hsymbols, hfit, hrun⟩ :=
    hroot.enterAll_holding hpaths (by simpa using hnodup) rfl
  rw [List.nil_append] at hfit hrun
  have hworkspace : ⟨files⟩ = w := (hfit.eq_ofArranged hfiles hsymbols).trans hw.symm
  rw [foldl_withAncestors_root harranged, hworkspace, ← hw] at hfit hrun
  rw [hstart]
  exact ⟨hfit, hrun⟩

/-- What comes of putting files together. -/
theorem build_eq_ok_iff {sources : List SourceFile} {t : Arena} {ds : List Diagnostic} :
    build sources = .ok (t, ds) ↔ sources ≠ [] ∧ SourceFile.repeated? (arrange sources) = none ∧
      t = holding (ofArranged (arrange sources)).packages (ofArranged (arrange sources)) ∧
      ds = (repeats symbolKey ((arrange sources).flatMap (·.symbols))).map
          fun (s, first) => Workspace.alreadyDeclared s first := by
  rw [build]
  split
  · next h => simp [List.isEmpty_iff.1 h]
  · next h =>
    have hne : sources ≠ [] := fun e => h (by simp [e])
    split
    · next hrepeated => simp [hrepeated]
    · next hnone =>
      rw [(enterAll_arrange hne hnone rfl).2]
      simp only [Except.ok.injEq, Prod.mk.injEq, hne, hnone, true_and, ne_eq, not_false_eq_true]
      exact and_congr eq_comm eq_comm

end Arena

namespace Workspace

/-- Files that are there once each make a workspace. -/
theorem assemble_eq_ok_iff {sources : List SourceFile} {w : Workspace} {ds : List Diagnostic} :
    assemble sources = .ok (w, ds) ↔
      sources ≠ [] ∧ SourceFile.repeated? (arrange sources) = none ∧
        w = ⟨(arrange sources).map
          (bareScope (firsts symbolKey ((arrange sources).flatMap (·.symbols))))⟩ ∧
        ds = (repeats symbolKey ((arrange sources).flatMap (·.symbols))).map
          fun (s, first) => alreadyDeclared s first := by
  have hmap : assemble sources = .ok (w, ds) ↔ ∃ t, Arena.build sources = .ok (t, ds) ∧
      t.workspace = w := by
    rw [assemble]
    cases Arena.build sources with
    | error e => simp [Except.map]
    | ok built => simp [Except.map, Prod.ext_iff, and_comm]
  rw [hmap]
  simp only [Arena.build_eq_ok_iff]
  constructor
  · rintro ⟨t, ⟨hne, hnone, rfl, hds⟩, rfl⟩
    exact ⟨hne, hnone, (Arena.enterAll_arrange hne hnone rfl).1.workspace_holding, hds⟩
  · rintro ⟨hne, hnone, rfl, hds⟩
    exact ⟨_, ⟨hne, hnone, rfl, hds⟩, (Arena.enterAll_arrange hne hnone rfl).1.workspace_holding⟩

/-- Putting files together fails where there are none, or where one comes twice. -/
theorem assemble_eq_error_iff {sources : List SourceFile} {e : Error} :
    assemble sources = .error e ↔
      (sources = [] ∧ e = .noSources) ∨
        (sources ≠ [] ∧ ∃ file, SourceFile.repeated? (arrange sources) = some file ∧
          e = .duplicateFile file.fullPath) := by
  rw [assemble, Arena.build]
  split
  · next hempty => simp [List.isEmpty_iff.1 hempty, Except.map, eq_comm]
  · next hempty =>
    have hne : sources ≠ [] := fun h => hempty (by simp [h])
    split
    · next file hfile => simp [hne, hfile, Except.map, eq_comm]
    · next hnone => simp [hne, hnone, Except.map]

end Workspace

end Schemata
