import Schemata.Proofs.Scope.Link

/-!
# Sources in another order and spelling

What is linked does not depend on the order of the sources, nor on how they spell paths.
-/

/-!
## Changes within files

A change within files may leave every file in its package, every declaration its name, and all
imports their packages and aliases. Then it changes nothing about where names lead: what a name
denotes afterwards is the changed form of what it denoted before.
-/

namespace Schemata

/-- A change within files that leaves all names where they are. -/
structure Change where
  file : FileScope → FileScope
  symbol : Symbol → Symbol
  imported : Import → Import
  file_file : ∀ f, (file f).file = f.file
  symbols_file : ∀ f, (file f).symbols = f.symbols.map symbol
  imports_file : ∀ f, (file f).imports = f.imports.map imported
  name_symbol : ∀ s, (symbol s).name = s.name
  path_imported : ∀ i, (imported i).path = i.path
  key_imported : ∀ i, (imported i).key = i.key

namespace Change

/-- The workspace with every file changed. -/
def on (c : Change) (w : Workspace) : Workspace := ⟨w.files.map c.file⟩

variable (c : Change) (w : Workspace) (f : FileScope)

/-! ### Files -/

/-- A changed file finds the changed types by the same names. -/
theorem symbol?_file (name : String) : (c.file f).symbol? name = (f.symbol? name).map c.symbol := by
  rw [FileScope.symbol?, c.symbols_file, List.find?_map, FileScope.symbol?]
  simp only [Function.comp_def, c.name_symbol]

theorem importsAs_file (key : String) :
    (c.file f).importsAs key = (f.importsAs key).map c.imported := by
  rw [FileScope.importsAs, c.imports_file, List.filter_map, FileScope.importsAs]
  simp only [Function.comp_def, c.key_imported]

/-- A qualifier names the changed imports. -/
theorem importsFor_file (qualifier : Option String) :
    Workspace.importsFor (c.file f) qualifier = (Workspace.importsFor f qualifier).map c.imported :=
  c.importsAs_file f _

/-! ### Packages -/

/-- A change adds no package and takes none away. -/
theorem packages_on : (c.on w).packages = w.packages := Workspace.packages_map c.file_file w

/-- The files of a package are the changed ones. -/
theorem filesOf_on (p : String) : (c.on w).filesOf p = (w.filesOf p).map c.file :=
  Workspace.filesOf_map c.file_file w p

theorem filesByPackage_on : (c.on w).filesByPackage = w.filesByPackage.map c.file :=
  Workspace.filesByPackage_map c.file_file w

theorem symbolsOf_on (p : String) : (c.on w).symbolsOf p = (w.symbolsOf p).map c.symbol := by
  simp only [Workspace.symbolsOf, c.filesOf_on, List.flatMap_map, c.symbols_file, List.map_flatMap]

/-- A lookup in a package finds the changed type. -/
theorem symbolOf?_on (p name : String) :
    (c.on w).symbolOf? p name = (w.symbolOf? p name).map c.symbol := by
  rw [Workspace.symbolOf?, c.symbolsOf_on, List.find?_map, Workspace.symbolOf?]
  simp only [Function.comp_def, c.name_symbol]

/-- Which packages import which stays as it is. -/
theorem imports_on : (c.on w).Imports = w.Imports := by
  funext p q
  simp [Workspace.Imports, on, c.file_file, c.imports_file, c.path_imported]

/-! ### Lookups -/

/-- A name denotes the changed forms of what it denoted. -/
theorem find_on (name : String) (qualifier : Option String) :
    (c.on w).find (c.file f) name qualifier = (w.find f name qualifier).map c.symbol := by
  have hown : (if Workspace.isUnqualified qualifier then (c.file f).symbol? name else none) =
      (if Workspace.isUnqualified qualifier then f.symbol? name else none).map c.symbol := by
    split
    · exact c.symbol?_file f name
    · rfl
  rw [Workspace.find, hown, Workspace.find]
  cases if Workspace.isUnqualified qualifier then f.symbol? name else none with
  | some s => rfl
  | none =>
    simp only [Option.map_none, c.importsFor_file, List.filterMap_map, List.map_filterMap,
      Function.comp_def, c.path_imported, c.symbolOf?_on]

/-- The names in reach of a file stay what they are. -/
theorem visibleNames_on (qualifier : Option String) :
    (c.on w).visibleNames (c.file f) qualifier = w.visibleNames f qualifier := by
  simp only [Workspace.visibleNames, c.symbols_file, c.importsFor_file,
    c.symbolsOf_on, List.map_map, List.flatMap_map, Function.comp_def, c.name_symbol,
    c.path_imported]

/-- The imports bring the changed types in. -/
theorem broughtIn_on : (c.on w).broughtIn (c.file f) =
    (w.broughtIn f).map (Prod.map c.imported c.symbol) := by
  simp only [Workspace.broughtIn, c.importsAs_file, c.path_imported, c.symbolsOf_on,
    List.flatMap_map, List.map_flatMap, List.map_map, Function.comp_def, Prod.map_apply]

end Change

/-!
## Spellings of paths

A file keeps its uses as they are written, and a path can be written in several ways. Resolving
imports looks at the canonical spelling of a path, and nothing else looks at the uses at all.
-/

def UseDecl.normal (u : UseDecl) : UseDecl := { u with path := Path.normalize u.path }

def FileScope.normal (f : FileScope) : FileScope := { f with uses := f.uses.map (·.normal) }

@[simp] theorem FileScope.file_normal (f : FileScope) : f.normal.file = f.file := rfl

@[simp] theorem FileScope.symbols_normal (f : FileScope) : f.normal.symbols = f.symbols := rfl

/-- Spelling the uses in another way changes no declaration and no import. -/
def Change.spelling : Change where
  file := FileScope.normal
  symbol := id
  imported := id
  file_file := fun _ => rfl
  symbols_file := fun f => f.symbols.map_id.symm
  imports_file := fun f => f.imports.map_id.symm
  name_symbol := fun _ => rfl
  path_imported := fun _ => rfl
  key_imported := fun _ => rfl

namespace Workspace

/-- The workspace with the canonical spelling of all uses. -/
def normal (w : Workspace) : Workspace := ⟨w.files.map (·.normal)⟩

variable (w : Workspace)

@[simp] theorem files_normal : w.normal.files = w.files.map (·.normal) := rfl

/-! ### Packages and lookups -/

theorem packages_normal : w.normal.packages = w.packages := Change.spelling.packages_on w

theorem filesByPackage_normal : w.normal.filesByPackage = w.filesByPackage.map (·.normal) :=
  Change.spelling.filesByPackage_on w

/-- A reference finds the same types, however the imports are spelled. -/
theorem findRef_normal (f : FileScope) (r : TypeRef) :
    w.normal.findRef f.normal r = w.findRef f r :=
  (Change.spelling.find_on w f r.name r.qualifier).trans (List.map_id _)

theorem visibleNames_normal (f : FileScope) (qualifier : Option String) :
    w.normal.visibleNames f.normal qualifier = w.visibleNames f qualifier :=
  Change.spelling.visibleNames_on w f qualifier

/-! ### Imports -/

theorem acceptUse_normal (file : FileRef) (accepted : List Import) (u : UseDecl) :
    w.normal.acceptUse file accepted u.normal = w.acceptUse file accepted u := by
  simp only [acceptUse, UseDecl.normal, Path.normalize_normalize, packages_normal, importable]

/-- The imports of a file are accepted or refused however they are spelled. -/
theorem acceptUses_normal (file : FileRef) (accepted : List Import) (uses : List UseDecl) :
    w.normal.acceptUses file accepted (uses.map (·.normal)) = w.acceptUses file accepted uses := by
  induction uses generalizing accepted with
  | nil => rfl
  | cons u uses ih =>
    rw [List.map_cons, acceptUses, acceptUses, acceptUse_normal]
    cases w.acceptUse file accepted u with
    | ok i => exact ih (accepted ++ [i])
    | error d => simp only [ih accepted]

@[simp] theorem importsOf_normal (f : FileScope) : w.normal.importsOf f.normal = w.importsOf f :=
  w.acceptUses_normal f.file [] f.uses

/-- Resolving the imports does not depend on the spelling of uses. -/
theorem resolveImports_normal :
    w.normal.resolveImports = (w.resolveImports.1.normal, w.resolveImports.2) := by
  have hreports : w.normal.resolveImports.2 = w.resolveImports.2 := by
    simp only [resolveImports, files_normal, List.flatMap_map, importsOf_normal]
  have hworkspace : w.normal.resolveImports.1 = w.resolveImports.1.normal := by
    refine congrArg Workspace.mk ?_
    simp only [resolveImports, files_normal, List.map_map]
    apply List.map_congr_left
    intro f hf
    simp only [Function.comp_apply, importsOf_normal]
    rfl
  exact Prod.ext hworkspace hreports

/-! ### Cycles and collisions -/

theorem edgesFrom_normal : w.normal.edgesFrom = w.edgesFrom := by
  funext p
  have hfiles : w.normal.filesOf p = (w.filesOf p).map (·.normal) := Change.spelling.filesOf_on w p
  rw [edgesFrom, hfiles, List.flatMap_map]
  rfl

theorem searchFrom_normal (steps : Nat) : w.normal.searchFrom steps = w.searchFrom steps := by
  induction steps with
  | zero => rfl
  | succ steps ih =>
    funext trail p s
    simp only [searchFrom, edgesFrom_normal, ih]

/-- The cycles found are the same. -/
theorem importCycles_normal : w.normal.importCycles = w.importCycles := by
  simp only [importCycles, packages_normal, searchFrom_normal]

theorem cycleReport?_normal : w.normal.cycleReport? = w.cycleReport? := by
  funext c
  rw [cycleReport?, files_normal, List.find?_map, Option.bind_eq_bind, Option.bind_map]
  rfl

theorem broughtIn_normal (f : FileScope) : w.normal.broughtIn f.normal = w.broughtIn f :=
  (Change.spelling.broughtIn_on w f).trans (List.map_id _)

theorem collisionsAfter_normal (f : FileScope) (seen l : List (Import × Symbol)) :
    collisionsAfter f.normal seen l = collisionsAfter f seen l := by
  induction l generalizing seen with
  | nil => rfl
  | cons a l ih =>
    rw [collisionsAfter, collisionsAfter, ih]
    rfl

/-- The collisions reported are the same. -/
theorem collisions_normal (f : FileScope) : w.normal.collisions f.normal = w.collisions f := by
  rw [collisions, broughtIn_normal, collisionsAfter_normal, collisions]

end Workspace

/-!
## The order of sources

Sources are sorted by their paths in the canonical spelling before anything else is done with them,
and a file may come only once. So neither the order in which they are given nor the spelling of
paths has an effect on what is linked.
-/

/-- Whether two uses differ in nothing but the spelling of their path. -/
structure UseDecl.Respelled (u v : UseDecl) : Prop where
  path : Path.normalize u.path = Path.normalize v.path
  aliasName : u.aliasName = v.aliasName
  span : u.span = v.span

theorem UseDecl.Respelled.normal_eq {u v : UseDecl} (h : u.Respelled v) : u.normal = v.normal := by
  obtain ⟨path, aliasName, span⟩ := u
  obtain ⟨path', aliasName', span'⟩ := v
  obtain ⟨hpath, rfl, rfl⟩ := h
  exact congrArg (UseDecl.mk · aliasName span) hpath

namespace SourceFile

/-- Whether two sources differ in nothing but the spelling of paths: of their package, and in their
uses. -/
structure Respelled (s t : SourceFile) : Prop where
  package : Path.normalize s.file.path = Path.normalize t.file.path
  name : s.file.name = t.file.name
  uses : List.Forall₂ UseDecl.Respelled s.uses t.uses
  types : s.types = t.types

/-- Whether sources are some others in any order, with any spelling of paths. -/
def Rearranged (sources sources' : List SourceFile) : Prop :=
  ∃ reordered, sources.Perm reordered ∧ List.Forall₂ Respelled reordered sources'

/-- The file with the canonical spelling of all paths. -/
def normal (s : SourceFile) : SourceFile := { s.canonical with uses := s.uses.map (·.normal) }

/-- Respelled files have the same normal form. -/
theorem Respelled.normal_eq {s t : SourceFile} (h : s.Respelled t) : s.normal = t.normal := by
  obtain ⟨⟨path, name⟩, uses, types⟩ := s
  obtain ⟨⟨path', name'⟩, uses', types'⟩ := t
  obtain ⟨hpath, rfl, huses, rfl⟩ := h
  have huses : uses.map (·.normal) = uses'.map (·.normal) :=
    map_eq_of_forall₂ (huses.imp fun _ _ h => h.normal_eq)
  simp only at hpath
  simp only [normal, canonical, huses, hpath]

/-- Rearranged sources have the same canonical spelling, up to their order. -/
theorem Rearranged.perm {a b : List SourceFile} (h : Rearranged a b) :
    (a.map (·.normal)).Perm (b.map (·.normal)) := by
  obtain ⟨reordered, hperm, hrespelled⟩ := h
  rw [← map_eq_of_forall₂ (hrespelled.imp fun _ _ h => h.normal_eq)]
  exact hperm.map _

theorem normal_canonical (s : SourceFile) : s.canonical.normal = s.normal := by
  simp only [normal, canonical, Path.normalize_normalize]

/-- Which file comes twice depends on the files only. -/
theorem repeated?_eq_of_map_file {l l' : List SourceFile} (h : l.map (·.file) = l'.map (·.file)) :
    repeated? l = repeated? l' := by
  induction l generalizing l' with
  | nil => rw [List.map_eq_nil_iff.1 h.symm]
  | cons a l ih =>
    obtain ⟨a', l', rfl, ha, hl⟩ := List.map_eq_cons_iff.1 h.symm
    have hrest := ih hl.symm
    cases l with
    | nil =>
      rw [List.map_eq_nil_iff.1 hl]
      rfl
    | cons b l =>
      obtain ⟨b', l', rfl, hb, -⟩ := List.map_eq_cons_iff.1 hl
      rw [repeated?, repeated?, ha, hb, hrest]

end SourceFile

namespace Workspace

open SourceFile (Rearranged)

variable {a b : List SourceFile}

theorem map_normal_arrange (sources : List SourceFile) : (arrange sources).map (·.normal) =
    (sources.map (·.normal)).mergeSort fun a b => a.file.le b.file := by
  rw [arrange, List.map_mergeSort, List.map_map]
  · exact congrArg (List.mergeSort · _) (List.map_congr_left fun s _ => s.normal_canonical)
  · intro s hs t ht
    obtain ⟨s, -, rfl⟩ := List.mem_map.1 hs
    obtain ⟨t, -, rfl⟩ := List.mem_map.1 ht
    rw [SourceFile.normal_canonical, SourceFile.normal_canonical]
    rfl

theorem map_file_arrange (sources : List SourceFile) : (arrange sources).map (·.file) =
    ((sources.map (·.normal)).map (·.file)).mergeSort FileRef.le := by
  rw [arrange, List.map_mergeSort (s := FileRef.le) fun _ _ _ _ => rfl, List.map_map, List.map_map]
  rfl

/-- Rearranged sources are arranged to the same names and paths. -/
theorem map_file_arrange_of_rearranged (h : Rearranged a b) :
    (arrange a).map (·.file) = (arrange b).map (·.file) := by
  rw [map_file_arrange, map_file_arrange]
  refine mergeSort_eq_of_perm ?_ ?_ ?_ (h.perm.map _)
  · exact fun _ _ _ => FileRef.le_trans
  · exact FileRef.le_or_le
  · exact fun _ _ _ _ => FileRef.le_antisymm

/-- Files that are there once each stand in one order. -/
theorem map_normal_arrange_of_rearranged (h : Rearranged a b)
    (hnodup : SourceFile.repeated? (arrange a) = none) :
    (arrange a).map (·.normal) = (arrange b).map (·.normal) := by
  rw [map_normal_arrange, map_normal_arrange]
  refine mergeSort_eq_of_perm ?_ ?_ ?_ h.perm
  · exact fun _ _ _ => FileRef.le_trans
  · exact fun s t => FileRef.le_or_le s.file t.file
  · intro s hs t ht hst hts
    have hfiles := SourceFile.nodup_of_repeated?_eq_none (pairwise_arrange a) hnodup
    rw [map_file_arrange, (List.mergeSort_perm _ _).nodup_iff] at hfiles
    exact List.inj_on_of_nodup_map hfiles hs (h.perm.mem_iff.2 ht) (FileRef.le_antisymm hst hts)

/-! ### Workspaces of rearranged sources -/

theorem map_normal_bareScope (kept : List Symbol) (sources : List SourceFile) :
    ((arrange sources).map (bareScope kept)).map (·.normal) =
      ((arrange sources).map (·.normal)).map (bareScope kept) := by
  rw [List.map_map, List.map_map]
  apply List.map_congr_left
  intro s hs
  rw [Function.comp_apply, Function.comp_apply, SourceFile.normal, canonical_of_mem_arrange hs]
  rfl

theorem flatMap_symbols_normal (sources : List SourceFile) :
    ((arrange sources).map (·.normal)).flatMap (·.symbols) =
      (arrange sources).flatMap (·.symbols) := by
  rw [List.flatMap_map]
  apply List.flatMap_congr
  intro s hs
  rw [SourceFile.normal, canonical_of_mem_arrange hs]
  rfl

/-- What is put together does not depend on the order of sources, nor on the spelling of paths. -/
theorem assemble_of_rearranged (h : Rearranged a b) :
    (assemble a).map (Prod.map normal id) = (assemble b).map (Prod.map normal id) := by
  have hempty : a = [] ↔ b = [] := by
    have hlength := h.perm.length_eq
    rw [List.length_map, List.length_map] at hlength
    rw [← List.length_eq_zero_iff, hlength, List.length_eq_zero_iff]
  have hrepeated : SourceFile.repeated? (arrange a) = SourceFile.repeated? (arrange b) :=
    SourceFile.repeated?_eq_of_map_file (map_file_arrange_of_rearranged h)
  cases ha : assemble a with
  | error e =>
    rw [assemble_eq_error_iff, hempty, hrepeated, ne_eq, hempty, ← ne_eq,
      ← assemble_eq_error_iff] at ha
    rw [ha]
  | ok p =>
    obtain ⟨w, ds⟩ := p
    obtain ⟨hne, hnone, rfl, rfl⟩ := assemble_eq_ok_iff.1 ha
    have hb := assemble_eq_ok_iff.2 ⟨mt hempty.2 hne, hrepeated ▸ hnone, rfl, rfl⟩
    have hnormal := map_normal_arrange_of_rearranged h hnone
    have hsymbols : (arrange a).flatMap (·.symbols) = (arrange b).flatMap (·.symbols) := by
      rw [← flatMap_symbols_normal, ← flatMap_symbols_normal, hnormal]
    have hfiles : ∀ kept, Workspace.normal ⟨(arrange a).map (bareScope kept)⟩ =
        Workspace.normal ⟨(arrange b).map (bareScope kept)⟩ := by
      intro kept
      refine congrArg Workspace.mk ?_
      rw [map_normal_bareScope, map_normal_bareScope, hnormal]
    rw [hb, hsymbols]
    simp only [Except.map, Prod.map_apply, hfiles]

/-- Linking once the files are put together. -/
def linkAssembled (p : Workspace × List Diagnostic) : Workspace × List Diagnostic :=
  let w := p.1.resolveImports.1
  (w, p.2 ++ p.1.resolveImports.2 ++ w.importCycles.filterMap w.cycleReport? ++
    w.files.flatMap w.collisions)

/-- Linking is assembly and then what is done with an assembled workspace. -/
theorem link_eq_map (sources : List SourceFile) :
    link sources = (assemble sources).map linkAssembled := by
  rw [link]
  cases assemble sources with
  | error e => rfl
  | ok p => rfl

/-- Linking commutes with the normal form. -/
theorem linkAssembled_normal (p : Workspace × List Diagnostic) :
    linkAssembled (p.map normal id) = (linkAssembled p).map normal id := by
  obtain ⟨w, ds⟩ := p
  simp only [linkAssembled, Prod.map_apply, id, resolveImports_normal, importCycles_normal,
    cycleReport?_normal, files_normal, List.flatMap_map, collisions_normal]

/-- What is linked does not depend on the order of sources, nor on the spelling of paths. -/
theorem link_of_rearranged (h : Rearranged a b) :
    (link a).map (Prod.map normal id) = (link b).map (Prod.map normal id) := by
  have hlink : ∀ sources, (link sources).map (Prod.map normal id) =
      ((assemble sources).map (Prod.map normal id)).map linkAssembled := by
    intro sources
    rw [link_eq_map]
    cases assemble sources with
    | error e => rfl
    | ok p => exact congrArg Except.ok (linkAssembled_normal p).symm
  rw [hlink, hlink, assemble_of_rearranged h]

/-- Linking fails where there are no files, or where one comes twice. -/
theorem eq_of_link_eq_error {sources : List SourceFile} {e : Error} (h : link sources = .error e) :
    e = .noSources ∨ ∃ path, e = .duplicateFile path := by
  have hassemble : assemble sources = .error e := by
    rw [link_eq_map] at h
    cases ha : assemble sources with
    | error e' =>
      rw [ha] at h
      exact congrArg Except.error (Except.error.inj h)
    | ok p =>
      rw [ha] at h
      cases h
  rcases assemble_eq_error_iff.1 hassemble with ⟨-, rfl⟩ | ⟨-, file, -, rfl⟩
  · exact .inl rfl
  · exact .inr ⟨_, rfl⟩

end Workspace

end Schemata
