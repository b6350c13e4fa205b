import Schemata.Proofs.Fingerprint.Declarations
import Schemata.Proofs.Scope.Rearrangement

/-!
# Workspaces without places

A workspace in plain form has the same packages, and what a name denotes in it is the plain form of
what it denotes in the workspace itself. Sources link without reports exactly if their plain forms
do.
-/

namespace Schemata

def Symbol.plain (s : Symbol) : Symbol := ⟨s.file, s.decl.plain⟩

def Import.plain (i : Import) : Import := ⟨i.path, i.aliasName.map (·.plain), .nowhere⟩

def FileScope.plain (f : FileScope) : FileScope :=
  ⟨f.file, f.uses.map (·.plain), f.symbols.map (·.plain), f.imports.map (·.plain)⟩

namespace Symbol

@[simp] theorem file_plain (s : Symbol) : s.plain.file = s.file := rfl

@[simp] theorem decl_plain (s : Symbol) : s.plain.decl = s.decl.plain := rfl

@[simp] theorem name_plain (s : Symbol) : s.plain.name = s.name := rfl

/-- Places, and whether indexes are written out, have no part in the id of a type. -/
@[simp] theorem id_plain (s : Symbol) : s.plain.id = s.id :=
  congrArg fingerprint (Stream.typeDecl_eq_of_alike s.package s.decl.alike_plain).symm

end Symbol

@[simp] theorem Import.key_plain (i : Import) : i.plain.key = i.key := aliasKey_plain i.aliasName

@[simp] theorem Import.path_plain (i : Import) : i.plain.path = i.path := rfl

theorem UseDecl.toImport_plain (u : UseDecl) : u.plain.toImport = u.toImport.plain := rfl

namespace FileScope

@[simp] theorem file_plain (f : FileScope) : f.plain.file = f.file := rfl

@[simp] theorem symbols_plain (f : FileScope) : f.plain.symbols = f.symbols.map (·.plain) := rfl

end FileScope

/-- Leaving out places changes no name. -/
def Change.placeless : Change where
  file := FileScope.plain
  symbol := Symbol.plain
  imported := Import.plain
  file_file := FileScope.file_plain
  symbols_file := FileScope.symbols_plain
  imports_file := fun _ => rfl
  name_symbol := Symbol.name_plain
  path_imported := Import.path_plain
  key_imported := Import.key_plain

def Workspace.plain (w : Workspace) : Workspace := ⟨w.files.map (·.plain)⟩

namespace Workspace

variable (w : Workspace)

@[simp] theorem files_plain : w.plain.files = w.files.map (·.plain) := rfl

/-! ## Packages and lookups -/

@[simp] theorem packages_plain : w.plain.packages = w.packages := Change.placeless.packages_on w

theorem filesByPackage_plain : w.plain.filesByPackage = w.filesByPackage.map (·.plain) :=
  Change.placeless.filesByPackage_on w

/-- A reference denotes the plain forms of what it denotes. -/
@[simp] theorem findRef_plain (f : FileScope) (r : TypeRef) :
    w.plain.findRef f.plain r.plain = (w.findRef f r).map (·.plain) :=
  Change.placeless.find_on w f r.name r.qualifier

variable {w}

/-- A reference denotes one type with some property if it does so in plain form. -/
theorem exists_findRef_plain_iff {f : FileScope} {r : TypeRef} {p q : Symbol → Prop}
    (h : ∀ t, p t.plain ↔ q t) :
    (∃ t, w.plain.findRef f.plain r.plain = [t] ∧ p t) ↔ ∃ t, w.findRef f r = [t] ∧ q t := by
  simp only [findRef_plain, List.map_eq_singleton_iff]
  constructor
  · rintro ⟨_, ⟨t, ht, rfl⟩, hp⟩
    exact ⟨t, ht, (h t).1 hp⟩
  · rintro ⟨t, ht, hq⟩
    exact ⟨t.plain, ⟨t, ht, rfl⟩, (h t).2 hq⟩

/-! ## Imports -/

theorem acceptUse_plain_eq_ok_iff {file : FileRef} {accepted : List Import}
    {u : UseDecl} {i : Import} :
    w.plain.acceptUse file (accepted.map (·.plain)) u.plain = .ok i ↔
      ∃ j, w.acceptUse file accepted u = .ok j ∧ j.plain = i := by
  have hsome : u.plain.aliasName.isSome = u.aliasName.isSome := Option.isSome_map
  simp only [acceptUse_eq_ok_iff, hsome, UseDecl.toImport_plain, Import.path_plain,
    Import.key_plain, packages_plain, List.forall_mem_map]
  constructor
  · rintro ⟨halias, hself, hknown, hnew, rfl⟩
    exact ⟨_, ⟨halias, hself, hknown, hnew, rfl⟩, rfl⟩
  · rintro ⟨_, ⟨halias, hself, hknown, hnew, rfl⟩, rfl⟩
    exact ⟨halias, hself, hknown, hnew, rfl⟩

/-- A use that is accepted is so in plain form, and a use that is reported is reported. -/
theorem acceptUses_plain (w : Workspace) (file : FileRef) (accepted : List Import)
    (uses : List UseDecl) :
    (w.plain.acceptUses file (accepted.map (·.plain)) (uses.map (·.plain))).1 =
        (w.acceptUses file accepted uses).1.map (·.plain) ∧
      ((w.plain.acceptUses file (accepted.map (·.plain)) (uses.map (·.plain))).2 = [] ↔
        (w.acceptUses file accepted uses).2 = []) := by
  induction uses generalizing accepted with
  | nil => exact ⟨rfl, Iff.rfl⟩
  | cons u rest ih =>
    rw [List.map_cons, acceptUses, acceptUses]
    cases hu : w.acceptUse file accepted u with
    | ok i =>
      have hplain := acceptUse_plain_eq_ok_iff.2 ⟨i, hu, rfl⟩
      rw [hplain]
      have h := ih (accepted ++ [i])
      rwa [List.map_append] at h
    | error d =>
      cases hplain : w.plain.acceptUse file (accepted.map (·.plain)) u.plain with
      | ok i =>
        obtain ⟨j, hj, -⟩ := acceptUse_plain_eq_ok_iff.1 hplain
        rw [hu] at hj
        cases hj
      | error d' => exact ⟨(ih accepted).1, by simp⟩

/-- The plain imports resolve to the plain form of what the imports resolve to. -/
theorem resolveImports_plain (w : Workspace) :
    w.plain.resolveImports.1 = w.resolveImports.1.plain := by
  have hfile : ∀ f : FileScope, { f.plain with imports := (w.plain.importsOf f.plain).1 } =
      FileScope.plain { f with imports := (w.importsOf f).1 } := by
    intro f
    have himports := (w.acceptUses_plain f.file [] f.uses).1
    exact congrArg (FileScope.mk f.file _ _) himports
  have hfiles : (w.files.map (·.plain)).map
      (fun f => { f with imports := (w.plain.importsOf f).1 }) =
      (w.files.map fun f => { f with imports := (w.importsOf f).1 }).map (·.plain) := by
    rw [List.map_map, List.map_map]
    exact List.map_congr_left fun f _ => hfile f
  exact congrArg Workspace.mk hfiles

theorem resolveImports_plain_eq_nil_iff :
    w.plain.resolveImports.2 = [] ↔ w.resolveImports.2 = [] := by
  simp only [resolveImports, files_plain, List.flatMap_eq_nil_iff, List.forall_mem_map]
  exact forall₂_congr fun f _ => (w.acceptUses_plain f.file [] f.uses).2

/-! ## Cycles and collisions -/

/-- The import relation does not tell where the imports are written. -/
theorem imports_plain : w.plain.Imports = w.Imports := Change.placeless.imports_on w

/-- A plain workspace has a cycle exactly when the written one has. -/
theorem importCycles_plain_eq_nil_iff (hw : w.IsClosed) :
    w.plain.importCycles = [] ↔ w.importCycles = [] := by
  have hplain : w.plain.IsClosed := by
    constructor
    · intro p q h
      rw [imports_plain] at h
      rw [packages_plain]
      exact hw.source h
    · intro p q h
      rw [imports_plain] at h
      rw [packages_plain]
      exact hw.target h
  rw [importCycles_eq_nil_iff hplain, importCycles_eq_nil_iff hw, imports_plain]

theorem broughtIn_plain (w : Workspace) (f : FileScope) :
    w.plain.broughtIn f.plain = (w.broughtIn f).map (Prod.map (·.plain) (·.plain)) :=
  Change.placeless.broughtIn_on w f

/-- Names collide in the plain workspace exactly where they collide in the written one. -/
theorem collisions_plain_eq_nil_iff {f : FileScope} :
    w.plain.collisions f.plain = [] ↔ w.collisions f = [] := by
  have hnames : (w.plain.broughtIn f.plain).map nameBroughtIn =
      (w.broughtIn f).map nameBroughtIn := by
    rw [broughtIn_plain, List.map_map]
    rfl
  have hforeign : (∀ b ∈ w.plain.broughtIn f.plain, f.plain.symbol? (nameBroughtIn b) = none) ↔
      ∀ b ∈ w.broughtIn f, f.symbol? (nameBroughtIn b) = none := by
    have hsymbol : ∀ name, f.plain.symbol? name = (f.symbol? name).map (·.plain) :=
      Change.placeless.symbol?_file f
    simp only [broughtIn_plain, List.forall_mem_map, hsymbol, Option.map_eq_none_iff]
    exact Iff.rfl
  rw [collisions_eq_nil_iff, collisions_eq_nil_iff]
  constructor
  · rintro ⟨hnodup, hown⟩
    exact ⟨hnames ▸ hnodup, hforeign.1 hown⟩
  · rintro ⟨hnodup, hown⟩
    exact ⟨hnames ▸ hnodup, hforeign.2 hown⟩

/-! ## Linking -/

theorem arrange_plain (sources : List SourceFile) :
    arrange (sources.map (·.plain)) = (arrange sources).map (·.plain) := by
  have hcanonical : (sources.map (·.plain)).map (·.canonical) =
      (sources.map (·.canonical)).map (·.plain) := by
    rw [List.map_map, List.map_map]
    rfl
  rw [arrange, arrange, hcanonical]
  exact (List.map_mergeSort (f := SourceFile.plain) (s := fun a b => a.file.le b.file)
    fun _ _ _ _ => rfl).symm

theorem symbols_arrange_plain (sources : List SourceFile) :
    (arrange (sources.map (·.plain))).flatMap (·.symbols) =
      ((arrange sources).flatMap (·.symbols)).map (·.plain) := by
  have hsymbols : ∀ s : SourceFile, s.plain.symbols = s.symbols.map (·.plain) := by
    intro s
    rw [SourceFile.symbols, SourceFile.symbols, SourceFile.plain, List.map_map, List.map_map]
    rfl
  simp only [arrange_plain, List.flatMap_map, List.map_flatMap, hsymbols]

theorem plain_bareScope (kept : List Symbol) (sources : List SourceFile) :
    (sources.map (·.plain)).map (bareScope (kept.map (·.plain))) =
      (sources.map (bareScope kept)).map (·.plain) := by
  rw [List.map_map, List.map_map]
  refine List.map_congr_left fun s _ => ?_
  rw [Function.comp_apply, Function.comp_apply, bareScope, List.filter_map]
  rfl

/-- Files are put together without reports exactly if their plain forms are. -/
theorem assemble_plain_eq_ok_nil_iff {sources : List SourceFile} :
    assemble (sources.map (·.plain)) = .ok (w, []) ↔
      ∃ v, assemble sources = .ok (v, []) ∧ v.plain = w := by
  have hrepeated : SourceFile.repeated? (arrange (sources.map (·.plain))) =
      SourceFile.repeated? (arrange sources) := by
    refine SourceFile.repeated?_eq_of_map_file ?_
    rw [arrange_plain, List.map_map]
    rfl
  have hkeys : (((arrange sources).flatMap (·.symbols)).map (·.plain)).map symbolKey =
      ((arrange sources).flatMap (·.symbols)).map symbolKey := by
    rw [List.map_map]
    rfl
  have hfirsts : firsts symbolKey (((arrange sources).flatMap (·.symbols)).map (·.plain)) =
      (firsts symbolKey ((arrange sources).flatMap (·.symbols))).map (·.plain) := firsts_map _ _ _
  simp only [assemble_eq_ok_iff, ne_eq, List.map_eq_nil_iff, hrepeated, symbols_arrange_plain,
    List.nil_eq, repeats_eq_nil_iff, hkeys, hfirsts]
  rw [arrange_plain, plain_bareScope]
  constructor
  · rintro ⟨hne, hnone, rfl, hnodup⟩
    exact ⟨_, ⟨hne, hnone, rfl, hnodup⟩, rfl⟩
  · rintro ⟨_, ⟨hne, hnone, rfl, hnodup⟩, rfl⟩
    exact ⟨hne, hnone, rfl, hnodup⟩

/-- The plain forms of sources link without reports exactly if the sources do, to the plain form of
what these link to. -/
theorem link_plain_eq_ok_nil_iff {sources : List SourceFile} :
    link (sources.map (·.plain)) = .ok (w, []) ↔ ∃ v, link sources = .ok (v, []) ∧ v.plain = w := by
  have hclosed : ∀ {a : Workspace}, assemble sources = .ok (a, []) → a.resolveImports.1.IsClosed :=
    fun ha => isClosed_of_link (link_eq_ok_iff.2 ⟨_, [], ha, rfl, rfl⟩)
  simp only [link_eq_ok_nil_iff, assemble_plain_eq_ok_nil_iff]
  constructor
  · rintro ⟨_, ⟨a, ha, rfl⟩, huses, rfl, hcycles, hcollisions⟩
    rw [resolveImports_plain] at hcycles hcollisions ⊢
    rw [files_plain, List.forall_mem_map] at hcollisions
    exact ⟨_, ⟨a, ha, resolveImports_plain_eq_nil_iff.1 huses, rfl,
      (importCycles_plain_eq_nil_iff (hclosed ha)).1 hcycles,
      fun f hf => collisions_plain_eq_nil_iff.1 (hcollisions f hf)⟩, rfl⟩
  · rintro ⟨_, ⟨a, ha, huses, rfl, hcycles, hcollisions⟩, rfl⟩
    refine ⟨_, ⟨a, ha, rfl⟩, resolveImports_plain_eq_nil_iff.2 huses, (resolveImports_plain a).symm,
      (importCycles_plain_eq_nil_iff (hclosed ha)).2 hcycles, ?_⟩
    rw [files_plain, List.forall_mem_map]
    exact fun f hf => collisions_plain_eq_nil_iff.2 (hcollisions f hf)

end Workspace

end Schemata
