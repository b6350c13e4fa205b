import Mathlib.Data.List.Flatten
import Schemata.Proofs.Scope.Link

/-!
# Names that are visible

A name denotes a type in a file exactly if it is one of the names that are visible there. In a
workspace in order a name denotes each type once, and it is ambiguous at most if it comes without an
alias, or with the alias of imports that have none.
-/

namespace Schemata.Workspace

variable {w : Workspace} {f : FileScope} {s t : Symbol} {package name : String}
  {qualifier : Option String}

/-! ## Types of packages -/

/-- A type is of a package when it is in a file of it. -/
theorem mem_symbolsOf_iff : s ∈ w.symbolsOf package ↔ ∃ f ∈ w.files, f.file.path = package ∧
    s ∈ f.symbols := by
  simp only [symbolsOf, filesOf, List.mem_flatMap, List.mem_filter, beq_iff_eq, and_assoc]

theorem mem_symbols_of_mem_symbolsOf (hs : s ∈ w.symbolsOf package) : s ∈ w.symbols := by
  obtain ⟨f, hf, -, hs⟩ := mem_symbolsOf_iff.1 hs
  exact List.mem_flatMap.2 ⟨f, hf, hs⟩

/-- A name is found in a package when some type there bears it. -/
theorem isSome_symbolOf?_iff :
    (w.symbolOf? package name).isSome ↔ name ∈ (w.symbolsOf package).map (·.name) := by
  rw [symbolOf?, List.find?_isSome, List.mem_map]
  simp only [beq_iff_eq]

/-! ## Lookups -/

/-- The types that the imports of a file bring in for a name. -/
def imported (w : Workspace) (f : FileScope) (name : String)
    (qualifier : Option String) : List Symbol :=
  (importsFor f qualifier).filterMap fun i => w.symbolOf? i.path name

/-- A plain name is the one of the file itself, and an imported one only without it. -/
theorem find_of_isUnqualified (hplain : isUnqualified qualifier) :
    w.find f name qualifier = (f.symbol? name).elim (w.imported f name qualifier) fun s => [s] := by
  rw [find, if_pos hplain]
  cases f.symbol? name <;> rfl

/-- A qualified name is always an imported one. -/
theorem find_of_not_isUnqualified (hplain : ¬isUnqualified qualifier) :
    w.find f name qualifier = w.imported f name qualifier := by
  rw [find, if_neg hplain]
  rfl

/-- What a lookup finds is one type of the file itself, or what the imports bring in. -/
theorem find_cases (w : Workspace) (f : FileScope) (name : String) (qualifier : Option String) :
    (isUnqualified qualifier ∧ ∃ s, f.symbol? name = some s ∧ w.find f name qualifier = [s]) ∨
      ((isUnqualified qualifier → f.symbol? name = none) ∧
        w.find f name qualifier = w.imported f name qualifier) := by
  by_cases hplain : isUnqualified qualifier
  · rw [find_of_isUnqualified hplain]
    cases hown : f.symbol? name with
    | some s => exact .inl ⟨hplain, s, rfl, rfl⟩
    | none => exact .inr ⟨fun _ => rfl, rfl⟩
  · exact .inr ⟨fun h => absurd h hplain, find_of_not_isUnqualified hplain⟩

/-- What the imports of a file bring in for a name has this name and comes from a package that one
of them is of. -/
theorem mem_imported_iff : s ∈ w.imported f name qualifier ↔
    ∃ i ∈ importsFor f qualifier, w.symbolOf? i.path name = some s := List.mem_filterMap

theorem imported_ne_nil_iff : w.imported f name qualifier ≠ [] ↔
    name ∈ (importsFor f qualifier).flatMap fun i => (w.symbolsOf i.path).map (·.name) := by
  rw [imported, ne_eq, List.filterMap_eq_nil_iff, List.mem_flatMap]
  simp only [← isSome_symbolOf?_iff, not_forall, Option.isSome_iff_ne_none, ne_eq, exists_prop]

theorem isSome_symbol?_iff : (f.symbol? name).isSome ↔ name ∈ f.symbols.map (·.name) := by
  rw [FileScope.symbol?, List.find?_isSome, List.mem_map]
  simp only [beq_iff_eq]

/-- A name denotes something exactly if it is visible. -/
theorem find_ne_nil_iff : w.find f name qualifier ≠ [] ↔ name ∈ w.visibleNames f qualifier := by
  rw [visibleNames, List.mem_append, ← imported_ne_nil_iff]
  by_cases hplain : isUnqualified qualifier
  · rw [if_pos hplain, ← isSome_symbol?_iff, find_of_isUnqualified hplain]
    cases f.symbol? name <;> simp
  · rw [if_neg hplain, find_of_not_isUnqualified hplain]
    simp

/-- What a name denotes is a type of this name. -/
theorem mem_of_mem_find (hf : f ∈ w.files) (hs : s ∈ w.find f name qualifier) :
    s ∈ w.symbols ∧ s.name = name := by
  rcases w.find_cases f name qualifier with ⟨-, own, hown, e⟩ | ⟨-, e⟩
  · rw [e, List.mem_singleton] at hs
    subst hs
    obtain ⟨hmem, hname⟩ := key_of_find?_eq_some hown
    exact ⟨List.mem_flatMap.2 ⟨f, hf, hmem⟩, hname⟩
  · rw [e, mem_imported_iff] at hs
    obtain ⟨i, -, hs⟩ := hs
    obtain ⟨hmem, hname⟩ := key_of_find?_eq_some hs
    exact ⟨mem_symbols_of_mem_symbolsOf hmem, hname⟩

/-! ## Workspaces in order -/

/-- A workspace of different files with types that differ in package or name, and imports that hold
good. -/
structure IsOrderly (w : Workspace) : Prop where
  nodup_files : (w.files.map (·.file)).Nodup
  nodup_keys : (w.symbols.map symbolKey).Nodup
  file_eq : ∀ f ∈ w.files, ∀ s ∈ f.symbols, s.file = f.file
  imports : ∀ f ∈ w.files, f.ImportsHold w

/-- Linking puts a workspace in order, whatever it reports. -/
theorem isOrderly_of_link {sources : List SourceFile} {ds : List Diagnostic}
    (h : link sources = .ok (w, ds)) : w.IsOrderly := by
  obtain ⟨a, doubles, ha, rfl, -⟩ := link_eq_ok_iff.1 h
  have hsymbols : a.resolveImports.1.symbols = a.symbols := by
    simp only [symbols, resolveImports, List.flatMap_map]
  constructor
  case nodup_files =>
    rw [resolveImports, List.map_map]
    exact nodup_files_of_assemble ha
  case nodup_keys =>
    rw [hsymbols, symbols_of_assemble ha]
    exact nodup_map_firsts _ _
  case file_eq =>
    intro g hg s hs
    obtain ⟨f, hf, rfl⟩ := List.mem_map.1 hg
    have hs : s ∈ f.symbols := hs
    rw [fileSymbols_of_assemble ha hf] at hs
    exact eq_of_beq (List.mem_filter.1 hs).2
  case imports =>
    intro g hg
    obtain ⟨f, hf, rfl⟩ := List.mem_map.1 hg
    have hhold := (resolved_of_mem_files (nodup_files_of_assemble ha) hf).hold
    exact { hhold with known := (packages_resolveImports a).symm ▸ hhold.known }

namespace IsOrderly

variable (hw : w.IsOrderly)

include hw

/-- Types that count as one are one. -/
theorem isSame_eq_false_iff {s t : Symbol} (hs : s ∈ w.symbols) (ht : t ∈ w.symbols) :
    s.isSame t = false ↔ s ≠ t := by
  rw [← Bool.not_eq_true, not_iff_not, Symbol.isSame, Bool.and_eq_true, beq_iff_eq, beq_iff_eq]
  constructor
  · rintro ⟨hfile, hname⟩
    apply List.inj_on_of_nodup_map hw.nodup_keys hs ht
    rw [symbolKey, symbolKey, Symbol.package, Symbol.package, hfile, hname]
  · rintro rfl
    exact ⟨rfl, rfl⟩

theorem package_eq (hs : s ∈ w.symbolsOf package) : s.package = package := by
  obtain ⟨f, hf, rfl, hsf⟩ := mem_symbolsOf_iff.1 hs
  rw [Symbol.package, hw.file_eq f hf s hsf]

/-- The types of a package have different names. -/
theorem nodup_names (package : String) : ((w.symbolsOf package).map (·.name)).Nodup := by
  have hsub : (w.symbolsOf package).Sublist w.symbols := List.filter_sublist.flatMap _
  refine nodup_map_of_imp (hw.nodup_keys.sublist (hsub.map _)) fun s hs t ht hname => ?_
  rw [symbolKey, symbolKey, hw.package_eq hs, hw.package_eq ht, hname]

/-- Without repeated names a lookup finds exactly the types that bear the name. -/
theorem symbolOf?_eq_some_iff :
    w.symbolOf? package name = some s ↔ s ∈ w.symbolsOf package ∧ s.name = name := by
  refine ⟨fun h => key_of_find?_eq_some h, ?_⟩
  rintro ⟨hs, rfl⟩
  exact find?_key_eq_self (hw.nodup_names package) hs

/-- A type that a file declares is the one of its name there. -/
theorem symbol?_eq_some (hf : f ∈ w.files) (hs : s ∈ f.symbols) : f.symbol? s.name = some s := by
  have hsub : f.symbols.Sublist w.symbols := by
    have h := (List.singleton_sublist.2 hf).flatMap (·.symbols)
    rwa [List.flatMap_singleton] at h
  have hnodup : (f.symbols.map (·.name)).Nodup :=
    nodup_map_of_imp (hw.nodup_keys.sublist (hsub.map _)) fun s hs t ht hname => by
      rw [symbolKey, symbolKey, Symbol.package, Symbol.package, hw.file_eq f hf s hs,
        hw.file_eq f hf t ht, hname]
  exact find?_key_eq_self hnodup hs

/-- Imports that go by one alias are of different packages. -/
theorem nodup_paths (hf : f ∈ w.files) (key : String) : ((f.importsAs key).map (·.path)).Nodup :=
  (hw.imports f hf).nodup_paths.sublist (List.filter_sublist.map _)

/-- A name denotes no type twice. -/
theorem pairwise_find (hf : f ∈ w.files) :
    (w.find f name qualifier).Pairwise fun s t => s.isSame t = false := by
  rcases w.find_cases f name qualifier with ⟨-, own, -, e⟩ | ⟨-, e⟩
  · rw [e]
    exact List.pairwise_singleton _ _
  · rw [e, imported, List.pairwise_filterMap]
    refine (List.pairwise_map.1 (hw.nodup_paths hf _)).imp fun {i j} hne s hs t ht => ?_
    have hpackage : s.package ≠ t.package := by
      rw [hw.package_eq (hw.symbolOf?_eq_some_iff.1 hs).1,
        hw.package_eq (hw.symbolOf?_eq_some_iff.1 ht).1]
      exact hne
    rw [Symbol.isSame, Bool.and_eq_false_iff, beq_eq_false_iff_ne]
    exact .inl fun hfile => hpackage (congrArg FileRef.path hfile)

/-- An alias other than that of imports without alias serves one import at most. -/
theorem length_importsAs_le_one (hf : f ∈ w.files) {key : String} (hkey : key ≠ defaultAlias) :
    (f.importsAs key).length ≤ 1 := by
  have halias : ∀ i ∈ f.importsAs key, i.aliasName.map (·.name) = some key := by
    intro i hi
    have hkeyed : aliasKey i.aliasName = key := eq_of_beq (List.mem_filter.1 hi).2
    cases ha : i.aliasName with
    | none =>
      rw [ha] at hkeyed
      exact absurd hkeyed.symm hkey
    | some a =>
      rw [ha] at hkeyed
      exact congrArg some hkeyed
  have hnodup : ((f.importsAs key).filterMap fun i => i.aliasName.map (·.name)).Nodup :=
    (hw.imports f hf).nodup_aliases.sublist (List.filter_sublist.filterMap _)
  have hall : ((f.importsAs key).filterMap fun i => i.aliasName.map (·.name)) =
      List.replicate (f.importsAs key).length key := by
    rw [List.filterMap_congr halias, ← List.map_const']
    exact congrFun List.filterMap_eq_map _
  exact List.nodup_replicate.1 (hall ▸ hnodup)

/-- A name with an alias of its own denotes one type at most. -/
theorem length_find_le_one (hf : f ∈ w.files) {key : String} (hempty : key ≠ "")
    (hkey : key ≠ defaultAlias) :
    (w.find f name (some key)).length ≤ 1 := by
  have hplain : ¬isUnqualified (some key) := by simpa [isUnqualified] using hempty
  rw [find_of_not_isUnqualified hplain, imported, importsFor, if_neg hplain]
  exact (List.length_filterMap_le _ _).trans (hw.length_importsAs_le_one hf hkey)

end IsOrderly

end Schemata.Workspace

/-! ## A file whose imports get in each other's way -/

namespace Schemata.Sample

def bareType (name : String) : TypeDecl := ⟨⟨name, useAt 9⟩, .struct, none, [], [], [], [], useAt 9⟩

def referringField (name typeName : String) : FieldDecl :=
  ⟨⟨name, useAt 9⟩, none, some (.mk ⟨typeName, none, useAt 9⟩ false [] (useAt 9)), [], [], useAt 9⟩

def leftPackage : SourceFile := ⟨⟨"left", "base.nex"⟩, [], [bareType "Crossing", bareType "Signal"]⟩

def rightPackage : SourceFile := ⟨⟨"right", "base.nex"⟩, [], [bareType "Signal"]⟩

/-- A file that imports both packages, names another one that is not there, declares a type of the
name of one that it imports, and refers to the type that both packages declare and to one that is
misspelt. -/
def crossing : SourceFile :=
  ⟨⟨"app", "main.nex"⟩, [⟨"left", none, useAt 1⟩, ⟨"right", none, useAt 2⟩,
    ⟨"lefty", none, useAt 3⟩],
    [{ bareType "Crossing" with fields := [referringField "first" "Signal",
      referringField "second" "Signl"] }]⟩

/-- The three files before their imports are resolved. -/
def unlinkedCrossing : Workspace :=
  ⟨[⟨crossing.file, crossing.uses, crossing.symbols, []⟩,
    ⟨leftPackage.file, leftPackage.uses, leftPackage.symbols, []⟩,
    ⟨rightPackage.file, rightPackage.uses, rightPackage.symbols, []⟩]⟩

theorem assemble_crossing :
    Workspace.assemble [crossing, leftPackage, rightPackage] = .ok (unlinkedCrossing, []) := by
  have harrange : Workspace.arrange [crossing, leftPackage, rightPackage] =
      [crossing, leftPackage, rightPackage] := by
    refine Workspace.arrange_eq_self ?_ (by decide)
    simp only [List.forall_mem_cons]
    exact ⟨rfl, rfl, rfl, by simp⟩
  have hnodup : (([crossing, leftPackage, rightPackage].flatMap (·.symbols)).map
      Workspace.symbolKey).Nodup := by
    show [("app", "Crossing"), ("left", "Crossing"), ("left", "Signal"), ("right", "Signal")].Nodup
    decide
  refine Workspace.assemble_eq_ok_iff.2 ⟨by simp, ?_, ?_, ?_⟩
  · rw [harrange]
    decide
  · rw [harrange, firsts_eq_self hnodup]
    rfl
  · rw [harrange, repeats_eq_nil_iff.2 hnodup]
    rfl

/-- The three files with their imports. -/
def linkedCrossing : Workspace := unlinkedCrossing.resolveImports.1

/-- The reports on the three files. -/
def crossingReports : List Diagnostic :=
  unlinkedCrossing.resolveImports.2 ++ linkedCrossing.importCycles.map Workspace.cycleReport ++
    linkedCrossing.files.flatMap linkedCrossing.collisions

theorem link_crossing :
    Workspace.link [crossing, leftPackage, rightPackage] = .ok (linkedCrossing, crossingReports) :=
  Workspace.link_eq_ok_iff.2 ⟨unlinkedCrossing, [], assemble_crossing, rfl, rfl⟩

end Schemata.Sample
