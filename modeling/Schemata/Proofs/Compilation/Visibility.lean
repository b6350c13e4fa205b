import Schemata.Proofs.Rule.Agreement
import Schemata.Proofs.Scope.Lookup
import Schemata.Proofs.Text.Suggestion

/-!
# What a name means and what is said about it

In a linked workspace, where a name is visible, where it is ambiguous, and what is reported where it
is neither.
-/

/-!
## What is visible and what is suggested

In a linked workspace a name denotes something exactly where it is visible, and what is suggested
for a name that denotes nothing does denote something there. For a package that is not found, a
package is suggested that the file may import.
-/

namespace Schemata

/-- A file in which lookups, the names that are visible, and suggestions for other names agree. -/
structure FileScope.LookupsAgree (w : Workspace) (f : FileScope) : Prop where
  visible : ∀ name qualifier, w.find f name qualifier ≠ [] ↔ name ∈ w.visibleNames f qualifier
  different : ∀ name qualifier, (w.find f name qualifier).Pairwise fun s t => s.isSame t = false
  named : ∀ name qualifier, ∀ s ∈ w.find f name qualifier, s ∈ w.symbols ∧ s.name = name
  own : ∀ qualifier, qualifier = none ∨ qualifier = some "" →
    ∀ s ∈ f.symbols, w.find f s.name qualifier = [s]
  single : ∀ name key, key ≠ "" → key ≠ defaultAlias → (w.find f name (some key)).length ≤ 1
  suggested : ∀ severity enabled reported r d,
    Rule.Context.resolve ⟨w, f, severity, enabled, reported⟩ r = .error d → d.kind = .typeNotFound →
    ∀ hint ∈ d.hints, ∃ name, hint = s!"did you mean `{name}`?" ∧ name ≠ r.name ∧
      w.find f name r.qualifier ≠ []

/-- A workspace and the reports of linking it, with lookups and suggestions that agree. -/
structure Workspace.LookupsAgree (w : Workspace) (ds : List Diagnostic) : Prop where
  files : ∀ f ∈ w.files, f.LookupsAgree w
  /-- Types are not found where references of a file are resolved. -/
  typeNotFound : ∀ settings, ∀ d ∈ analyze w settings, d.kind = .typeNotFound →
    ∃ f ∈ w.files, ∃ r ∈ f.references, ∀ severity enabled reported,
      Rule.Context.resolve ⟨w, f, severity, enabled, reported⟩ r = .error d
  packageNotFound : ∀ d ∈ ds, d.kind = .packageNotFound →
    ∃ f ∈ w.files, d.file = f.file ∧ ∃ u ∈ f.uses, d.span = u.span ∧
    Path.normalize u.path ∉ w.packages ∧
      ∀ hint ∈ d.hints, ∃ p ∈ w.packages, hint = s!"did you mean `{p}`?" ∧ p ≠ "" ∧ p ≠ f.file.path

namespace Workspace

variable {w : Workspace} {f : FileScope} {sources : List SourceFile} {ds : List Diagnostic}
  {d : Diagnostic}

/-! ### Hints for types -/

/-- A type that is not found is suggested under another name that denotes something there. -/
theorem suggested_of_resolve {c : Rule.Context} {r : TypeRef} (h : c.resolve r = .error d)
    (hk : d.kind = .typeNotFound) {hint : String} (hint_mem : hint ∈ d.hints) :
    ∃ name, hint = s!"did you mean `{name}`?" ∧ name ≠ r.name ∧
      c.workspace.find c.scope name r.qualifier ≠ [] := by
  rcases Rule.Context.cases_of_resolve_eq_error h with ⟨-, rfl⟩ | ⟨-, rfl⟩
  · obtain ⟨name, hvisible, hne, e⟩ := Suggestion.of_hint?_eq_some (Option.mem_toList.1 hint_mem)
    exact ⟨name, e, hne, find_ne_nil_iff.2 hvisible⟩
  · cases hk

/-! ### Hints for packages -/

/-- A file may import every package but the root and its own. -/
theorem mem_importable_iff {package p : String} :
    p ∈ w.importable package ↔ p ∈ w.packages ∧ p ≠ "" ∧ p ≠ package := by
  simp [importable]

/-- A package that is not found is reported for a use, with a package to import instead as
the hint. -/
theorem exists_use_of_mem_reports (hd : d ∈ (w.importsOf f).2) (hk : d.kind = .packageNotFound) :
    ∃ u ∈ f.uses, d.span = u.span ∧ Path.normalize u.path ∉ w.packages ∧
      ∀ hint ∈ d.hints, ∃ p ∈ w.packages, hint = s!"did you mean `{p}`?" ∧ p ≠ "" ∧
        p ≠ f.file.path := by
  obtain ⟨outcomes, t, run, -, -, himports⟩ := w.exists_usesRun_importsOf f
  rw [himports] at hd
  obtain ⟨t, u, hu, houtcome⟩ := run.exists_outcome_of_mem_reported hd
  cases houtcome with
  | notFound _ _ unknown =>
    refine ⟨u, hu, rfl, unknown, fun hint hmem => ?_⟩
    obtain ⟨p, hp, -, e⟩ := Suggestion.of_hint?_eq_some (Option.mem_toList.1 hmem)
    obtain ⟨hpackage, hroot, hother⟩ := mem_importable_iff.1 hp
    exact ⟨p, hpackage, e, hroot, hother⟩
  | aliasTaken => cases hk
  | selfImport => cases hk
  | duplicate => cases hk

/-- Packages are not found where uses are taken. -/
theorem exists_mem_reports_of_link (h : link sources = .ok (w, ds)) (hd : d ∈ ds)
    (hk : d.kind = .packageNotFound) :
    ∃ a : Workspace, w = a.resolveImports.1 ∧ ∃ f ∈ a.files, d ∈ (a.importsOf f).2 := by
  obtain ⟨a, doubles, ha, rfl, rfl⟩ := link_eq_ok_iff.1 h
  obtain ⟨-, -, -, rfl⟩ := assemble_eq_ok_iff.1 ha
  simp only [List.append_assoc, List.mem_append] at hd
  rcases hd with hd | hd | hd | hd
  · obtain ⟨p, -, rfl⟩ := List.mem_map.1 hd
    cases hk
  · obtain ⟨f, hf, hd⟩ := List.mem_flatMap.1 hd
    exact ⟨a, rfl, f, hf, hd⟩
  · obtain ⟨c, -, rfl⟩ := List.mem_map.1 hd
    cases hk
  · obtain ⟨f, -, hd⟩ := List.mem_flatMap.1 hd
    rw [(of_mem_collisionsAfter hd).2.1] at hk
    cases hk

/-- Lookups, the names that are visible, and suggestions agree in every linked workspace. -/
theorem lookupsAgree_of_link (h : link sources = .ok (w, ds)) : w.LookupsAgree ds := by
  have hw := isOrderly_of_link h
  constructor
  case files =>
    intro f hf
    constructor
    case visible => exact fun name qualifier => find_ne_nil_iff
    case different => exact fun name qualifier => hw.pairwise_find hf
    case named => exact fun name qualifier s hs => mem_of_mem_find hf hs
    case own =>
      intro qualifier hplain s hs
      have hplain : isUnqualified qualifier := by rcases hplain with rfl | rfl <;> rfl
      rw [find_of_isUnqualified hplain, hw.symbol?_eq_some hf hs]
      rfl
    case single => exact fun name key hempty hkey => hw.length_find_le_one hf hempty hkey
    case suggested => exact fun severity enabled reported r d hd hk hint hmem =>
      suggested_of_resolve hd hk hmem
  case typeNotFound =>
    intro settings d hd hk
    exact resolve_of_mem_analyze hd (by rw [hk]; rfl)
  case packageNotFound =>
    intro d hd hk
    obtain ⟨a, rfl, f, hf, hd⟩ := exists_mem_reports_of_link h hd hk
    refine ⟨_, List.mem_map_of_mem hf, file_of_mem_reports hd, ?_⟩
    rw [packages_resolveImports]
    exact exists_use_of_mem_reports hd hk

end Workspace

namespace Sample

/-- What is suggested for the misspelt package and the misspelt type of a file whose imports get in
each other's way. -/
theorem lookupsAgree_crossing :
    Workspace.link [crossing, leftPackage, rightPackage] = .ok (linkedCrossing, crossingReports) ∧
      linkedCrossing.LookupsAgree crossingReports ∧
      unlinkedCrossing.resolveImports.2.map (·.hints) = [["did you mean `left`?"]] ∧
      ((analyze linkedCrossing .standard).filter (·.kind = .typeNotFound)).map (·.hints) =
        [["did you mean `Signal`?"]] :=
  ⟨link_crossing, Workspace.lookupsAgree_of_link link_crossing, rfl, rfl⟩

end Sample

/-!
## Ambiguous names

In a linked workspace a name is reported in a file once if it collides there, and not at all if it
does not. A reference is ambiguous only if its name has been reported so.
-/

/-- Whether a file declares a type of that name. -/
def FileScope.Declares (f : FileScope) (name : String) : Prop := ∃ s ∈ f.symbols, s.name = name

theorem FileScope.declares_iff {f : FileScope} {name : String} :
    f.Declares name ↔ (f.symbol? name).isSome := by
  rw [Workspace.isSome_symbol?_iff, List.mem_map]
  exact Iff.rfl

namespace Workspace

/-- Whether a package declares a type of that name. -/
def Declares (w : Workspace) (package name : String) : Prop :=
  ∃ s ∈ w.symbolsOf package, s.name = name

/-- Whether a name collides in a file: if the file declares it, with a package that it imports
without an alias, and if it does not, between two such packages. -/
def Collides (w : Workspace) (f : FileScope) (name : String) : Prop :=
  (f.Declares name ∧ ∃ i ∈ f.importsAs defaultAlias, w.Declares i.path name) ∨
    (¬f.Declares name ∧ ∃ i ∈ f.importsAs defaultAlias, ∃ j ∈ f.importsAs defaultAlias,
      i.path ≠ j.path ∧ w.Declares i.path name ∧ w.Declares j.path name)

/-- How many of the reports on collisions are on a name in a file. -/
def timesReported (w : Workspace) (f : FileScope) (name : String) : Nat :=
  (w.files.flatMap w.collisions).countP fun d => d.isAbout .alreadyDefined name && d.file == f.file

/-- A workspace and the reports of linking it, with those on collisions last: each is on a name that
collides, and each such name has one. They are what a pass with a log makes, and no reference is
ambiguous without one. -/
structure CollisionsReported (w : Workspace) (ds : List Diagnostic) : Prop where
  last : ∃ earlier, ds = earlier ++ w.files.flatMap w.collisions
  logged : ∀ f ∈ w.files, CollisionLog.empty.reportsAfter f (w.broughtIn f) = w.collisions f
  about : ∀ d ∈ w.files.flatMap w.collisions,
    ∃ f ∈ w.files, d.file = f.file ∧ ∃ name, d.isAbout .alreadyDefined name
  once : ∀ f ∈ w.files, ∀ name, w.Collides f name → w.timesReported f name = 1
  never : ∀ f ∈ w.files, ∀ name, ¬w.Collides f name → w.timesReported f name = 0
  ambiguous : ∀ f ∈ w.files, ∀ severity enabled reported r d,
    Rule.Context.resolve ⟨w, f, severity, enabled, reported⟩ r = .error d → d.kind = .needAlias →
    w.timesReported f r.name = 1
  /-- Ambiguities are found where references of a file are resolved. -/
  resolved : ∀ settings, ∀ d ∈ analyze w settings, d.kind = .needAlias →
    ∃ f ∈ w.files, ∃ r ∈ f.references, ∀ severity enabled reported,
      Rule.Context.resolve ⟨w, f, severity, enabled, reported⟩ r = .error d

variable {w : Workspace} {f : FileScope} {name package : String} {sources : List SourceFile}
  {ds : List Diagnostic} {d : Diagnostic}

/-! ### Names that collide -/

/-- A package declares a name when looking the name up in it finds something. -/
theorem declares_iff : w.Declares package name ↔ (w.symbolOf? package name).isSome := by
  rw [isSome_symbolOf?_iff, List.mem_map]
  exact Iff.rfl

/-- As many types are brought in under a name as there are packages that declare it. -/
theorem length_imported : (w.imported f name none).length =
    ((f.importsAs defaultAlias).filter fun i => (w.symbolOf? i.path name).isSome).length := by
  rw [imported, List.length_filterMap_eq_countP, List.countP_eq_length_filter]
  rfl

/-- A name is brought in as often as an import leads to a type of it. -/
theorem IsOrderly.length_bearing_broughtIn (hw : w.IsOrderly) :
    (bearing name (w.broughtIn f)).length = (w.imported f name none).length := by
  have hone : ∀ i : Import, (bearing name ((w.symbolsOf i.path).map fun s => (i, s))).length =
      (w.symbolOf? i.path name).toList.length := by
    intro i
    rw [bearing, List.filter_map, List.length_map]
    cases h : w.symbolOf? i.path name with
    | none => exact congrArg List.length (List.filter_eq_nil_iff.2 (List.find?_eq_none.1 h))
    | some s =>
      obtain ⟨hs, rfl⟩ := hw.symbolOf?_eq_some_iff.1 h
      exact congrArg List.length (filter_key_eq_singleton (hw.nodup_names i.path) hs)
  rw [imported, List.filterMap_eq_flatMap_toList, List.length_flatMap, bearing, broughtIn,
    List.filter_flatMap, List.length_flatMap]
  exact congrArg List.sum (List.map_congr_left fun i _ => hone i)

/-- A name is brought in often enough to collide exactly if it collides. -/
theorem IsOrderly.collidesAt_le_iff (hw : w.IsOrderly) (hf : f ∈ w.files) :
    collidesAt f name ≤ (w.imported f name none).length ↔ w.Collides f name := by
  have hpaths : (((f.importsAs defaultAlias).filter fun i => (w.symbolOf? i.path name).isSome).map
      (·.path)).Nodup :=
    (hw.nodup_paths hf defaultAlias).sublist (List.filter_sublist.map _)
  have hmem : ∀ i, (i ∈ (f.importsAs defaultAlias).filter fun i =>
      (w.symbolOf? i.path name).isSome) ↔
      i ∈ f.importsAs defaultAlias ∧ w.Declares i.path name := by
    intro i
    rw [List.mem_filter, declares_iff]
  rw [length_imported, collidesAt, Collides]
  by_cases hown : (f.symbol? name).isSome
  · have hdeclares : f.Declares name := FileScope.declares_iff.2 hown
    rw [if_pos hown, Nat.succ_le_iff, List.length_pos_iff_exists_mem]
    simp only [hmem, hdeclares, true_and, not_true, false_and, or_false]
  · have hforeign : ¬f.Declares name := fun h => hown (FileScope.declares_iff.1 h)
    rw [if_neg hown, two_le_length_iff hpaths]
    simp only [hmem, hforeign, false_and, false_or, not_false_eq_true, true_and]
    constructor
    · rintro ⟨i, ⟨hi, hdi⟩, j, ⟨hj, hdj⟩, hne⟩
      exact ⟨i, hi, j, hj, hne, hdi, hdj⟩
    · rintro ⟨i, hi, j, hj, hne, hdi, hdj⟩
      exact ⟨i, ⟨hi, hdi⟩, j, ⟨hj, hdj⟩, hne⟩

/-! ### Reports on collisions -/

/-- The reports on collisions in a file are those in this file. -/
theorem IsOrderly.timesReported_eq (hw : w.IsOrderly) (hf : f ∈ w.files) :
    w.timesReported f name = if collidesAt f name ≤ (w.imported f name none).length
      then 1 else 0 := by
  have hpart : (w.files.flatMap w.collisions).filter (·.file == f.file) = w.collisions f :=
    filter_flatMap_eq_part hw.nodup_files (fun g _ d hd => (of_mem_collisionsAfter hd).1) hf
  rw [timesReported, ← List.countP_filter, hpart, collisions, countP_collisionsAfter,
    List.nil_append, hw.length_bearing_broughtIn]
  simp only [bearing, List.filter_nil, List.length_nil, collidesAt_pos, true_and]

/-- Types of one name are brought in by imports of different packages. -/
theorem IsOrderly.pairwise_broughtIn (hw : w.IsOrderly) (hf : f ∈ w.files) :
    (w.broughtIn f).Pairwise fun a b => nameBroughtIn a = nameBroughtIn b →
      a.1.path ≠ b.1.path := by
  rw [broughtIn, List.pairwise_flatMap]
  constructor
  · intro i _
    rw [List.pairwise_map]
    exact (List.pairwise_map.1 (hw.nodup_names i.path)).imp fun hne e => absurd e hne
  · refine (List.pairwise_map.1 (hw.nodup_paths hf defaultAlias)).imp fun {i j} hne
      a ha b hb _ => ?_
    obtain ⟨s, -, rfl⟩ := List.mem_map.1 ha
    obtain ⟨t, -, rfl⟩ := List.mem_map.1 hb
    exact hne

/-! ### Ambiguous references -/

/-- Types are looked up in the same imports without an alias and with the alias of imports that have
none. -/
theorem importsFor_of_isUnqualified {qualifier : Option String}
    (h : isUnqualified qualifier ∨ qualifier = some defaultAlias) :
    importsFor f qualifier = importsFor f none := by
  rcases h with h | rfl
  · rw [importsFor, if_pos h]
    rfl
  · rfl

/-- A name denotes several types only through imports without an alias. -/
theorem IsOrderly.two_le_imported (hw : w.IsOrderly) (hf : f ∈ w.files) {qualifier : Option String}
    (h : 2 ≤ (w.find f name qualifier).length) : 2 ≤ (w.imported f name none).length := by
  have hplain : isUnqualified qualifier ∨ qualifier = some defaultAlias := by
    cases qualifier with
    | none => exact .inl rfl
    | some key =>
      by_cases hempty : key = ""
      · exact .inl (by rw [hempty]; rfl)
      · by_cases hkey : key = defaultAlias
        · exact .inr (by rw [hkey])
        · exact absurd (h.trans (hw.length_find_le_one hf hempty hkey)) (by decide)
  rcases w.find_cases f name qualifier with ⟨-, s, -, e⟩ | ⟨-, e⟩
  · rw [e] at h
    exact absurd h (by simp)
  · rwa [e, imported, importsFor_of_isUnqualified hplain] at h

/-- The name of an ambiguous reference collides. -/
theorem IsOrderly.timesReported_of_needAlias (hw : w.IsOrderly) (hf : f ∈ w.files)
    {severity : Severity} {enabled : List Rule} {reported : List Diagnostic} {r : TypeRef}
    (h : Rule.Context.resolve ⟨w, f, severity, enabled, reported⟩ r = .error d)
    (hk : d.kind = .needAlias) :
    w.timesReported f r.name = 1 := by
  rcases Rule.Context.cases_of_resolve_eq_error h with ⟨-, rfl⟩ | ⟨hseveral, -⟩
  · cases hk
  · rw [hw.timesReported_eq hf, if_pos (collidesAt_le_two.trans (hw.two_le_imported hf hseveral))]

/-- Linking reports every name that collides in a file once, and no other name. -/
theorem collisionsReported_of_link (h : link sources = .ok (w, ds)) : w.CollisionsReported ds := by
  have hw := isOrderly_of_link h
  constructor
  case last =>
    obtain ⟨a, doubles, -, -, rfl⟩ := link_eq_ok_iff.1 h
    exact ⟨_, rfl⟩
  case logged =>
    intro f hf
    exact CollisionLog.Tracks.empty.reportsAfter_eq (hw.pairwise_broughtIn hf)
  case about =>
    intro d hd
    obtain ⟨f, hf, hd⟩ := List.mem_flatMap.1 hd
    obtain ⟨hfile, hkind, name, hmessage⟩ := of_mem_collisionsAfter hd
    exact ⟨f, hf, hfile, name, by simp [Diagnostic.isAbout, hkind, hmessage]⟩
  case once =>
    intro f hf name hcollides
    rw [hw.timesReported_eq hf, if_pos ((hw.collidesAt_le_iff hf).2 hcollides)]
  case never =>
    intro f hf name hclear
    rw [hw.timesReported_eq hf, if_neg fun hle => hclear ((hw.collidesAt_le_iff hf).1 hle)]
  case ambiguous => exact fun f hf severity enabled reported r d hd hk =>
    hw.timesReported_of_needAlias hf hd hk
  case resolved =>
    intro settings d hd hk
    exact resolve_of_mem_analyze hd (by rw [hk]; rfl)

end Workspace

/-! ### A name that collides with that of the file, and one that two packages declare -/

namespace Sample

/-- Linking reports one collision of either sort, and analysis an ambiguous reference. -/
theorem collisionsReported_crossing :
    Workspace.link [crossing, leftPackage, rightPackage] = .ok (linkedCrossing, crossingReports) ∧
      linkedCrossing.CollisionsReported crossingReports ∧
      (linkedCrossing.files.flatMap linkedCrossing.collisions).map (·.message) =
        ["`Crossing` is already defined", "`Signal` is already defined"] ∧
      ((analyze linkedCrossing .standard).filter (·.kind = .needAlias)).map (·.message) =
        ["`Signal` is declared in more than one imported package"] :=
  ⟨link_crossing, Workspace.collisionsReported_of_link link_crossing, rfl, rfl⟩

end Sample

end Schemata
