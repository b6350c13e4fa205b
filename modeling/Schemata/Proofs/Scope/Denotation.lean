import Schemata.Proofs.Scope.Link

/-!
# What references denote

A reference denotes a declaration among the sources: one of its own file, if it has no alias and the
file declares the name, or else the only one of that name in the packages that the file imports
under its alias. In a workspace that mirrors its sources, looking a reference up comes to that
declaration.
-/

namespace Schemata

/-- Whether a reference has no alias. An empty alias is none. -/
def TypeRef.IsPlain (r : TypeRef) : Prop := r.qualifier = none ∨ r.qualifier = some ""

/-- The alias key under which imports are searched for a reference. -/
def TypeRef.importKey (r : TypeRef) : String :=
  match r.qualifier with
  | none | some "" => "."
  | some a => a

namespace SourceFile

def package (f : SourceFile) : String := Path.normalize f.file.path

/-- Whether the file imports a package under an alias key. -/
def Imports (f : SourceFile) (key package : String) : Prop :=
  ∃ u ∈ f.uses, aliasKey u.aliasName = key ∧ Path.normalize u.path = package

def symbolOf (f : SourceFile) (d : TypeDecl) : Symbol := ⟨f.canonical.file, d⟩

end SourceFile

/-- A reference in the file `f` denotes a declaration of the file `g`. -/
inductive Denotes (sources : List SourceFile) (f : SourceFile) (r : TypeRef) :
    SourceFile → TypeDecl → Prop where
  | own {d : TypeDecl} (plain : r.IsPlain) (mem : d ∈ f.types) (name : d.name.name = r.name)
      (only : ∀ e ∈ f.types, e.name.name = r.name → e = d) : Denotes sources f r f d
  | imported {g : SourceFile} {d : TypeDecl}
      (notOwn : r.IsPlain → ∀ e ∈ f.types, e.name.name ≠ r.name)
      (file : g ∈ sources) (mem : d ∈ g.types) (name : d.name.name = r.name)
      (imports : f.Imports r.importKey g.package)
      (only : ∀ g' ∈ sources, ∀ d' ∈ g'.types, d'.name.name = r.name →
        f.Imports r.importKey g'.package → g' = g ∧ d' = d) : Denotes sources f r g d

theorem Denotes.mem {sources : List SourceFile} {f g : SourceFile} {r : TypeRef} {d : TypeDecl}
    (h : Denotes sources f r g d) (hf : f ∈ sources) : g ∈ sources ∧ d ∈ g.types := by
  cases h with
  | own _ hd => exact ⟨hf, hd⟩
  | imported _ hg hd => exact ⟨hg, hd⟩

/-- What a reference denotes has the name that the reference gives. -/
theorem Denotes.name_eq {sources : List SourceFile} {f g : SourceFile} {r : TypeRef} {d : TypeDecl}
    (h : Denotes sources f r g d) : d.name.name = r.name := by
  cases h with
  | own _ _ hname => exact hname
  | imported _ _ _ hname => exact hname

namespace TypeRef

/-- A reference without a qualifier or with an empty one is a plain one. -/
theorem isUnqualified_iff {r : TypeRef} : Workspace.isUnqualified r.qualifier ↔ r.IsPlain := by
  rw [Workspace.isUnqualified, IsPlain]
  cases r.qualifier <;> simp

theorem importKey_eq (r : TypeRef) :
    (if Workspace.isUnqualified r.qualifier then defaultAlias else r.qualifier.getD "") =
      r.importKey := by
  obtain ⟨name, qualifier, span⟩ := r
  cases qualifier with
  | none => rfl
  | some a =>
    by_cases ha : a = ""
    · subst ha
      rfl
    · simp [Workspace.isUnqualified, importKey, ha]

end TypeRef

namespace Workspace.Mirrors

variable {w : Workspace} {sources : List SourceFile} {f g : SourceFile} {d e : TypeDecl}

/-! ## Files and types of the sources -/

theorem canonical_mem_arrange (hf : f ∈ sources) : f.canonical ∈ arrange sources :=
  (arrange_perm sources).mem_iff.2 (List.mem_map_of_mem hf)

theorem scope_mem_files (hw : w.Mirrors sources) (hf : f ∈ sources) :
    f.canonical.scope ∈ w.files := by
  rw [hw.files]
  exact List.mem_map_of_mem (canonical_mem_arrange hf)

/-- A file of the workspace is that of a source. -/
theorem exists_source_of_mem_files (hw : w.Mirrors sources) {s : FileScope} (hs : s ∈ w.files) :
    ∃ f ∈ sources, s = f.canonical.scope := by
  rw [hw.files] at hs
  obtain ⟨c, hc, rfl⟩ := List.mem_map.1 hs
  obtain ⟨f, hf, rfl⟩ := List.mem_map.1 ((arrange_perm sources).mem_iff.1 hc)
  exact ⟨f, hf, rfl⟩

/-- The scope of a file holds its declarations in their order. -/
theorem symbols_scope (f : SourceFile) : f.canonical.scope.symbols = f.types.map f.symbolOf := rfl

theorem symbolOf_mem_scope (hd : d ∈ f.types) : f.symbolOf d ∈ f.canonical.scope.symbols := by
  rw [symbols_scope]
  exact List.mem_map_of_mem hd

/-- Sources are of different files. -/
theorem nodup_files_sources (hw : w.Mirrors sources) :
    (sources.map fun s => s.canonical.file).Nodup := by
  have h := ((arrange_perm sources).map (·.file)).nodup_iff.1 hw.nodup_files
  rwa [List.map_map] at h

/-- Sources of one file are the same. -/
theorem eq_of_file_eq (hw : w.Mirrors sources) (hf : f ∈ sources) (hg : g ∈ sources)
    (e : f.canonical.file = g.canonical.file) : f = g :=
  List.inj_on_of_nodup_map hw.nodup_files_sources hf hg e

/-- No two declarations of the sources share package, file and name. -/
theorem nodup_keys_symbols (hw : w.Mirrors sources) :
    ((sources.flatMap fun f => f.types.map f.symbolOf).map symbolKey).Nodup := by
  have hperm : ((arrange sources).flatMap (·.symbols)).Perm
      (sources.flatMap fun f => f.types.map f.symbolOf) := by
    have h := (arrange_perm sources).flatMap_right (·.symbols)
    rwa [List.flatMap_map] at h
  exact (hperm.map symbolKey).nodup_iff.1 hw.nodup_keys

theorem symbolOf_mem (hf : f ∈ sources) (hd : d ∈ f.types) :
    f.symbolOf d ∈ sources.flatMap fun f => f.types.map f.symbolOf :=
  List.mem_flatMap.2 ⟨f, hf, List.mem_map_of_mem hd⟩

/-- A package declares a name once. -/
theorem eq_of_package_eq_of_name_eq (hw : w.Mirrors sources) (hf : f ∈ sources) (hd : d ∈ f.types)
    (hg : g ∈ sources) (he : e ∈ g.types) (hpackage : f.package = g.package)
    (hname : d.name.name = e.name.name) : f = g ∧ d = e := by
  have hsymbol : f.symbolOf d = g.symbolOf e :=
    List.inj_on_of_nodup_map hw.nodup_keys_symbols (symbolOf_mem hf hd) (symbolOf_mem hg he)
      (Prod.ext hpackage hname)
  obtain ⟨hfile, hdecl⟩ := Symbol.mk.inj hsymbol
  exact ⟨hw.eq_of_file_eq hf hg hfile, hdecl⟩

/-- The types of a package are those that its sources declare. -/
theorem mem_symbolsOf_iff (hw : w.Mirrors sources) {p : String} {t : Symbol} :
    t ∈ w.symbolsOf p ↔ ∃ g ∈ sources, g.package = p ∧ ∃ d ∈ g.types, t = g.symbolOf d := by
  rw [symbolsOf, List.mem_flatMap]
  constructor
  · rintro ⟨s, hs, ht⟩
    obtain ⟨hs, hp⟩ := List.mem_filter.1 hs
    obtain ⟨g, hg, rfl⟩ := hw.exists_source_of_mem_files hs
    rw [symbols_scope] at ht
    obtain ⟨d, hd, rfl⟩ := List.mem_map.1 ht
    exact ⟨g, hg, eq_of_beq hp, d, hd, rfl⟩
  · rintro ⟨g, hg, rfl, d, hd, rfl⟩
    have hfile : g.canonical.scope ∈ w.filesOf g.package :=
      List.mem_filter.2 ⟨hw.scope_mem_files hg, beq_self_eq_true _⟩
    exact ⟨g.canonical.scope, hfile, symbolOf_mem_scope hd⟩

/-- Looking a name up in a package comes to the one type of that name. -/
theorem symbolOf?_eq_some_iff (hw : w.Mirrors sources) {p name : String} {t : Symbol} :
    w.symbolOf? p name = some t ↔
      ∃ g ∈ sources, g.package = p ∧ ∃ d ∈ g.types, d.name.name = name ∧ t = g.symbolOf d := by
  rw [symbolOf?]
  constructor
  · intro h
    obtain ⟨hmem, hname⟩ := key_of_find?_eq_some h
    obtain ⟨g, hg, hp, d, hd, rfl⟩ := hw.mem_symbolsOf_iff.1 hmem
    exact ⟨g, hg, hp, d, hd, hname, rfl⟩
  · rintro ⟨g, hg, rfl, d, hd, rfl, rfl⟩
    cases h : (w.symbolsOf g.package).find? (·.name == d.name.name) with
    | none =>
      have hmem : g.symbolOf d ∈ w.symbolsOf g.package :=
        hw.mem_symbolsOf_iff.2 ⟨g, hg, rfl, d, hd, rfl⟩
      exact absurd (beq_self_eq_true _) (List.find?_eq_none.1 h _ hmem)
    | some s =>
      obtain ⟨hmem, hname⟩ := key_of_find?_eq_some h
      obtain ⟨g', hg', hp, d', hd', rfl⟩ := hw.mem_symbolsOf_iff.1 hmem
      obtain ⟨rfl, rfl⟩ := hw.eq_of_package_eq_of_name_eq hg' hd' hg hd hp hname
      rfl

/-! ## Lookup -/

/-- A qualifier names the imports that were given it as alias. -/
theorem mem_importsFor_iff {r : TypeRef} {i : Import} :
    i ∈ importsFor f.canonical.scope r.qualifier ↔
      ∃ u ∈ f.uses, aliasKey u.aliasName = r.importKey ∧ i = u.toImport := by
  rw [importsFor, r.importKey_eq, FileScope.importsAs, List.mem_filter]
  constructor
  · rintro ⟨hi, hkey⟩
    obtain ⟨u, hu, rfl⟩ := List.mem_map.1 hi
    exact ⟨u, hu, eq_of_beq hkey, rfl⟩
  · rintro ⟨u, hu, hkey, rfl⟩
    refine ⟨List.mem_map_of_mem hu, ?_⟩
    rw [Import.key, UseDecl.toImport, hkey, beq_self_eq_true]

/-- The types that the imports of a file bring in for a reference. -/
theorem mem_filterMap_importsFor_iff (hw : w.Mirrors sources) {r : TypeRef} {t : Symbol} :
    (t ∈ (importsFor f.canonical.scope r.qualifier).filterMap fun i => w.symbolOf? i.path r.name) ↔
      ∃ g ∈ sources, ∃ d ∈ g.types, d.name.name = r.name ∧ f.Imports r.importKey g.package ∧
        t = g.symbolOf d := by
  rw [List.mem_filterMap]
  constructor
  · rintro ⟨i, hi, ht⟩
    obtain ⟨u, hu, hkey, rfl⟩ := mem_importsFor_iff.1 hi
    obtain ⟨g, hg, hp, d, hd, hname, rfl⟩ := hw.symbolOf?_eq_some_iff.1 ht
    exact ⟨g, hg, d, hd, hname, ⟨u, hu, hkey, hp.symm⟩, rfl⟩
  · rintro ⟨g, hg, d, hd, hname, ⟨u, hu, hkey, hp⟩, rfl⟩
    exact ⟨u.toImport, mem_importsFor_iff.2 ⟨u, hu, hkey, rfl⟩,
      hw.symbolOf?_eq_some_iff.2 ⟨g, hg, hp.symm, d, hd, hname, rfl⟩⟩

/-- The type of a name that a file declares itself. -/
theorem exists_of_symbol?_eq_some {name : String} {s : Symbol}
    (h : f.canonical.scope.symbol? name = some s) :
    ∃ d ∈ f.types, d.name.name = name ∧ s = f.symbolOf d := by
  rw [FileScope.symbol?, symbols_scope] at h
  obtain ⟨hmem, hname⟩ := key_of_find?_eq_some h
  obtain ⟨d, hd, rfl⟩ := List.mem_map.1 hmem
  exact ⟨d, hd, hname, rfl⟩

theorem name_ne_of_symbol?_eq_none {name : String} (h : f.canonical.scope.symbol? name = none) :
    ∀ e ∈ f.types, e.name.name ≠ name := by
  rw [FileScope.symbol?, symbols_scope, List.find?_eq_none] at h
  intro e he hname
  exact h _ (List.mem_map_of_mem he) (beq_iff_eq.2 hname)

/-- A reference that a lookup finds in the imports only. -/
theorem denotes_of_filterMap_eq (hw : w.Mirrors sources) {r : TypeRef} {t : Symbol}
    (hown : r.IsPlain → ∀ e ∈ f.types, e.name.name ≠ r.name)
    (h : ((importsFor f.canonical.scope r.qualifier).filterMap fun i => w.symbolOf? i.path r.name) =
      [t]) : ∃ g d, t = g.symbolOf d ∧ Denotes sources f r g d := by
  have hmem : ∀ s, (∃ g ∈ sources, ∃ d ∈ g.types, d.name.name = r.name ∧
      f.Imports r.importKey g.package ∧ s = g.symbolOf d) ↔ s = t := fun s => by
    rw [← hw.mem_filterMap_importsFor_iff, h, List.mem_singleton]
  obtain ⟨g, hg, d, hd, hname, himports, rfl⟩ := (hmem t).2 rfl
  refine ⟨g, d, rfl, .imported hown hg hd hname himports fun g' hg' d' hd' hname' himports' => ?_⟩
  have hsymbol := (hmem (g'.symbolOf d')).1 ⟨g', hg', d', hd', hname', himports', rfl⟩
  obtain ⟨hfile, hdecl⟩ := Symbol.mk.inj hsymbol
  exact ⟨hw.eq_of_file_eq hg' hg hfile, hdecl⟩

/-- Where a lookup finds one type, that is the one which the reference denotes. -/
theorem denotes_of_findRef (hw : w.Mirrors sources) (hf : f ∈ sources) {r : TypeRef} {t : Symbol}
    (h : w.findRef f.canonical.scope r = [t]) :
    ∃ g d, t = g.symbolOf d ∧ Denotes sources f r g d := by
  rw [findRef, find] at h
  by_cases hplain : isUnqualified r.qualifier
  · rw [if_pos hplain] at h
    split at h
    · next s hs =>
      obtain ⟨d, hd, hname, rfl⟩ := exists_of_symbol?_eq_some hs
      obtain rfl := List.singleton_inj.1 h
      refine ⟨f, d, rfl, .own (TypeRef.isUnqualified_iff.1 hplain) hd hname fun e he hename => ?_⟩
      exact (hw.eq_of_package_eq_of_name_eq hf he hf hd rfl (hename.trans hname.symm)).2
    · next hnone => exact hw.denotes_of_filterMap_eq (fun _ => name_ne_of_symbol?_eq_none hnone) h
  · rw [if_neg hplain] at h
    exact hw.denotes_of_filterMap_eq (fun hr => absurd (TypeRef.isUnqualified_iff.2 hr) hplain) h

end Workspace.Mirrors

end Schemata
