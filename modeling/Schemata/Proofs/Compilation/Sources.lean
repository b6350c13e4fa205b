import Schemata.Proofs.Snapshot.References

/-!
# More sources, and sources in another order

More sources leave what is compiled from the others as it is, and so does another order of all of
them.
-/

/-!
## Schemas that grow

More sources never give a reference another meaning without an error. So if a schema has a snapshot
before and after sources are added to it, all compiled files are still there, as they were.
-/

namespace Schemata

variable {sources sources' : List SourceFile}

/-- What a reference denotes among some sources is all that it can denote among more of them. -/
theorem Denotes.eq_of_subset (hsub : sources ⊆ sources') {f g g' : SourceFile} {r : TypeRef}
    {d d' : TypeDecl} (h : Denotes sources f r g d) (h' : Denotes sources' f r g' d') :
    g = g' ∧ d = d' := by
  cases h with
  | own hplain hd hname _ =>
    cases h' with
    | own _ _ _ honly => exact ⟨rfl, honly d hd hname⟩
    | imported hnotOwn => exact absurd hname (hnotOwn hplain d hd)
  | imported hnotOwn hg hd hname himports _ =>
    cases h' with
    | own hplain hd' hname' => exact absurd hname' (hnotOwn hplain d' hd')
    | imported _ _ _ _ _ honly => exact honly g (hsub hg) d hd hname himports

namespace Workspace.Mirrors

variable {w w' : Workspace} {f : SourceFile} {d : TypeDecl}

/-- A reference that denotes one type before and after sources are added has the same id. -/
theorem resolveId_eq_of_subset (hw : w.Mirrors sources) (hw' : w'.Mirrors sources')
    (hsub : sources ⊆ sources') (hf : f ∈ sources) {r : TypeRef} {t t' : Symbol}
    (ht : w.findRef f.canonical.scope r = [t]) (ht' : w'.findRef f.canonical.scope r = [t']) :
    w.resolveId f.canonical.scope r = w'.resolveId f.canonical.scope r := by
  obtain ⟨g, e, rfl, hdenotes⟩ := hw.denotes_of_findRef hf ht
  obtain ⟨g', e', rfl, hdenotes'⟩ := hw'.denotes_of_findRef (hsub hf) ht'
  obtain ⟨rfl, rfl⟩ := hdenotes.eq_of_subset hsub hdenotes'
  rw [resolveId_of_findRef ht, resolveId_of_findRef ht']

/-- A declaration that two workspaces accept refers in both to the same declarations. -/
theorem agreeOn_of_subset (hw : w.Mirrors sources) (hw' : w'.Mirrors sources')
    (hsub : sources ⊆ sources') (hf : f ∈ sources) (h : (f.symbolOf d).Accepted w f.canonical.scope)
    (h' : (f.symbolOf d).Accepted w' f.canonical.scope) :
    w.AgreeOn f.canonical.scope w' f.canonical.scope d where
  base := fun r hr => by
    obtain ⟨-, t, ht, -⟩ := h.base r hr
    obtain ⟨-, t', ht', -⟩ := h'.base r hr
    exact hw.resolveId_eq_of_subset hw' hsub hf ht ht'
  nodes := fun n hn hp => by
    obtain ⟨t, ht, -⟩ := h.references n hn hp
    obtain ⟨t', ht', -⟩ := h'.references n hn hp
    exact hw.resolveId_eq_of_subset hw' hsub hf ht ht'

/-- A file compiles to the same after sources are added. -/
theorem compileFile_eq_of_subset (hw : w.Mirrors sources) (hw' : w'.Mirrors sources')
    (haccepted : w.IsAccepted) (haccepted' : w'.IsAccepted) (hsub : sources ⊆ sources')
    (hf : f ∈ sources) : w.compileFile f.canonical.scope = w'.compileFile f.canonical.scope := by
  refine compileFile_congr rfl rfl fun s hs => ?_
  obtain ⟨d, -, rfl⟩ := List.mem_map.1 hs
  exact hw.agreeOn_of_subset hw' hsub hf (haccepted _ (hw.scope_mem_files hf) _ hs)
    (haccepted' _ (hw'.scope_mem_files (hsub hf)) _ hs)

end Workspace.Mirrors

/-- If sources compile to a snapshot and still do so with more sources behind them, the later
snapshot holds every file of the earlier one, as often as that does. -/
theorem Compilation.files_subperm_of_append {settings : Settings} {c c' : Compilation}
    {s s' : Snapshot} (hc : ofSources settings sources = .ok c) (hs : c.snapshot = .ok s)
    (hc' : ofSources settings (sources ++ sources') = .ok c') (hs' : c'.snapshot = .ok s') :
    s.files.Subperm s'.files := by
  have hv := isValid_of_snapshot hs
  have hv' := isValid_of_snapshot hs'
  have hw := mirrors_of_isValid hc hv
  have hw' := mirrors_of_isValid hc' hv'
  rw [snapshot_of_isValid hv] at hs
  rw [snapshot_of_isValid hv'] at hs'
  obtain ⟨files, hperm, hfiles⟩ := hw.exists_files hs
  obtain ⟨files', hperm', hfiles'⟩ := hw'.exists_files hs'
  have hcompiled := mapM_eq_ok_iff.2 hfiles
  have hcompiled' := mapM_eq_ok_iff.2 hfiles'
  have hsame : ∀ f ∈ sources, c.workspace.compileFile f.canonical.scope =
      c'.workspace.compileFile f.canonical.scope := fun f hf =>
    hw.compileFile_eq_of_subset hw' (isAccepted_of_isValid hc hv) (isAccepted_of_isValid hc' hv')
      (List.subset_append_left _ _) hf
  rw [List.mapM_append, ← mapM_congr_of_mem hsame, hcompiled] at hcompiled'
  obtain ⟨_, ⟨⟩, hcompiled'⟩ := bind_eq_ok_iff.1 hcompiled'
  obtain ⟨added, -, hadded⟩ := bind_eq_ok_iff.1 hcompiled'
  obtain rfl := pure_eq_ok_iff.1 hadded
  exact hperm.subperm_right.1 (hperm'.subperm_left.1 (List.sublist_append_left _ _).subperm)

namespace Sample

def baseWorkspace : Workspace := ⟨[entity.scope]⟩

theorem link_entity : Workspace.link [entity] = .ok (baseWorkspace, []) :=
  Workspace.link_singleton rfl rfl (by decide)

def baseCompilation : Compilation := ⟨.standard, baseWorkspace, [], []⟩

theorem ofSources_entity : Compilation.ofSources .standard [entity] = .ok baseCompilation := by
  have hanalyze : analyze baseWorkspace .standard = [] := rfl
  refine Compilation.ofSources_eq_ok_iff.2 ⟨rfl, baseWorkspace, [], link_entity, ?_⟩
  rw [hanalyze, List.nil_append, Diagnostic.sort, List.mergeSort_nil]
  rfl

/-- The file of the base is the same in the snapshot of the base alone and in that of the whole
sample. -/
theorem files_subperm_of_append_user :
    Compilation.ofSources .standard [entity] = .ok baseCompilation ∧
      Compilation.ofSources .standard ([entity] ++ [user]) = .ok compilation ∧
      ∃ s s', baseCompilation.snapshot = .ok s ∧ compilation.snapshot = .ok s' ∧
        s.files.Subperm s'.files := by
  obtain ⟨s, hs⟩ := Compilation.exists_snapshot_of_isValid ofSources_entity rfl
  obtain ⟨s', hs'⟩ := exists_snapshot
  exact ⟨ofSources_entity, ofSources_sources, s, s', hs, hs',
    Compilation.files_subperm_of_append ofSources_entity hs ofSources_sources hs'⟩

end Sample

end Schemata

/-!
## The order in which sources are found

A compilation comes to the same in whatever order its sources are found and however paths are
spelled.
-/

namespace Schemata

open SourceFile (Rearranged)

namespace Workspace

/-! ### Snapshots do not depend on the spelling of uses -/

/-- A compiled file does not tell how its imports were spelled. -/
theorem compileFile_normal (w : Workspace) (f : FileScope) :
    w.normal.compileFile f.normal = w.compileFile f := by
  have hid : w.normal.resolveId f.normal = w.resolveId f := by
    funext r
    rw [resolveId, resolveId, findRef_normal]
  apply compileFile_congr f.file_normal f.symbols_normal
  intro s hs
  exact ⟨fun r _ => congrFun hid r, fun n _ _ => congrFun hid n.ref⟩

theorem snapshot_normal (w : Workspace) (version : UInt32) :
    w.normal.snapshot version = w.snapshot version := by
  have hfiles : w.normal.filesByPackage.mapM w.normal.compileFile =
      w.filesByPackage.mapM w.compileFile := by
    rw [filesByPackage_normal, List.mapM_map]
    exact mapM_congr_of_mem fun f _ => w.compileFile_normal f
  rw [snapshot, snapshot, hfiles]

end Workspace

namespace Compilation

variable {settings : Settings} {a b : List SourceFile}

theorem isValid_of_eq {c c' : Compilation} (hsettings : c.settings = c'.settings)
    (h : c.diagnostics = c'.diagnostics) : c.isValid = c'.isValid := by
  rw [isValid, isValid, hsettings, h]

/-- Equal diagnostics and workspaces that differ in spelling only give the same snapshot. -/
theorem snapshot_of_normal_eq {c c' : Compilation} (hsettings : c.settings = c'.settings)
    (h : c.diagnostics = c'.diagnostics) (hw : c.workspace.normal = c'.workspace.normal) :
    c.snapshot = c'.snapshot := by
  rw [snapshot, snapshot, isValid_of_eq hsettings h, hsettings, h,
    ← c.workspace.snapshot_normal, hw, c'.workspace.snapshot_normal]

theorem analyze_of_normal_eq {w w' : Workspace} (h : w.normal = w'.normal) :
    analyze w settings = analyze w' settings := by
  rw [← analyze_normal, h, analyze_normal]

/-- An error of the linker is the error of the compilation. -/
theorem ofSources_of_link_eq_error {sources : List SourceFile} {e : Error}
    (hsettings : settings.validate = .ok ()) (h : Workspace.link sources = .error e) :
    ofSources settings sources = .error e := by
  rw [ofSources, hsettings, h]
  rfl

/-- Neither the order in which sources are found nor the spelling of paths has an effect. Either
linking fails with the same error, or the reports, the validity and the snapshot are the same. -/
theorem ofSources_of_rearranged (hsettings : settings.validate = .ok ()) (h : Rearranged a b) :
    (∃ e, (e = .noSources ∨ ∃ path, e = .duplicateFile path) ∧
      Workspace.link a = .error e ∧ Workspace.link b = .error e ∧
      ofSources settings a = .error e ∧ ofSources settings b = .error e) ∨
    ∃ c c', ofSources settings a = .ok c ∧ ofSources settings b = .ok c' ∧
      c.linkDiagnostics = c'.linkDiagnostics ∧ c.diagnostics = c'.diagnostics ∧
      c.isValid = c'.isValid ∧ c.snapshot = c'.snapshot := by
  rcases cases_of_map_eq (Workspace.link_of_rearranged h) with
    ⟨e, ha, hb⟩ | ⟨⟨w, ds⟩, ⟨w', ds'⟩, ha, hb, hsame⟩
  · exact .inl ⟨e, Workspace.eq_of_link_eq_error ha, ha, hb,
      ofSources_of_link_eq_error hsettings ha, ofSources_of_link_eq_error hsettings hb⟩
  · obtain ⟨hw, hds⟩ := Prod.mk.inj hsame
    obtain rfl : ds = ds' := hds
    let c : Compilation := ⟨settings, w, ds, Diagnostic.sort (ds ++ analyze w settings)⟩
    let c' : Compilation := ⟨settings, w', ds, Diagnostic.sort (ds ++ analyze w' settings)⟩
    have hc : ofSources settings a = .ok c := ofSources_eq_ok_iff.2 ⟨hsettings, w, ds, ha, rfl⟩
    have hc' : ofSources settings b = .ok c' := ofSources_eq_ok_iff.2 ⟨hsettings, w', ds, hb, rfl⟩
    have hdiagnostics : c.diagnostics = c'.diagnostics := by
      show Diagnostic.sort _ = Diagnostic.sort _
      rw [analyze_of_normal_eq hw]
    exact .inr ⟨c, c', hc, hc', rfl, hdiagnostics, isValid_of_eq rfl hdiagnostics,
      snapshot_of_normal_eq rfl hdiagnostics hw⟩

end Compilation

namespace Sample

def respelledEntity : SourceFile := { entity with file := ⟨"./common", "entity.nex"⟩ }

/-- The struct with other spellings of its package and of the one that it uses. -/
def respelledUser : SourceFile :=
  { user with
    file := ⟨"identity/", "user.nex"⟩
    uses := [⟨"common//.", some (ident "c"), (ident "c").span⟩] }

theorem rearranged_sources : Rearranged [entity, user] [respelledUser, respelledEntity] := by
  refine ⟨[user, entity], .swap user entity [], .cons ?_ (.cons ?_ .nil)⟩
  · exact ⟨rfl, rfl, .cons ⟨rfl, rfl, rfl⟩ .nil, rfl⟩
  · exact ⟨rfl, rfl, .nil, rfl⟩

/-- The sources in the other order and spelling come to the same as the sample. -/
theorem ofSources_of_rearranged_sources :
    Settings.standard.validate = .ok () ∧
      Rearranged [entity, user] [respelledUser, respelledEntity] ∧
      ∃ c, Compilation.ofSources .standard [respelledUser, respelledEntity] = .ok c ∧
        compilation.linkDiagnostics = c.linkDiagnostics ∧ compilation.diagnostics = c.diagnostics ∧
        compilation.isValid = c.isValid ∧ compilation.snapshot = c.snapshot := by
  have hsettings : Settings.standard.validate = .ok () := rfl
  refine ⟨hsettings, rearranged_sources, ?_⟩
  rcases Compilation.ofSources_of_rearranged hsettings rearranged_sources with
    ⟨e, -, -, -, he, -⟩ | ⟨c, c', hc, hc', hsame⟩
  · rw [ofSources_sources] at he
    cases he
  · obtain rfl : compilation = c := Except.ok.inj (ofSources_sources.symm.trans hc)
    exact ⟨c', hc', hsame⟩

end Sample

end Schemata
