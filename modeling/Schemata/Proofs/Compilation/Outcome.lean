import Schemata.Proofs.Compilation.Validity
import Schemata.Proofs.Snapshot.Build

/-!
# What comes of a compilation

A compilation that is valid has a snapshot, and any other one yields its diagnostics. Nothing else
can come of it: an internal error would take a declaration that resolving has no answer to, and a
valid compilation has none.
-/

/-!
## Accepted types have a resolved form

Resolving fails on a missing index, a missing value type, and a reference that does not denote one
type. An accepted type has none of these.
-/

namespace Schemata.Workspace

variable {w : Workspace} {f : FileScope} {s : Symbol}

/-- A reference that finds one declaration resolves to the id of that declaration. -/
theorem resolveId_of_findRef {r : TypeRef} {t : Symbol} (h : w.findRef f r = [t]) :
    w.resolveId f r = .ok t.id := resolveId_eq_ok_iff.2 ⟨t, h, rfl⟩

/-- A value type resolves if every name in it denotes one type. -/
theorem exists_resolveType (t : TypeExpr)
    (h : ∀ n ∈ t.nodes, n.primitive? = none → ∃ target, w.findRef f n.ref = [target]) :
    ∃ v, w.resolveType f t = .ok v := by
  induction t using TypeExpr.ind with
  | mk r nullable args span ih =>
    cases hp : (TypeExpr.mk r nullable args span).primitive? with
    | none =>
      obtain ⟨target, htarget⟩ := h _ (TypeExpr.self_mem_nodes _) hp
      exact ⟨_, (resolveType_custom hp).2 ⟨target.id, resolveId_of_findRef htarget, rfl⟩⟩
    | some p =>
      have hargs : ∀ a ∈ args, ∃ v, w.resolveType f a = .ok v := fun a ha =>
        ih a ha fun n hn => h n (TypeExpr.mem_nodes_of_mem_args ha hn)
      obtain ⟨vs, hvs⟩ := exists_mapM_eq_ok hargs
      exact ⟨_, (resolveType_primitive hp).2 ⟨vs, mapM_eq_ok_iff.1 hvs, rfl⟩⟩

/-- The type of an accepted field resolves. -/
theorem exists_resolveFieldType (h : s.Accepted w f) {field : FieldDecl}
    (hfield : field ∈ s.decl.fields) : ∃ o, w.resolveFieldType f s field = .ok o := by
  by_cases henum : s.decl.modifier = .enum
  · exact ⟨none, resolveFieldType_eq_ok_iff.2 (.inl ⟨henum, rfl⟩)⟩
  · cases ht : field.valueType with
    | none => exact absurd ((h.typed field hfield).1 ht) henum
    | some t =>
      have hnames : ∀ n ∈ t.nodes, n.primitive? = none →
          ∃ target, w.findRef f n.ref = [target] := by
        intro n hn hp
        obtain ⟨target, htarget, -⟩ := h.references n (TypeDecl.mem_typeNodes hfield ht hn) hp
        exact ⟨target, htarget⟩
      obtain ⟨v, hv⟩ := exists_resolveType t hnames
      exact ⟨some v, resolveFieldType_eq_ok_iff.2 (.inr ⟨henum, t, v, ht, hv, rfl⟩)⟩

theorem exists_resolveField (h : s.Accepted w f) {field : FieldDecl × Option Int64}
    (hfield : field ∈ s.decl.fields.zip s.decl.indexes) :
    ∃ d, w.resolveField f s field = .ok d := by
  obtain ⟨indexes, hindexes, -⟩ := h.indexes
  obtain ⟨hmem, hindex⟩ := List.of_mem_zip hfield
  rw [hindexes] at hindex
  obtain ⟨index, -, hindex⟩ := List.mem_map.1 hindex
  obtain ⟨o, ho⟩ := exists_resolveFieldType h hmem
  exact ⟨_, resolveField_eq_ok_iff.2 ⟨index, o, hindex.symm, ho, rfl⟩⟩

theorem exists_resolveBase (h : s.Accepted w f) :
    ∃ baseId, s.decl.base.mapM (w.resolveId f) = .ok baseId := by
  cases hbase : s.decl.base with
  | none => exact ⟨none, rfl⟩
  | some r =>
    obtain ⟨-, t, ht, -⟩ := h.base r hbase
    exact ⟨some t.id, mapM_resolveId_eq_ok_iff.2
      (.inr ⟨r, t.id, rfl, resolveId_of_findRef ht, rfl⟩)⟩

/-- An accepted type resolves. -/
theorem exists_resolveSymbol (h : s.Accepted w f) : ∃ t, w.resolveSymbol f s = .ok t := by
  obtain ⟨baseId, hbase⟩ := exists_resolveBase h
  obtain ⟨fields, hfields⟩ := exists_mapM_eq_ok fun _ hfield => exists_resolveField h hfield
  exact ⟨_, resolveSymbol_eq_ok_iff.2 ⟨baseId, fields, hbase, mapM_eq_ok_iff.1 hfields, rfl⟩⟩

/-- A file of accepted declarations compiles. -/
theorem exists_compileFile (h : ∀ s ∈ f.symbols, s.Accepted w f) :
    ∃ c, w.compileFile f = .ok c := by
  obtain ⟨types, htypes⟩ := exists_mapM_eq_ok fun s hs => exists_resolveSymbol (h s hs)
  let c : CompiledFile := ⟨"", Path.name f.file.path, f.file.fullPath, types⟩
  exact ⟨{ c with id := c.contentId },
    compileFile_eq_ok_iff.2 ⟨mapM_eq_ok_iff.1 htypes, rfl, rfl, rfl⟩⟩

/-- A workspace in which every type is accepted has a snapshot. -/
theorem exists_snapshot (h : w.IsAccepted) (version : UInt32) :
    ∃ snap, w.snapshot version = .ok snap := by
  have hfiles : ∀ f ∈ w.filesByPackage, ∃ c, w.compileFile f = .ok c := fun f hf =>
    exists_compileFile (h f (mem_files_of_mem_filesByPackage hf))
  obtain ⟨files, hfiles⟩ := exists_mapM_eq_ok hfiles
  rw [snapshot, hfiles]
  exact ⟨_, rfl⟩

end Schemata.Workspace

/-! ## Snapshots and diagnostics -/

namespace Schemata

/-- What resolving asks of a type: each of its references denotes one type, each field has an index,
and outside of enums each field has a value type. -/
structure Symbol.Resolvable (w : Workspace) (f : FileScope) (s : Symbol) : Prop where
  base : ∀ r, s.decl.base = some r → ∃ t, w.findRef f r = [t]
  references : ∀ t ∈ s.decl.typeNodes, t.primitive? = none → ∃ target, w.findRef f t.ref = [target]
  indexes : s.decl.indexes.length = s.decl.fields.length ∧ ∀ i ∈ s.decl.indexes, i.isSome
  typed : s.decl.modifier ≠ .enum → ∀ field ∈ s.decl.fields, field.valueType.isSome

/-- Everything that an accepted declaration names can be resolved. -/
theorem Symbol.Accepted.resolvable {w : Workspace} {f : FileScope} {s : Symbol}
    (h : s.Accepted w f) : s.Resolvable w f where
  base := fun r hr => by
    obtain ⟨-, t, ht, -⟩ := h.base r hr
    exact ⟨t, ht⟩
  references := fun t ht hp => by
    obtain ⟨target, htarget, -⟩ := h.references t ht hp
    exact ⟨target, htarget⟩
  indexes := by
    refine ⟨s.decl.length_indexes, fun i hi => ?_⟩
    obtain ⟨indexes, hindexes, -⟩ := h.indexes
    rw [hindexes] at hi
    obtain ⟨index, -, rfl⟩ := List.mem_map.1 hi
    rfl
  typed := fun hm field hfield =>
    Option.isSome_iff_ne_none.2 fun hnone => hm ((h.typed field hfield).1 hnone)

namespace Compilation

variable {settings : Settings} {sources : List SourceFile} {c : Compilation}

/-- A valid compilation has a snapshot. -/
theorem exists_snapshot_of_isValid (h : ofSources settings sources = .ok c) (hv : c.isValid) :
    ∃ s, c.snapshot = .ok s := by
  rw [snapshot_of_isValid hv]
  exact Workspace.exists_snapshot (isAccepted_of_isValid h hv) _

/-- An invalid compilation fails with its own diagnostics, all of them. -/
theorem snapshot_of_not_isValid (hv : c.isValid = false) :
    c.snapshot = .error (.compileFailed c.diagnostics) := by
  rw [snapshot, hv]
  rfl

/-- Sources that link compile under any settings that hold good. What comes of it is a snapshot if
the compilation is valid, and just its diagnostics if it is not; it is never an internal error. -/
theorem outcome_of_link {w : Workspace} {ds : List Diagnostic}
    (hsettings : settings.validate = .ok ()) (hlink : Workspace.link sources = .ok (w, ds)) :
    ∃ c, ofSources settings sources = .ok c ∧ c.workspace = w ∧
      c.diagnostics = Diagnostic.sort (ds ++ analyze w settings) ∧
      (c.isValid = true →
        (∃ s, c.snapshot = .ok s) ∧ ∀ f ∈ w.files, ∀ s ∈ f.symbols, s.Resolvable w f) ∧
      (c.isValid = false → c.snapshot = .error (.compileFailed c.diagnostics)) ∧
      ∀ file fault, c.snapshot ≠ .error (.internal file fault) := by
  let c : Compilation := ⟨settings, w, ds, Diagnostic.sort (ds ++ analyze w settings)⟩
  have hc : ofSources settings sources = .ok c :=
    ofSources_eq_ok_iff.2 ⟨hsettings, w, ds, hlink, rfl⟩
  refine ⟨c, hc, rfl, rfl, fun hv => ⟨exists_snapshot_of_isValid hc hv, ?_⟩,
    snapshot_of_not_isValid, fun file fault => ?_⟩
  · exact fun f hf s hs => (isAccepted_of_isValid hc hv f hf s hs).resolvable
  · cases hv : c.isValid with
    | true =>
      obtain ⟨s, hs⟩ := exists_snapshot_of_isValid hc hv
      simp [hs]
    | false => simp [snapshot_of_not_isValid hv]

end Compilation

/-- A source that uses no package and declares each type once links by itself. -/
theorem Workspace.link_singleton {source : SourceFile} (hcanonical : source.canonical = source)
    (huses : source.uses = []) (hnodup : (source.symbols.map symbolKey).Nodup) :
    link [source] = .ok (⟨[source.scope]⟩, []) := by
  have harrange : arrange [source] = [source] :=
    arrange_eq_self (List.forall_mem_singleton.2 hcanonical) (List.pairwise_singleton _ _)
  have hkept : source.symbols.filter (·.file == source.file) = source.symbols := by
    refine List.filter_eq_self.2 fun s hs => ?_
    obtain ⟨d, -, rfl⟩ := List.mem_map.1 hs
    exact beq_self_eq_true source.file
  have himports : source.scope.imports = [] := by
    rw [SourceFile.scope, huses, List.map_nil]
  have hbare : bareScope source.symbols source = source.scope := by
    rw [bareScope, hkept, SourceFile.scope, huses, List.map_nil]
  have hassemble : assemble [source] = .ok (⟨[source.scope]⟩, []) := by
    refine assemble_eq_ok_iff.2 ⟨by simp, ?_, ?_, ?_⟩
    · rw [harrange]
      rfl
    · rw [harrange, List.flatMap_singleton, firsts_eq_self hnodup, List.map_singleton, hbare]
    · rw [harrange, List.flatMap_singleton, repeats_eq_nil_iff.2 hnodup, List.map_nil]
  have hresolve : (⟨[source.scope]⟩ : Workspace).resolveImports = (⟨[source.scope]⟩, []) := by
    simp [resolveImports, importsOf, acceptUses, SourceFile.scope, huses]
  have hcycles : (⟨[source.scope]⟩ : Workspace).importCycles = [] := by
    refine importCycles_eq_nil_of_not_imports ?_
    rintro p q ⟨f, hf, -, i, hi, -⟩
    rw [List.mem_singleton.1 hf, himports] at hi
    cases hi
  refine link_eq_ok_iff.2 ⟨_, [], hassemble, by rw [hresolve], ?_⟩
  rw [hresolve, hcycles]
  simp [collisions, broughtIn, FileScope.importsAs, himports, collisionsAfter]

/-! ### A base and a struct that extends it -/

namespace Sample

def ident (name : String) : Ident := ⟨name, ⟨⟨1, 1⟩, ⟨1, 1⟩⟩⟩

def typeRef (name : String) (qualifier : Option String) : TypeRef :=
  ⟨name, qualifier, (ident name).span⟩

def valueType (name : String) (qualifier : Option String) (args : List TypeExpr) : TypeExpr :=
  .mk (typeRef name qualifier) false args (ident name).span

def field (name : String) (valueType : TypeExpr) : FieldDecl :=
  ⟨ident name, none, some valueType, [], [], (ident name).span⟩

def entity : SourceFile :=
  ⟨⟨"common", "entity.nex"⟩, [],
    [⟨ident "Entity", .base, none, [field "id" (valueType "string" none [])], [], [], [],
      (ident "Entity").span⟩]⟩

/-- A struct that extends the base and has a list of links to values of it. -/
def user : SourceFile :=
  ⟨⟨"identity", "user.nex"⟩, [⟨"common", some (ident "c"), (ident "c").span⟩],
    [⟨ident "User", .struct, some (typeRef "Entity" (some "c")),
      [field "links" (valueType "list" none [valueType "Entity" (some "c") []])], [], [], [],
      (ident "User").span⟩]⟩

/-- The workspace before its imports are resolved. -/
def unlinked : Workspace :=
  ⟨[⟨entity.file, entity.uses, entity.symbols, []⟩, ⟨user.file, user.uses, user.symbols, []⟩]⟩

def workspace : Workspace := ⟨[entity.scope, user.scope]⟩

theorem normalize_common : Path.normalize "common" = "common" := rfl

theorem arrange_sources : Workspace.arrange [entity, user] = [entity, user] := by
  refine Workspace.arrange_eq_self ?_ (by decide)
  intro s hs
  rcases List.mem_pair.1 hs with rfl | rfl
  · rfl
  · rfl

theorem assemble_sources : Workspace.assemble [entity, user] = .ok (unlinked, []) := by
  have hnodup : (([entity, user].flatMap (·.symbols)).map Workspace.symbolKey).Nodup := by
    show [("common", "Entity"), ("identity", "User")].Nodup
    decide
  refine Workspace.assemble_eq_ok_iff.2 ⟨by simp, ?_, ?_, ?_⟩
  · rw [arrange_sources]
    decide
  · rw [arrange_sources, firsts_eq_self hnodup]
    rfl
  · rw [arrange_sources, repeats_eq_nil_iff.2 hnodup]
    rfl

theorem edgesFrom_workspace (p : String) : workspace.edgesFrom p =
    if p = "identity" then [⟨user.file, ⟨"common", some (ident "c"), (ident "c").span⟩⟩]
    else [] := by
  by_cases hcommon : p = "common"
  · simp [hcommon, Workspace.edgesFrom, Workspace.filesOf, workspace,
      SourceFile.scope, entity, user, firsts, Repeats.firstsAfter]
  · by_cases hidentity : p = "identity"
    · simp [hidentity, Workspace.edgesFrom, Workspace.filesOf, workspace, SourceFile.scope, entity,
        user, UseDecl.toImport, normalize_common, firsts, Repeats.firstsAfter]
    · simp [hidentity, Ne.symm hcommon, Ne.symm hidentity, Workspace.edgesFrom, Workspace.filesOf,
        workspace, SourceFile.scope, entity, user, firsts, Repeats.firstsAfter]

theorem importCycles_workspace : workspace.importCycles = [] := by
  have hpackages : workspace.packages = ["", "common", "identity"] := by cbv
  have hsort : ["", "common", "identity"].mergeSort (fun a b => a ≤ b) =
      ["", "common", "identity"] :=
    List.mergeSort_of_pairwise (by decide)
  simp [Workspace.importCycles, hsort, hpackages, Workspace.searchFrom, edgesFrom_workspace,
    ImportEdge.target, ImportEdge.source, user]

theorem link_sources : Workspace.link [entity, user] = .ok (workspace, []) := by
  have huses : unlinked.resolveImports.2 = [] := rfl
  have hcollisions : workspace.files.flatMap workspace.collisions = [] := rfl
  refine Workspace.link_eq_ok_iff.2 ⟨unlinked, [], assemble_sources, ?_, ?_⟩
  · rw [Workspace.resolveImports_of_reports_eq_nil huses]
    rfl
  · rw [huses, importCycles_workspace, hcollisions]
    rfl

def compilation : Compilation := ⟨.standard, workspace, [], []⟩

theorem ofSources_sources : Compilation.ofSources .standard [entity, user] = .ok compilation := by
  have hanalyze : analyze workspace .standard = [] := rfl
  refine Compilation.ofSources_eq_ok_iff.2 ⟨rfl, workspace, [], link_sources, ?_⟩
  rw [hanalyze, List.nil_append, Diagnostic.sort, List.mergeSort_nil]
  rfl

theorem exists_snapshot : ∃ s, compilation.snapshot = .ok s :=
  Compilation.exists_snapshot_of_isValid ofSources_sources rfl

/-- The two sources link and have a snapshot. -/
theorem outcome_of_sources : ∃ c s, Compilation.ofSources .standard [entity, user] = .ok c ∧
    c.snapshot = .ok s := by
  have hsettings : Settings.standard.validate = .ok () := rfl
  obtain ⟨c, hc, -, -, hvalid, -⟩ := Compilation.outcome_of_link hsettings link_sources
  obtain rfl : compilation = c := Except.ok.inj (ofSources_sources.symm.trans hc)
  obtain ⟨⟨s, hs⟩, -⟩ := hvalid rfl
  exact ⟨compilation, s, hc, hs⟩

end Sample

end Schemata
