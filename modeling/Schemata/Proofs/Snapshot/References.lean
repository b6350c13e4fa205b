import Mathlib.Data.List.Perm.Basic
import Schemata.Proofs.Compilation.Outcome
import Schemata.Proofs.Fingerprint.Records
import Schemata.Proofs.Scope.Denotation

/-!
# References in snapshots

In a snapshot a reference is an id. It is the id of the definition of the one declaration that the
reference denotes, and as long as no two declarations have streams that collide, there is no other
definition with that id.
-/

namespace Schemata

/-! ## Resolved forms of value types -/

/-- A value type with ids in place of its names: the arguments of primitives are resolved in turn,
and the id of a name is one that the name refers to. -/
inductive Resolves (refers : TypeRef → String → Prop) : TypeExpr → ResolvedType → Prop where
  | primitive {r : TypeRef} {nullable : Bool} {args : List TypeExpr} {span : Span} {p : Primitive}
      {vs : List ResolvedType} (word : (TypeExpr.mk r nullable args span).primitive? = some p)
      (arguments : List.Forall₂ (Resolves refers) args vs) :
      Resolves refers (.mk r nullable args span) (.primitive p nullable vs)
  | custom {r : TypeRef} {nullable : Bool} {span : Span} {id : String}
      (word : (TypeExpr.mk r nullable [] span).primitive? = none) (reference : refers r id) :
      Resolves refers (.mk r nullable [] span) (.custom id nullable r.qualifier)

namespace Workspace

variable {w : Workspace}

/-- Resolving yields the resolved form, if it does so for names. -/
theorem resolves_of_resolveType {s : FileScope} {refers : TypeRef → String → Prop} {t : TypeExpr}
    {v : ResolvedType} (h : w.resolveType s t = .ok v)
    (hrefers : ∀ n ∈ t.nodes, n.primitive? = none →
      n.args = [] ∧ ∀ id, w.resolveId s n.ref = .ok id → refers n.ref id) :
    Resolves refers t v := by
  induction t using TypeExpr.ind generalizing v with
  | mk r nullable args span ih =>
    cases hp : (TypeExpr.mk r nullable args span).primitive? with
    | none =>
      obtain ⟨id, hid, rfl⟩ := (resolveType_custom hp).1 h
      obtain ⟨hargs, hname⟩ := hrefers _ (TypeExpr.self_mem_nodes _) hp
      obtain rfl : args = [] := hargs
      exact .custom hp (hname id hid)
    | some p =>
      obtain ⟨vs, hvs, rfl⟩ := (resolveType_primitive hp).1 h
      have hargs : ∀ a ∈ args, ∀ v, w.resolveType s a = .ok v → Resolves refers a v := by
        intro a ha v hv
        exact ih a ha hv fun n hn => hrefers n (TypeExpr.mem_nodes_of_mem_args ha hn)
      refine .primitive hp ?_
      exact ((List.forall₂_and_left args vs).2 ⟨hargs, hvs⟩).imp fun a v hav => hav.1 v hav.2

/-! ## Definitions -/

/-- The definition of a declaration in the snapshot of a workspace. -/
def definition (w : Workspace) (f : SourceFile) (d : TypeDecl) : TypeDef :=
  match w.resolveSymbol f.canonical.scope (f.symbolOf d) with
  | .ok t => t
  | .error _ => typeDef (f.symbolOf d) none []

/-- The definition of a declaration is what it resolves to. -/
theorem definition_eq {f : SourceFile} {d : TypeDecl} {t : TypeDef}
    (h : w.resolveSymbol f.canonical.scope (f.symbolOf d) = .ok t) : w.definition f d = t := by
  rw [definition, h]

variable {sources : List SourceFile} {snap : Snapshot} {version : UInt32}

theorem Mirrors.isCanonical (hw : w.Mirrors sources) : w.IsCanonical := by
  intro s hs
  obtain ⟨f, -, rfl⟩ := hw.exists_source_of_mem_files hs
  exact Path.normalize_normalize f.file.path

/-- A snapshot holds the compiled form of every source, and nothing else. -/
theorem Mirrors.exists_files (hw : w.Mirrors sources) (h : w.snapshot version = .ok snap) :
    ∃ files : List CompiledFile, files.Perm snap.files ∧
      List.Forall₂ (fun f c => w.compileFile f.canonical.scope = .ok c) sources files := by
  obtain ⟨files, hfiles, hsort, -⟩ := snapshot_eq_ok_iff.1 h
  have hscopes : (sources.map fun f => f.canonical.scope).Perm w.filesByPackage := by
    have harrange := ((arrange_perm sources).map (·.scope)).symm
    rw [List.map_map, ← hw.files] at harrange
    exact harrange.trans (filesByPackage_perm hw.isCanonical).symm
  obtain ⟨files', hfiles', hperm⟩ := List.perm_comp_forall₂ hscopes hfiles
  refine ⟨files', hperm.trans ?_, List.forall₂_map_left_iff.1 hfiles'⟩
  rw [hsort]
  exact (List.mergeSort_perm _ _).symm

/-- The types of a compiled file are the definitions of those that the file declares. -/
theorem types_of_compileFile {f : SourceFile} {c : CompiledFile}
    (h : w.compileFile f.canonical.scope = .ok c) : c.types = f.types.map (w.definition f) := by
  have htypes := (compileFile_eq_ok_iff.1 h).1
  rw [Mirrors.symbols_scope, List.forall₂_map_left_iff] at htypes
  have heq : List.Forall₂ Eq (f.types.map (w.definition f)) c.types :=
    List.forall₂_map_left_iff.2 (htypes.imp fun d t hd => definition_eq hd)
  rw [List.forall₂_eq_eq_eq] at heq
  exact heq.symm

theorem flatMap_types_of_forall₂ {files : List CompiledFile}
    (h : List.Forall₂ (fun f c => w.compileFile f.canonical.scope = .ok c) sources files) :
    files.flatMap (·.types) = sources.flatMap fun f => f.types.map (w.definition f) := by
  induction h with
  | nil => rfl
  | cons hc _ ih => rw [List.flatMap_cons, List.flatMap_cons, types_of_compileFile hc, ih]

/-- A snapshot holds the definition of every declaration, and no other type. -/
theorem Mirrors.types_perm (hw : w.Mirrors sources) (h : w.snapshot version = .ok snap) :
    snap.types.Perm (sources.flatMap fun f => f.types.map (w.definition f)) := by
  obtain ⟨files, hperm, hfiles⟩ := hw.exists_files h
  rw [← flatMap_types_of_forall₂ hfiles, Snapshot.types]
  exact hperm.symm.flatMap_right _

/-- The definition of every declaration is among the types of the snapshot. -/
theorem Mirrors.definition_mem_types (hw : w.Mirrors sources) (h : w.snapshot version = .ok snap)
    {f : SourceFile} {d : TypeDecl} (hf : f ∈ sources) (hd : d ∈ f.types) :
    w.definition f d ∈ snap.types :=
  (hw.types_perm h).mem_iff.2 (List.mem_flatMap.2 ⟨f, hf, List.mem_map_of_mem hd⟩)

end Workspace

/-! ## What a snapshot says of a declaration -/

namespace Snapshot

/-- In a snapshot, the id for a reference in the file `f` is that of the definition of the
declaration that the reference denotes. -/
structure RefersTo (snap : Snapshot) (sources : List SourceFile)
    (definition : SourceFile → TypeDecl → TypeDef) (f : SourceFile) (r : TypeRef) (id : String)
    (g : SourceFile) (e : TypeDecl) : Prop where
  denotes : Denotes sources f r g e
  mem : definition g e ∈ snap.types
  id : (definition g e).id = id

/-- A snapshot defines a type as the file `f` declares it. The type extends a base, and no field
refers back to the type. -/
structure Defines (snap : Snapshot) (sources : List SourceFile)
    (definition : SourceFile → TypeDecl → TypeDef) (f : SourceFile) (d : TypeDecl) : Prop where
  mem : definition f d ∈ snap.types
  id : (definition f d).id = d.id f.package
  name : (definition f d).name = d.name.name
  modifier : (definition f d).modifier = d.modifier
  base : Option.Rel
    (fun r id => ∃ g e, snap.RefersTo sources definition f r id g e ∧ e.modifier = .base)
    d.base (definition f d).baseId
  fields : List.Forall₂
    (fun field fieldDef => fieldDef.name = field.name.name ∧
      Option.Rel
        (Resolves fun r id =>
          ∃ g e, snap.RefersTo sources definition f r id g e ∧ ¬(g = f ∧ e = d))
        field.valueType fieldDef.valueType)
    d.fields (definition f d).fields

/-- A type that extends another one has the id of the definition of that one. -/
theorem Defines.exists_base {snap : Snapshot} {sources : List SourceFile}
    {definition : SourceFile → TypeDecl → TypeDef} {f : SourceFile} {d : TypeDecl}
    (h : snap.Defines sources definition f d) {r : TypeRef} (hr : d.base = some r) :
    ∃ g e, Denotes sources f r g e ∧ (definition f d).baseId = some (definition g e).id := by
  have hbase := h.base
  rw [hr] at hbase
  cases hid : (definition f d).baseId with
  | none =>
    rw [hid] at hbase
    cases hbase
  | some id =>
    rw [hid] at hbase
    cases hbase with
    | some hrefers =>
      obtain ⟨g, e, hrefers, -⟩ := hrefers
      exact ⟨g, e, hrefers.denotes, by rw [hrefers.id]⟩

end Snapshot

namespace Workspace.Mirrors

variable {w : Workspace} {sources : List SourceFile} {snap : Snapshot} {version : UInt32}
  {f : SourceFile} {d : TypeDecl}

/-- What an id comes from that a reference has resolved to. -/
theorem refersTo_of_resolveId (hw : w.Mirrors sources) (h : w.snapshot version = .ok snap)
    (haccepted : w.IsAccepted) (hf : f ∈ sources) {r : TypeRef}
    {t : Symbol} (ht : w.findRef f.canonical.scope r = [t]) {id : String}
    (hid : w.resolveId f.canonical.scope r = .ok id) :
    ∃ g e, t = g.symbolOf e ∧ snap.RefersTo sources w.definition f r id g e := by
  obtain ⟨g, e, rfl, hdenotes⟩ := hw.denotes_of_findRef hf ht
  obtain ⟨hg, he⟩ := hdenotes.mem hf
  refine ⟨g, e, rfl, hdenotes, hw.definition_mem_types h hg he, ?_⟩
  obtain ⟨t', ht', rfl⟩ := resolveId_eq_ok_iff.1 hid
  obtain rfl := List.singleton_inj.1 (ht.symm.trans ht')
  obtain ⟨t, hresolve⟩ :=
    exists_resolveSymbol (haccepted _ (hw.scope_mem_files hg) _ (symbolOf_mem_scope he))
  obtain ⟨_, _, _, _, rfl⟩ := resolveSymbol_eq_ok_iff.1 hresolve
  rw [definition_eq hresolve, typeDef]

/-- The base of a type. -/
theorem base_of_mapM_resolveId (hw : w.Mirrors sources) (h : w.snapshot version = .ok snap)
    (haccepted : w.IsAccepted) (hf : f ∈ sources)
    (hd : (f.symbolOf d).Accepted w f.canonical.scope) {baseId : Option String}
    (hbase : d.base.mapM (w.resolveId f.canonical.scope) = .ok baseId) :
    Option.Rel
      (fun r id => ∃ g e, snap.RefersTo sources w.definition f r id g e ∧ e.modifier = .base)
      d.base baseId := by
  rcases mapM_resolveId_eq_ok_iff.1 hbase with ⟨hnone, rfl⟩ | ⟨r, id, hr, hid, rfl⟩
  · rw [hnone]
    exact .none
  · obtain ⟨-, t, ht, hmodifier⟩ := hd.base r hr
    obtain ⟨g, e, rfl, hrefers⟩ := hw.refersTo_of_resolveId h haccepted hf ht hid
    rw [hr]
    exact .some ⟨g, e, hrefers, hmodifier⟩

/-- The value type of a field. -/
theorem valueType_of_resolveFieldType (hw : w.Mirrors sources) (h : w.snapshot version = .ok snap)
    (haccepted : w.IsAccepted) (hf : f ∈ sources)
    (hd : (f.symbolOf d).Accepted w f.canonical.scope) {field : FieldDecl}
    (hfield : field ∈ d.fields) {o : Option ResolvedType}
    (ho : w.resolveFieldType f.canonical.scope (f.symbolOf d) field = .ok o) :
    Option.Rel
      (Resolves fun r id =>
        ∃ g e, snap.RefersTo sources w.definition f r id g e ∧ ¬(g = f ∧ e = d))
      field.valueType o := by
  rcases resolveFieldType_eq_ok_iff.1 ho with ⟨henum, rfl⟩ | ⟨-, t, v, ht, hv, rfl⟩
  · rw [(hd.typed field hfield).2 henum]
    exact .none
  · rw [ht]
    refine .some (resolves_of_resolveType hv fun n hn hp => ?_)
    have hnode : n ∈ d.typeNodes := TypeDecl.mem_typeNodes hfield ht hn
    have hargs : n.args = [] := by
      have hfit := hd.arguments n hnode
      rwa [TypeExpr.ArgumentsFit, hp] at hfit
    refine ⟨hargs, fun id hid => ?_⟩
    obtain ⟨target, htarget, hother⟩ := hd.references n hnode hp
    obtain ⟨g, e, rfl, hrefers⟩ := hw.refersTo_of_resolveId h haccepted hf htarget hid
    refine ⟨g, e, hrefers, ?_⟩
    rintro ⟨rfl, rfl⟩
    simp [Symbol.isSame] at hother

/-- A snapshot defines every type as it is declared. -/
theorem defines (hw : w.Mirrors sources) (h : w.snapshot version = .ok snap)
    (haccepted : w.IsAccepted) (hf : f ∈ sources)
    (hd : d ∈ f.types) : snap.Defines sources w.definition f d := by
  have hacc := haccepted _ (hw.scope_mem_files hf) _ (symbolOf_mem_scope hd)
  obtain ⟨t, hresolve⟩ := exists_resolveSymbol hacc
  obtain ⟨baseId, fields, hbase, hfields, rfl⟩ := resolveSymbol_eq_ok_iff.1 hresolve
  have hdef := definition_eq hresolve
  refine ⟨hw.definition_mem_types h hf hd, ?_, ?_, ?_, ?_, ?_⟩
  · rw [hdef]
    rfl
  · rw [hdef]
    rfl
  · rw [hdef]
    rfl
  · rw [hdef]
    exact hw.base_of_mapM_resolveId h haccepted hf hacc hbase
  · rw [hdef]
    have hzip := forall₂_of_zip d.length_indexes hfields
    refine ((List.forall₂_and_left _ _).2 ⟨fun field hfield => hfield, hzip⟩).imp ?_
    rintro field _ ⟨hfield, index, hresolved⟩
    obtain ⟨_, o, -, ho, rfl⟩ := resolveField_eq_ok_iff.1 hresolved
    exact ⟨rfl, hw.valueType_of_resolveFieldType h haccepted hf hacc hfield ho⟩

end Workspace.Mirrors

/-! ## Ids of types -/

/-- The streams behind the ids of all declared types. -/
def declaredStreams (sources : List SourceFile) : List (List UInt8) :=
  sources.flatMap fun f => f.types.map (Stream.typeDecl f.package)

/-- The lengths of the names of all declared types and of their packages. A 64-bit word can state
the length of any text that fits in memory. -/
def declaredLengths (sources : List SourceFile) : List Nat :=
  sources.flatMap fun f => f.types.flatMap fun d =>
    Lengths.text f.package ++ Lengths.text d.name.name

namespace Workspace.Mirrors

variable {w : Workspace} {sources : List SourceFile} {snap : Snapshot} {version : UInt32}

/-- Declared types have different ids. -/
theorem nodup_ids_symbols (hw : w.Mirrors sources) (hfree : CollisionFree (declaredStreams sources))
    (hfits : Stream.Fits (declaredLengths sources)) :
    ((sources.flatMap fun f => f.types.map f.symbolOf).map Symbol.id).Nodup := by
  refine nodup_map_of_imp hw.nodup_keys_symbols fun a ha b hb e => ?_
  obtain ⟨f, hf, ha⟩ := List.mem_flatMap.1 ha
  obtain ⟨d, hd, rfl⟩ := List.mem_map.1 ha
  obtain ⟨g, hg, hb⟩ := List.mem_flatMap.1 hb
  obtain ⟨d', hd', rfl⟩ := List.mem_map.1 hb
  simp only [declaredLengths, Stream.fits_flatMap] at hfits
  have hstream : Stream.typeDecl f.package d = Stream.typeDecl g.package d' :=
    hfree.eq_of_fingerprint_eq (List.mem_flatMap.2 ⟨f, hf, List.mem_map_of_mem hd⟩)
      (List.mem_flatMap.2 ⟨g, hg, List.mem_map_of_mem hd'⟩) e
  obtain ⟨hpackage, hname⟩ :=
    Stream.key_of_typeDecl_eq (hfits f hf d hd) (hfits g hg d' hd') hstream
  exact Prod.ext hpackage hname

/-- The types of a snapshot have different ids. -/
theorem nodup_ids_types (hw : w.Mirrors sources) (h : w.snapshot version = .ok snap)
    (hdefines : ∀ f ∈ sources, ∀ d ∈ f.types, (w.definition f d).id = (f.symbolOf d).id)
    (hfree : CollisionFree (declaredStreams sources))
    (hfits : Stream.Fits (declaredLengths sources)) :
    (snap.types.map (·.id)).Nodup := by
  have hids : (sources.flatMap fun f => f.types.map (w.definition f)).map (·.id) =
      (sources.flatMap fun f => f.types.map f.symbolOf).map Symbol.id := by
    simp only [List.map_flatMap, List.map_map]
    refine List.flatMap_congr fun f hf => List.map_congr_left fun d hd => ?_
    exact hdefines f hf d hd
  refine ((hw.types_perm h).map (·.id)).nodup_iff.2 ?_
  rw [hids]
  exact hw.nodup_ids_symbols hfree hfits

end Workspace.Mirrors

/-- A snapshot has one definition for every declared type, in the file that declares it. Each
reference in it is the id of the definition that the reference denotes; and unless streams collide,
the type with that id is this one. -/
theorem Compilation.exists_definition {settings : Settings} {sources : List SourceFile}
    {c : Compilation} {snap : Snapshot} (hc : ofSources settings sources = .ok c)
    (hsnap : c.snapshot = .ok snap) :
    ∃ definition : SourceFile → TypeDecl → TypeDef,
      (∃ files : List CompiledFile, files.Perm snap.files ∧
        List.Forall₂ (fun f file => file.path = f.canonical.file.fullPath ∧
          file.types = f.types.map (definition f)) sources files) ∧
      (∀ f ∈ sources, ∀ d ∈ f.types, snap.Defines sources definition f d) ∧
      (CollisionFree (declaredStreams sources) → Stream.Fits (declaredLengths sources) →
        (snap.types.map (·.id)).Nodup ∧
          ∀ f ∈ sources, ∀ d ∈ f.types,
            snap.typeById? (definition f d).id = some (definition f d)) := by
  have hv := isValid_of_snapshot hsnap
  have hw := mirrors_of_isValid hc hv
  have haccepted := isAccepted_of_isValid hc hv
  rw [snapshot_of_isValid hv] at hsnap
  have hdefines : ∀ f ∈ sources, ∀ d ∈ f.types,
      snap.Defines sources c.workspace.definition f d := fun f hf d hd =>
    hw.defines hsnap haccepted hf hd
  refine ⟨c.workspace.definition, ?_, hdefines, fun hfree hfits => ?_⟩
  · obtain ⟨files, hperm, hfiles⟩ := hw.exists_files hsnap
    refine ⟨files, hperm, hfiles.imp fun f file hfile => ⟨?_, Workspace.types_of_compileFile hfile⟩⟩
    exact (Workspace.compileFile_eq_ok_iff.1 hfile).2.2.1
  · have hnodup := hw.nodup_ids_types hsnap (fun f hf d hd => (hdefines f hf d hd).id) hfree hfits
    exact ⟨hnodup, fun f hf d hd => find?_key_eq_self hnodup (hdefines f hf d hd).mem⟩

namespace Sample

/-- The struct of the sample extends the base of the sample, which is found by the id. -/
theorem exists_base_of_user : ∃ snap t b, compilation.snapshot = .ok snap ∧
    t ∈ snap.types ∧ t.name = "User" ∧ t.baseId = some b.id ∧
    b.name = "Entity" ∧ snap.typeById? b.id = some b := by
  obtain ⟨snap, hsnap⟩ := exists_snapshot
  obtain ⟨definition, -, hdefines, hids⟩ := Compilation.exists_definition ofSources_sources hsnap
  have huser : user ∈ [entity, user] := by simp
  have hdecl : ∃ d ∈ user.types, d.name.name = "User" ∧ d.base =
      some (typeRef "Entity" (some "c")) :=
    ⟨_, List.mem_cons_self, rfl, rfl⟩
  obtain ⟨d, hd, hname, hbase⟩ := hdecl
  have hdef := hdefines user huser d hd
  obtain ⟨g, e, hdenotes, hid⟩ := hdef.exists_base hbase
  obtain ⟨hg, he⟩ := hdenotes.mem huser
  have hfound := (hids (.of_nodup (by decide +kernel)) (by decide +kernel)).2 g hg e he
  exact ⟨snap, definition user d, definition g e, hsnap, hdef.mem, hdef.name.trans hname, hid,
    (hdefines g hg e he).name.trans hdenotes.name_eq, hfound⟩

end Sample

end Schemata
