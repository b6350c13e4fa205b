import Schemata.Proofs.Scope.Plain
import Schemata.Proofs.Snapshot.Correspondence

/-!
# Sources whose parts are moved about

Neither the places in a source nor whether an index in effect is written out have a part in what
comes of it.
-/

/-!
## Snapshots do not show places

Whatever a declaration resolves to, its plain form resolves to as well: places do not get into a
snapshot, and of the indexes only those in effect do.
-/

namespace Schemata.Workspace

variable {w : Workspace} {f : FileScope} {s : Symbol}

/-- The map of a block holds no place, so the plain block has the same one. -/
theorem assignmentMap_plain (block : List Assignment) :
    assignmentMap (block.map (·.plain)) = assignmentMap block := by
  rw [assignmentMap, assignmentMap, List.map_map]
  rfl

theorem resolveId_plain_eq_ok_iff {r : TypeRef} {id : String} :
    w.plain.resolveId f.plain r.plain = .ok id ↔ w.resolveId f r = .ok id := by
  rw [resolveId_eq_ok_iff, resolveId_eq_ok_iff]
  refine exists_findRef_plain_iff fun t => ?_
  rw [Symbol.id_plain]

/-- A type resolves in the plain workspace exactly to what it resolves to in the workspace. -/
theorem resolveType_plain_eq_ok_iff {t : TypeExpr} {v : ResolvedType} :
    w.plain.resolveType f.plain t.plain = .ok v ↔ w.resolveType f t = .ok v := by
  induction t using TypeExpr.ind generalizing v with
  | mk r nullable args span ih =>
    have hplain := TypeExpr.primitive?_plain (.mk r nullable args span)
    rw [TypeExpr.plain_mk] at hplain ⊢
    cases hp : (TypeExpr.mk r nullable args span).primitive? with
    | none =>
      rw [resolveType_custom (hplain.trans hp), resolveType_custom hp]
      refine exists_congr fun id => and_congr_left fun _ => resolveId_plain_eq_ok_iff
    | some p =>
      rw [resolveType_primitive (hplain.trans hp), resolveType_primitive hp]
      refine exists_congr fun vs => and_congr_left fun _ => ?_
      rw [List.forall₂_map_left_iff]
      constructor
      · intro h
        exact ((List.forall₂_and_left _ _).2 ⟨@ih, h⟩).imp fun a v hav => hav.1.1 hav.2
      · intro h
        exact ((List.forall₂_and_left _ _).2 ⟨@ih, h⟩).imp fun a v hav => hav.1.2 hav.2

theorem resolveFieldType_plain_eq_ok_iff {field : FieldDecl} {index : Option Int64}
    {o : Option ResolvedType} :
    w.plain.resolveFieldType f.plain s.plain (field.plain index) = .ok o ↔
      w.resolveFieldType f s field = .ok o := by
  have htype : (field.plain index).valueType = field.valueType.map (·.plain) := rfl
  rw [resolveFieldType_eq_ok_iff, resolveFieldType_eq_ok_iff, Symbol.decl_plain,
    TypeDecl.modifier_plain]
  refine or_congr_right (and_congr_right fun _ => ?_)
  simp only [htype, Option.map_eq_some_iff]
  constructor
  · rintro ⟨_, v, ⟨t, ht, rfl⟩, hv, rfl⟩
    exact ⟨t, v, ht, resolveType_plain_eq_ok_iff.1 hv, rfl⟩
  · rintro ⟨t, v, ht, hv, rfl⟩
    exact ⟨_, v, ⟨t, ht, rfl⟩, resolveType_plain_eq_ok_iff.2 hv, rfl⟩

theorem resolveField_plain_eq_ok_iff {field : FieldDecl × Option Int64} {d : FieldDef} :
    w.plain.resolveField f.plain s.plain (field.1.plain field.2, field.2) = .ok d ↔
      w.resolveField f s field = .ok d := by
  have hdef : ∀ index o, fieldDef s.plain (field.1.plain field.2) index o =
      fieldDef s field.1 index o := by
    intro index o
    simp only [fieldDef, FieldDecl.plain, Ident.name_plain, Symbol.decl_plain,
      TypeDecl.defaults_plain, assignmentMap_plain]
  simp only [resolveField_eq_ok_iff, resolveFieldType_plain_eq_ok_iff, hdef]

/-- The definition of a declaration does not tell where the declaration was written. -/
theorem resolveSymbol_plain_eq_ok_iff {t : TypeDef} :
    w.plain.resolveSymbol f.plain s.plain = .ok t ↔ w.resolveSymbol f s = .ok t := by
  have hbase : ∀ baseId, (s.decl.base.map (·.plain)).mapM (w.plain.resolveId f.plain) = .ok baseId ↔
      s.decl.base.mapM (w.resolveId f) = .ok baseId := by
    intro baseId
    simp only [mapM_resolveId_eq_ok_iff, Option.map_eq_none_iff, Option.map_eq_some_iff]
    refine or_congr_right ⟨?_, ?_⟩
    · rintro ⟨_, id, ⟨r, hr, rfl⟩, hid, rfl⟩
      exact ⟨r, id, hr, resolveId_plain_eq_ok_iff.1 hid, rfl⟩
    · rintro ⟨r, id, hr, hid, rfl⟩
      exact ⟨_, id, ⟨r, hr, rfl⟩, resolveId_plain_eq_ok_iff.2 hid, rfl⟩
  have hdef : ∀ baseId fields, typeDef s.plain baseId fields = typeDef s baseId fields := by
    intro baseId fields
    simp only [typeDef, Symbol.id_plain, Symbol.name_plain, Symbol.decl_plain,
      TypeDecl.modifier_plain, TypeDecl.annotations_plain, TypeDecl.defaults_plain,
      assignmentMap_plain]
    rfl
  simp only [resolveSymbol_eq_ok_iff, Symbol.decl_plain, TypeDecl.base_plain, hbase,
    TypeDecl.zip_indexes_plain, List.forall₂_map_left_iff, resolveField_plain_eq_ok_iff, hdef]

theorem compileFile_plain_eq_ok_iff {c : CompiledFile} :
    w.plain.compileFile f.plain = .ok c ↔ w.compileFile f = .ok c := by
  simp only [compileFile_eq_ok_iff, FileScope.symbols_plain, FileScope.file_plain,
    List.forall₂_map_left_iff, resolveSymbol_plain_eq_ok_iff]

/-- The snapshot of a workspace is that of its plain form. -/
theorem snapshot_plain_eq_ok_iff {version : UInt32} {snap : Snapshot} :
    w.plain.snapshot version = .ok snap ↔ w.snapshot version = .ok snap := by
  simp only [snapshot_eq_ok_iff, filesByPackage_plain, List.forall₂_map_left_iff,
    compileFile_plain_eq_ok_iff]

end Schemata.Workspace

/-!
## Rules do not look at places

Whether a rule reports anything on a file depends on the plain form of the workspace only. The
reports themselves may be others: an index that is written out is checked in other ways than one
that is not.
-/

namespace Schemata.Rule

def Context.plain (c : Context) : Context :=
  ⟨c.workspace.plain, c.scope.plain, c.severity, c.enabled, c.reported⟩

variable {c : Context} {s : Symbol}

@[simp] theorem Context.workspace_plain (c : Context) : c.plain.workspace = c.workspace.plain := rfl

@[simp] theorem Context.scope_plain (c : Context) : c.plain.scope = c.scope.plain := rfl

/-! ### Bases, fields and indexes -/

/-- No base is refused in the plain declaration that is accepted in the written one, or the other
way. -/
theorem baseReports_plain_eq_nil_iff : baseReports c.plain s.plain = [] ↔ baseReports c s = [] := by
  simp only [baseReports_eq_nil_iff, Symbol.decl_plain, TypeDecl.base_plain,
    TypeDecl.modifier_plain, Option.map_eq_some_iff, forall_exists_index, and_imp,
    forall_apply_eq_imp_iff₂]
  refine forall₂_congr fun r _ => and_congr_right fun _ => ?_
  exact Workspace.exists_findRef_plain_iff fun t => Iff.rfl

theorem fieldNameReports_plain_eq_nil_iff :
    fieldNameReports c.plain s.plain = [] ↔ fieldNameReports c s = [] := by
  rw [fieldNameReports_eq_nil_iff, fieldNameReports_eq_nil_iff, Symbol.decl_plain,
    TypeDecl.map_fields_plain fun _ _ => rfl]

/-- Writing out the inferred indexes leaves the accepted declarations accepted. -/
theorem indexReports_plain_eq_nil_iff :
    indexReports c.plain s.plain = [] ↔ indexReports c s = [] := by
  rw [indexReports_eq_nil_iff, indexReports_eq_nil_iff, Symbol.decl_plain, TypeDecl.indexes_plain,
    TypeDecl.modifier_plain]

theorem shapeReport?_plain_eq_none_iff {m : Modifier} {f : FieldDecl} {index : Option Int64} :
    shapeReport? c.plain m (f.plain index) = none ↔ shapeReport? c m f = none := by
  rw [shapeReport?_eq_none_iff, shapeReport?_eq_none_iff]
  exact iff_congr Option.map_eq_none_iff Iff.rfl

theorem unionReport?_eq_none_iff {m : Modifier} {f : FieldDecl} :
    unionReport? c m f = none ↔ m = .union → ∀ t, f.valueType = some t → t.nullable = false := by
  unfold unionReport?
  split
  · next t ht => simp [ht]
  · next hother =>
    simp only [true_iff]
    exact fun hm t ht => (hother t ht hm).elim

theorem unionReport?_plain_eq_none_iff {m : Modifier} {f : FieldDecl} {index : Option Int64} :
    unionReport? c.plain m (f.plain index) = none ↔ unionReport? c m f = none := by
  have htype : (f.plain index).valueType = f.valueType.map (·.plain) := rfl
  simp only [unionReport?_eq_none_iff, htype, Option.map_eq_some_iff, forall_exists_index, and_imp,
    forall_apply_eq_imp_iff₂, TypeExpr.nullable_plain]

/-! ### Value types -/

theorem collection?_plain (t : TypeExpr) : collection? t.plain = collection? t := by
  rw [collection?, collection?, TypeExpr.primitive?_plain]

/-- A type expression is accepted wherever it stands. -/
theorem typeReports_plain_eq_nil_iff {t : TypeExpr} :
    typeReports c.plain s.plain t.plain = [] ↔ typeReports c s t = [] := by
  simp only [typeReports_eq_nil_iff, collection?_plain, TypeExpr.args_plain, List.map_eq_nil_iff,
    TypeExpr.primitive?_plain, TypeExpr.ref_plain]
  exact and_congr_right fun _ => imp_congr_right fun _ => Workspace.exists_findRef_plain_iff
    fun _ => Iff.rfl

theorem listReports_plain_eq_nil_iff {t : TypeExpr} :
    listReports c.plain t.plain = [] ↔ listReports c t = [] := by
  simp only [listReports_eq_nil_iff, TypeExpr.args_plain, List.map_eq_singleton_iff]
  constructor
  · rintro ⟨_, ⟨element, hargs, rfl⟩, hcollection⟩
    exact ⟨element, hargs, collection?_plain element ▸ hcollection⟩
  · rintro ⟨element, hargs, hcollection⟩
    exact ⟨_, ⟨element, hargs, rfl⟩, (collection?_plain element).trans hcollection⟩

theorem mapReports_plain_eq_nil_iff {t : TypeExpr} :
    mapReports c.plain t.plain = [] ↔ mapReports c t = [] := by
  have hkey : ∀ key : TypeExpr, isKeyType key.plain = isKeyType key := by
    intro key
    rw [isKeyType, isKeyType, TypeExpr.primitive?_plain, TypeExpr.nullable_plain]
  simp only [mapReports_eq_nil_iff, TypeExpr.args_plain, List.map_eq_cons_iff, List.map_eq_nil_iff]
  constructor
  · rintro ⟨_, _, ⟨key, _, hargs, rfl, value, _, rfl, rfl, rfl⟩, hkeytype, hcollection⟩
    exact ⟨key, value, hargs, hkey key ▸ hkeytype, collection?_plain value ▸ hcollection⟩
  · rintro ⟨key, value, hargs, hkeytype, hcollection⟩
    exact ⟨_, _, ⟨key, _, hargs, rfl, value, _, rfl, rfl, rfl⟩, (hkey key).trans hkeytype,
      (collection?_plain value).trans hcollection⟩

theorem flatMap_symbols_plain {α : Type} (look : Symbol → List α) :
    c.plain.scope.symbols.flatMap look = c.scope.symbols.flatMap fun s => look s.plain := by
  rw [Context.scope_plain, FileScope.symbols_plain, List.flatMap_map]

/-- The visitors meet the plain forms of the nodes they met before. -/
theorem nodesOf_plain (c : Context) (p : Primitive) :
    nodesOf c.plain p = (nodesOf c p).map (·.plain) := by
  simp only [nodesOf, flatMap_symbols_plain, Symbol.decl_plain, TypeDecl.typeNodes_plain,
    ← List.map_flatMap, List.filter_map]
  refine congrArg (List.map _) (List.filter_congr fun t _ => ?_)
  rw [Function.comp_apply, TypeExpr.primitive?_plain]

/-! ### Defaults and annotations -/

theorem unknownDefaultReports_plain_eq_nil_iff :
    unknownDefaultReports c.plain s.plain = [] ↔ unknownDefaultReports c s = [] := by
  simp only [unknownDefaultReports_eq_nil_iff, Symbol.decl_plain, TypeDecl.defaults_plain,
    List.forall_mem_map, Assignment.plain, Ident.name_plain, TypeDecl.isSome_field?_plain]

theorem repeatedKeyReports_plain_eq_nil_iff {kind : Diagnostic.Kind} {block : List Assignment} :
    repeatedKeyReports c.plain kind (block.map (·.plain)) = [] ↔
      repeatedKeyReports c kind block = [] := by
  rw [repeatedKeyReports_eq_nil_iff, repeatedKeyReports_eq_nil_iff, List.map_map]
  rfl

theorem conformsToReference_plain (c : Context) (r : TypeRef) (l : Literal) :
    conformsToReference c.plain r.plain l = conformsToReference c r l := by
  have hlookup : c.plain.lookup? r.plain = (c.lookup? r).map (·.plain) := by
    rw [Context.lookup?, Context.lookup?, Context.workspace_plain, Context.scope_plain,
      Workspace.findRef_plain]
    rcases c.workspace.findRef c.scope r with _ | ⟨s, _ | ⟨t, rest⟩⟩ <;> rfl
  rw [conformsToReference, conformsToReference, hlookup]
  cases c.lookup? r with
  | none => rfl
  | some s =>
    simp only [Option.map_some, Symbol.decl_plain, TypeDecl.modifier_plain,
      TypeDecl.isSome_field?_plain]

mutual

/-- A default conforms to the plain type when it conforms to the written one. -/
theorem conforms_plain (c : Context) : ∀ (l : Literal) (t : TypeExpr),
    conforms c.plain l t.plain = conforms c l t
  | .list items, t => by
    have hitems := itemsConform_plain c items
    simp only [conforms, TypeExpr.primitive?_plain, TypeExpr.ref_plain, conformsToReference_plain,
      TypeExpr.args_plain]
    rcases t.args with _ | ⟨element, _ | ⟨second, rest⟩⟩
    · rfl
    · simp only [List.map_cons, List.map_nil, hitems]
    · rfl
  | .map entries, t => by
    have hentries := entriesConform_plain c entries
    simp only [conforms, TypeExpr.primitive?_plain, TypeExpr.ref_plain, conformsToReference_plain,
      TypeExpr.args_plain]
    rcases t.args with _ | ⟨key, _ | ⟨value, _ | ⟨third, rest⟩⟩⟩
    · rfl
    · rfl
    · simp only [List.map_cons, List.map_nil, hentries]
    · rfl
  | .string _, _ | .int _, _ | .float _, _ | .bool _, _ => by
    simp only [conforms, TypeExpr.primitive?_plain, TypeExpr.ref_plain, conformsToReference_plain]

theorem itemsConform_plain (c : Context) : ∀ (items : List Literal) (element : TypeExpr),
    itemsConform c.plain element.plain items = itemsConform c element items
  | [], _ => rfl
  | l :: rest, element => by
    rw [itemsConform, itemsConform, conforms_plain c l, itemsConform_plain c rest]

theorem entriesConform_plain (c : Context) :
    ∀ (entries : List (Literal × Literal)) (key value : TypeExpr),
    entriesConform c.plain key.plain value.plain entries = entriesConform c key value entries
  | [], _, _ => rfl
  | (k, v) :: rest, key, value => by
    rw [entriesConform, entriesConform, conforms_plain c k, conforms_plain c v,
      entriesConform_plain c rest]

end

theorem defaultTypeReport?_plain_eq_none_iff {a : Assignment} :
    defaultTypeReport? c.plain s.plain a.plain = none ↔ defaultTypeReport? c s a = none := by
  simp only [defaultTypeReport?_eq_none_iff, Symbol.decl_plain, Assignment.plain, Ident.name_plain,
    TypeDecl.bind_field?_plain, Option.map_eq_some_iff, forall_exists_index, and_imp,
    forall_apply_eq_imp_iff₂, conforms_plain]

theorem annotationBlocks_plain (d : TypeDecl) :
    annotationBlocks d.plain = (annotationBlocks d).map fun block => block.map (·.plain) := by
  rw [annotationBlocks, annotationBlocks, TypeDecl.annotations_plain, List.map_cons, List.map_map,
    TypeDecl.map_fields_plain fun _ _ => rfl]
  rfl

theorem annotationReports_plain_eq_nil_iff :
    annotationReports c.plain s.plain = [] ↔ annotationReports c s = [] := by
  simp only [annotationReports_eq_nil_iff, Symbol.decl_plain, annotationBlocks_plain,
    ← List.map_flatten, List.forall_mem_map, Assignment.plain]

/-! ### All rules -/

/-- A rule reports something on a file exactly if it does so on its plain form. -/
theorem reports_plain_eq_nil_iff (r : Rule) : r.reports c.plain = [] ↔ r.reports c = [] := by
  cases r with
  | validBaseType =>
    simp only [reports, validBaseTypeReports, flatMap_symbols_plain, List.flatMap_eq_nil_iff,
      baseReports_plain_eq_nil_iff]
  | uniqueFieldName =>
    simp only [reports, uniqueFieldNameReports, flatMap_symbols_plain, List.flatMap_eq_nil_iff,
      fieldNameReports_plain_eq_nil_iff]
  | fieldIndex =>
    simp only [reports, fieldIndexReports, flatMap_symbols_plain, List.flatMap_eq_nil_iff,
      indexReports_plain_eq_nil_iff]
  | fieldShape =>
    simp only [reports, fieldShapeReports, flatMap_symbols_plain, List.flatMap_eq_nil_iff,
      List.filterMap_eq_nil_iff, Symbol.decl_plain, TypeDecl.modifier_plain]
    exact forall₂_congr fun s _ => TypeDecl.forall_mem_fields_plain fun _ _ =>
      shapeReport?_plain_eq_none_iff
  | nonNullableUnionField =>
    simp only [reports, nonNullableUnionFieldReports, flatMap_symbols_plain,
      List.flatMap_eq_nil_iff, List.filterMap_eq_nil_iff, Symbol.decl_plain,
      TypeDecl.modifier_plain]
    exact forall₂_congr fun s _ => TypeDecl.forall_mem_fields_plain fun _ _ =>
      unionReport?_plain_eq_none_iff
  | validFieldType =>
    simp only [reports, validFieldTypeReports, flatMap_symbols_plain, List.flatMap_eq_nil_iff,
      Symbol.decl_plain, TypeDecl.typeNodes_plain, List.forall_mem_map,
      typeReports_plain_eq_nil_iff]
  | validListArguments =>
    simp only [reports, validListArgumentsReports, nodesOf_plain, List.flatMap_eq_nil_iff,
      List.forall_mem_map, listReports_plain_eq_nil_iff]
  | validMapArguments =>
    simp only [reports, validMapArgumentsReports, nodesOf_plain, List.flatMap_eq_nil_iff,
      List.forall_mem_map, mapReports_plain_eq_nil_iff]
  | defaultValueValidField =>
    simp only [reports, defaultValueValidFieldReports, flatMap_symbols_plain,
      List.flatMap_eq_nil_iff, unknownDefaultReports_plain_eq_nil_iff]
  | uniqueDefaultValue =>
    simp only [reports, uniqueDefaultValueReports, flatMap_symbols_plain, List.flatMap_eq_nil_iff,
      Symbol.decl_plain, TypeDecl.defaults_plain, repeatedKeyReports_plain_eq_nil_iff]
  | validDefaultValueType =>
    simp only [reports, validDefaultValueTypeReports, flatMap_symbols_plain,
      List.flatMap_eq_nil_iff, List.filterMap_eq_nil_iff, Symbol.decl_plain,
      TypeDecl.defaults_plain, List.forall_mem_map,
      defaultTypeReport?_plain_eq_none_iff]
  | validAnnotationValue =>
    simp only [reports, validAnnotationValueReports, flatMap_symbols_plain, List.flatMap_eq_nil_iff,
      annotationReports_plain_eq_nil_iff]
  | assignmentKeyUnique =>
    have hblocks : ∀ d : TypeDecl, keyBlocks c.plain d.plain = (keyBlocks c d).map fun block =>
        block.map (·.plain) := by
      intro d
      rw [keyBlocks, keyBlocks, List.map_append, annotationBlocks_plain, apply_ite (List.map _)]
      rfl
    simp only [reports, assignmentKeyUniqueReports, flatMap_symbols_plain, List.flatMap_eq_nil_iff,
      Symbol.decl_plain, hblocks, List.forall_mem_map, repeatedKeyReports_plain_eq_nil_iff]

end Schemata.Rule

/-! ## Compilations -/

namespace Schemata

/-- The rules pass the plain workspace exactly when they pass the workspace itself. -/
theorem Workspace.passes_plain_iff {w : Workspace} {settings : Settings} :
    w.plain.Passes settings ↔ w.Passes settings := by
  simp only [Passes, files_plain, List.forall_mem_map]
  exact forall₂_congr fun f _ => forall₂_congr fun r _ =>
    Rule.reports_plain_eq_nil_iff (c := settings.context w f [] r) r

namespace Compilation

variable {settings : Settings} {a b sources : List SourceFile} {s : Snapshot}

/-- Sources yield the snapshot that their plain forms yield. -/
theorem exists_snapshot_plain_iff :
    (∃ c, ofSources settings (sources.map (·.plain)) = .ok c ∧ c.snapshot = .ok s) ↔
      ∃ c, ofSources settings sources = .ok c ∧ c.snapshot = .ok s := by
  simp only [exists_snapshot_iff, Workspace.link_plain_eq_ok_nil_iff]
  refine and_congr_right fun _ => ⟨?_, ?_⟩
  · rintro ⟨_, ⟨w, hlink, rfl⟩, hpasses, hs⟩
    exact ⟨w, hlink, Workspace.passes_plain_iff.1 hpasses, Workspace.snapshot_plain_eq_ok_iff.1 hs⟩
  · rintro ⟨w, hlink, hpasses, hs⟩
    exact ⟨_, ⟨w, hlink, rfl⟩, Workspace.passes_plain_iff.2 hpasses,
      Workspace.snapshot_plain_eq_ok_iff.2 hs⟩

/-- Sources whose parts are moved about, and some of whose indexes in effect are written out, yield
the same snapshot. -/
theorem exists_snapshot_iff_of_retouched (h : List.Forall₂ SourceFile.Retouched a b)
    (s : Snapshot) :
    (∃ c, ofSources settings a = .ok c ∧ c.snapshot = .ok s) ↔
      ∃ c, ofSources settings b = .ok c ∧ c.snapshot = .ok s := by
  have hplain : a.map (·.plain) = b.map (·.plain) :=
    map_eq_of_forall₂ (h.imp fun _ _ hab => hab.plain_eq)
  rw [← exists_snapshot_plain_iff, hplain, exists_snapshot_plain_iff]

end Compilation

namespace Sample

def elsewhere : Span := ⟨⟨7, 3⟩, ⟨7, 9⟩⟩

def movedColour : TypeDecl :=
  { colour with
    name := ⟨"Colour", elsewhere⟩
    fields := [⟨⟨"warm", elsewhere⟩, some 0, none, [], [], elsewhere⟩,
      ⟨ident "cold", none, none, ["Blue."], [], elsewhere⟩]
    span := elsewhere }

def movedLight : TypeDecl :=
  { light with
    fields := [field "colour" (.mk ⟨"Colour", none, elsewhere⟩ false [] elsewhere),
      { field "levels" (valueType "list" none [valueType "uint8" none []]) with index := some 1 }] }

def movedPalette : SourceFile := ⟨⟨"common", "palette.nex"⟩, [], [movedColour, movedLight]⟩

theorem retouched_colour : colour.Retouched movedColour := by
  have hindexes : colour.indexes = [some 0, some 1] := by decide
  refine ⟨⟨rfl, rfl, .none, rfl, rfl⟩, rfl, ?_⟩
  rw [hindexes]
  exact .cons ⟨⟨⟨rfl, .none, rfl⟩, rfl⟩, .inr rfl⟩ (.cons ⟨⟨⟨rfl, .none, rfl⟩, rfl⟩, .inl rfl⟩ .nil)

theorem retouched_light : light.Retouched movedLight := by
  have hindexes : light.indexes = [some 0, some 1] := by decide
  have hlevels : (valueType "list" none [valueType "uint8" none []]).Alike
      (valueType "list" none [valueType "uint8" none []]) :=
    .mk ⟨rfl, rfl⟩ (.cons (.mk ⟨rfl, rfl⟩ .nil) .nil)
  refine ⟨⟨rfl, rfl, .none, rfl, rfl⟩, rfl, ?_⟩
  rw [hindexes]
  exact .cons ⟨⟨⟨rfl, .some (.mk ⟨rfl, rfl⟩ .nil), rfl⟩, rfl⟩, .inl rfl⟩
    (.cons ⟨⟨⟨rfl, .some hlevels, rfl⟩, rfl⟩, .inr rfl⟩ .nil)

theorem retouched_palette : List.Forall₂ SourceFile.Retouched [palette] [movedPalette] :=
  .cons ⟨rfl, .nil, .cons retouched_colour (.cons retouched_light .nil)⟩ .nil

/-- The colours and lights keep their snapshot when they are moved about and indexed. -/
theorem exists_snapshot_movedPalette : List.Forall₂ SourceFile.Retouched [palette] [movedPalette] ∧
    ∃ s, paletteCompilation.snapshot = .ok s ∧
      ∃ c, Compilation.ofSources .standard [movedPalette] = .ok c ∧ c.snapshot = .ok s := by
  obtain ⟨s, hs⟩ := Compilation.exists_snapshot_of_isValid ofSources_palette rfl
  refine ⟨retouched_palette, s, hs, ?_⟩
  exact (Compilation.exists_snapshot_iff_of_retouched retouched_palette s).1
    ⟨_, ofSources_palette, hs⟩

end Sample

end Schemata
