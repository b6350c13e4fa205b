import Schemata.Proofs.Compilation.Outcome

/-!
# Well-formed snapshots

What the required rules find out about a declaration carries over to its resolved form. The types of
a snapshot are therefore well formed, whichever of the other rules run.
-/

namespace Schemata

namespace ResolvedType

def IsCollection (t : ResolvedType) : Prop := t.primitive? = some .list ∨ t.primitive? = some .map

/-- Keys of a map are strings, bools or integers, and not nullable. -/
def IsKey (t : ResolvedType) : Prop :=
  ∃ p : Primitive, t.primitive? = some p ∧ (p = .string ∨ p = .bool ∨ p.isInteger) ∧
    t.nullable = false

/-- Whether a value type has the arguments that it takes. -/
def ArgumentsFit : ResolvedType → Prop
  | .primitive .list _ args => ∃ element, args = [element] ∧ ¬element.IsCollection
  | .primitive .map _ args => ∃ key value, args = [key, value] ∧ key.IsKey ∧ ¬value.IsCollection
  | .primitive _ _ args => args = []
  | .custom .. => True

end ResolvedType

/-- A type of a snapshot as users of the snapshot can rely on it. -/
structure TypeDef.WellFormed (t : TypeDef) : Prop where
  indexes : IndexesFit (t.modifier == .enum) (t.fields.map (·.index))
  typed : ∀ d ∈ t.fields, d.valueType = none ↔ t.modifier = .enum
  base : t.baseId.isSome → t.modifier = .struct
  arguments : ∀ d ∈ t.fields, ∀ v, d.valueType = some v → ∀ n ∈ v.nodes, n.ArgumentsFit

namespace Workspace

variable {w : Workspace} {f : FileScope} {s : Symbol} {t : TypeExpr} {v : ResolvedType}

/-! ## Value types -/

/-- A value type stays a primitive, or stays none, and stays nullable or not. -/
theorem primitive?_of_resolveType (h : w.resolveType f t = .ok v) :
    v.primitive? = t.primitive? ∧ v.nullable = t.nullable := by
  obtain ⟨r, nullable, args, span⟩ := t
  cases hp : (TypeExpr.mk r nullable args span).primitive? with
  | none =>
    obtain ⟨id, -, rfl⟩ := (resolveType_custom hp).1 h
    exact ⟨rfl, rfl⟩
  | some p =>
    obtain ⟨vs, -, rfl⟩ := (resolveType_primitive hp).1 h
    exact ⟨rfl, rfl⟩

theorem not_isCollection_of_resolveType (h : w.resolveType f t = .ok v)
    (ht : Rule.collection? t = none) : ¬v.IsCollection := by
  rw [Rule.collection?, Option.filter_eq_none_iff] at ht
  rw [ResolvedType.IsCollection, (primitive?_of_resolveType h).1]
  rintro (hp | hp)
  · exact ht _ hp rfl
  · exact ht _ hp rfl

/-- A type that may be a key resolves to one. -/
theorem isKey_of_resolveType (h : w.resolveType f t = .ok v) (ht : Rule.isKeyType t) : v.IsKey := by
  obtain ⟨hp, hn⟩ := primitive?_of_resolveType h
  rw [Rule.isKeyType, Bool.and_eq_true, Option.any_eq_true] at ht
  obtain ⟨⟨p, htp, hkey⟩, hnullable⟩ := ht
  refine ⟨p, hp.trans htp, ?_, by simpa [hn] using hnullable⟩
  simpa [Primitive.isMapKey, or_assoc] using hkey

/-- Arguments that fit do so after resolving. -/
theorem argumentsFit_of_forall₂ {r : TypeRef} {nullable : Bool} {args : List TypeExpr} {span : Span}
    {p : Primitive} (hp : (TypeExpr.mk r nullable args span).primitive? = some p)
    (hfit : (TypeExpr.mk r nullable args span).ArgumentsFit) {vs : List ResolvedType}
    (hvs : List.Forall₂ (fun t v => w.resolveType f t = .ok v) args vs) :
    (ResolvedType.primitive p nullable vs).ArgumentsFit := by
  rw [TypeExpr.ArgumentsFit, hp, TypeExpr.args] at hfit
  cases p with
  | list =>
    obtain ⟨element, rfl, helement⟩ := hfit
    obtain ⟨v, _, hv, hnil, rfl⟩ := List.forall₂_cons_left_iff.1 hvs
    obtain rfl := List.forall₂_nil_left_iff.1 hnil
    exact ⟨v, rfl, not_isCollection_of_resolveType hv helement⟩
  | map =>
    obtain ⟨key, value, rfl, hkey, hvalue⟩ := hfit
    obtain ⟨k, _, hk, hrest, rfl⟩ := List.forall₂_cons_left_iff.1 hvs
    obtain ⟨v, _, hv, hnil, rfl⟩ := List.forall₂_cons_left_iff.1 hrest
    obtain rfl := List.forall₂_nil_left_iff.1 hnil
    exact ⟨k, v, rfl, isKey_of_resolveType hk hkey, not_isCollection_of_resolveType hv hvalue⟩
  | _ =>
    obtain rfl : args = [] := hfit
    exact List.forall₂_nil_left_iff.1 hvs

/-- Arguments that fit resolve to arguments that fit, at every depth. -/
theorem argumentsFit_of_resolveType (h : w.resolveType f t = .ok v)
    (hfit : ∀ n ∈ t.nodes, n.ArgumentsFit) : ∀ n ∈ v.nodes, n.ArgumentsFit := by
  induction t using TypeExpr.ind generalizing v with
  | mk r nullable args span ih =>
    cases hp : (TypeExpr.mk r nullable args span).primitive? with
    | none =>
      obtain ⟨id, -, rfl⟩ := (resolveType_custom hp).1 h
      simp [ResolvedType.nodes, ResolvedType.ArgumentsFit]
    | some p =>
      obtain ⟨vs, hvs, rfl⟩ := (resolveType_primitive hp).1 h
      rw [ResolvedType.nodes_primitive]
      intro n hn
      rcases List.mem_cons.1 hn with rfl | hn
      · exact argumentsFit_of_forall₂ hp (hfit _ (TypeExpr.self_mem_nodes _)) hvs
      · obtain ⟨v, hv, hn⟩ := List.mem_flatMap.1 hn
        obtain ⟨a, ha, hav⟩ := exists_mem_of_mem_of_forall₂ hvs hv
        exact ih a ha hav (fun m hm => hfit m (TypeExpr.mem_nodes_of_mem_args ha hm)) n hn

/-! ## Types -/

/-- The indexes of resolved fields are those of the declaration. -/
theorem indexes_of_forall₂ {fields : List FieldDecl} {indexes : List Int64} {defs : List FieldDef}
    (hlen : indexes.length = fields.length)
    (h : List.Forall₂ (fun field d => w.resolveField f s field = .ok d)
      (fields.zip (indexes.map some)) defs) : defs.map (·.index) = indexes := by
  induction fields generalizing indexes defs with
  | nil =>
    obtain rfl := List.length_eq_zero_iff.1 hlen
    obtain rfl := List.forall₂_nil_left_iff.1 h
    rfl
  | cons field fields ih =>
    cases indexes with
    | nil => simp at hlen
    | cons index indexes =>
      obtain ⟨d, defs, hd, hrest, rfl⟩ := List.forall₂_cons_left_iff.1 h
      obtain ⟨_, o, ⟨⟩, -, rfl⟩ := resolveField_eq_ok_iff.1 hd
      rw [List.map_cons, ih (by simpa using hlen) hrest, fieldDef]

/-- A resolved field comes from a declared one. -/
theorem exists_field_of_mem {fields : List FieldDecl} {indexes : List (Option Int64)}
    {defs : List FieldDef}
    (h : List.Forall₂ (fun field d => w.resolveField f s field = .ok d) (fields.zip indexes) defs)
    {d : FieldDef} (hd : d ∈ defs) :
    ∃ field ∈ fields, w.resolveFieldType f s field = .ok d.valueType := by
  obtain ⟨field, hfield, hresolve⟩ := exists_mem_of_mem_of_forall₂ h hd
  obtain ⟨index, o, -, ho, rfl⟩ := resolveField_eq_ok_iff.1 hresolve
  exact ⟨field.1, (List.of_mem_zip hfield).1, ho⟩

/-- An accepted type has a well-formed resolved form. -/
theorem wellFormed_of_resolveSymbol (hs : s.Accepted w f) {t : TypeDef}
    (h : w.resolveSymbol f s = .ok t) : t.WellFormed := by
  obtain ⟨baseId, fields, hbase, hfields, rfl⟩ := resolveSymbol_eq_ok_iff.1 h
  obtain ⟨indexes, hindexes, hfit⟩ := hs.indexes
  refine ⟨?_, ?_, ?_, ?_⟩
  · have hlen : indexes.length = s.decl.fields.length := by
      rw [← s.decl.length_indexes, hindexes, List.length_map]
    rw [hindexes] at hfields
    rw [typeDef, indexes_of_forall₂ hlen hfields]
    exact hfit
  · intro d hd
    obtain ⟨field, -, ho⟩ := exists_field_of_mem hfields hd
    rcases resolveFieldType_eq_ok_iff.1 ho with ⟨henum, hnone⟩ | ⟨henum, t, v, -, -, hsome⟩
    · exact iff_of_true hnone henum
    · exact iff_of_false (by simp [hsome]) henum
  · intro hsome
    rcases mapM_resolveId_eq_ok_iff.1 hbase with ⟨-, rfl⟩ | ⟨r, id, hr, -, -⟩
    · cases hsome
    · exact (hs.base r hr).1
  · intro d hd v hv
    obtain ⟨field, hfield, ho⟩ := exists_field_of_mem hfields hd
    rcases resolveFieldType_eq_ok_iff.1 ho with ⟨-, hnone⟩ | ⟨-, t, v', ht, hresolve, hsome⟩
    · cases hnone.symm.trans hv
    · obtain rfl : v' = v := Option.some.inj (hsome.symm.trans hv)
      exact argumentsFit_of_resolveType hresolve fun n hn =>
        hs.arguments n (TypeDecl.mem_typeNodes hfield ht hn)

/-- Every type of a snapshot is the resolved form of a type of the workspace. -/
theorem exists_resolveSymbol_of_mem_types {version : UInt32} {snap : Snapshot}
    (h : w.snapshot version = .ok snap) {t : TypeDef} (ht : t ∈ snap.types) :
    ∃ f ∈ w.files, ∃ s ∈ f.symbols, w.resolveSymbol f s = .ok t := by
  obtain ⟨c, hc, ht⟩ := List.mem_flatMap.1 ht
  obtain ⟨f, hf, hcompile⟩ := exists_compileFile_of_mem h hc
  obtain ⟨s, hs, hresolve⟩ := exists_mem_of_mem_of_forall₂ (compileFile_eq_ok_iff.1 hcompile).1 ht
  exact ⟨f, mem_files_of_mem_filesByPackage hf, s, hs, hresolve⟩

end Workspace

/-- Every type of a snapshot is well formed, under all settings that hold good. -/
theorem Compilation.wellFormed_of_mem_types {settings : Settings} {sources : List SourceFile}
    {c : Compilation} {snap : Snapshot} (hc : ofSources settings sources = .ok c)
    (hsnap : c.snapshot = .ok snap) : ∀ t ∈ snap.types, t.WellFormed := by
  intro t ht
  have hv := isValid_of_snapshot hsnap
  rw [snapshot_of_isValid hv] at hsnap
  obtain ⟨f, hf, s, hs, hresolve⟩ := Workspace.exists_resolveSymbol_of_mem_types hsnap ht
  exact Workspace.wellFormed_of_resolveSymbol (isAccepted_of_isValid hc hv f hf s hs) hresolve

theorem Sample.exists_wellFormed_snapshot : ∃ snap, compilation.snapshot = .ok snap ∧
    ∀ t ∈ snap.types, t.WellFormed := by
  obtain ⟨snap, hsnap⟩ := exists_snapshot
  exact ⟨snap, hsnap, Compilation.wellFormed_of_mem_types ofSources_sources hsnap⟩

end Schemata
