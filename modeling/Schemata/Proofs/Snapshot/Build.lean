import Schemata.Compilation
import Schemata.Proofs.Data.Except
import Schemata.Proofs.Schema.Declaration

/-!
# What resolving yields

For each step from a workspace to its snapshot: when it succeeds, and what it then yields.
-/

namespace Schemata.Workspace

variable {w : Workspace} {f : FileScope} {s : Symbol}

/-- A reference resolves exactly if it denotes one type, and then to the id of that type. -/
theorem resolveId_eq_ok_iff {r : TypeRef} {id : String} :
    w.resolveId f r = .ok id ↔ ∃ t, w.findRef f r = [t] ∧ t.id = id := by
  rw [resolveId]
  split
  · next t h => simp [h]
  · next h => simp [h]
  · next hone _ =>
    simp only [reduceCtorEq, false_iff, not_exists, not_and]
    exact fun t h => absurd h (hone t)

theorem resolveTypes_eq_mapM (args : List TypeExpr) :
    w.resolveTypes f args = args.mapM (w.resolveType f) := by
  induction args with
  | nil => rw [resolveTypes, List.mapM_nil]
  | cons t rest ih => rw [resolveTypes, ih, List.mapM_cons]

/-- A primitive resolves with its arguments. -/
theorem resolveType_primitive {r : TypeRef} {nullable : Bool} {args : List TypeExpr} {span : Span}
    {p : Primitive} (hp : (TypeExpr.mk r nullable args span).primitive? = some p)
    {v : ResolvedType} :
    w.resolveType f (.mk r nullable args span) = .ok v ↔
      ∃ vs, List.Forall₂ (fun t v => w.resolveType f t = .ok v) args vs ∧
        v = .primitive p nullable vs := by
  rw [resolveType, hp]
  simp only [bind_eq_ok_iff, pure_eq_ok_iff, resolveTypes_eq_mapM, mapM_eq_ok_iff]
  constructor
  · rintro ⟨vs, hvs, rfl⟩
    exact ⟨vs, hvs, rfl⟩
  · rintro ⟨vs, hvs, rfl⟩
    exact ⟨vs, hvs, rfl⟩

/-- A name resolves as a reference. -/
theorem resolveType_custom {r : TypeRef} {nullable : Bool} {args : List TypeExpr} {span : Span}
    (hp : (TypeExpr.mk r nullable args span).primitive? = none) {v : ResolvedType} :
    w.resolveType f (.mk r nullable args span) = .ok v ↔
      ∃ id, w.resolveId f r = .ok id ∧ v = .custom id nullable r.qualifier := by
  rw [resolveType, hp]
  simp only [bind_eq_ok_iff, pure_eq_ok_iff]
  constructor
  · rintro ⟨id, hid, rfl⟩
    exact ⟨id, hid, rfl⟩
  · rintro ⟨id, hid, rfl⟩
    exact ⟨id, hid, rfl⟩

theorem resolveFieldType_eq_ok_iff {field : FieldDecl} {o : Option ResolvedType} :
    w.resolveFieldType f s field = .ok o ↔
      (s.decl.modifier = .enum ∧ o = none) ∨
        (s.decl.modifier ≠ .enum ∧
          ∃ t v, field.valueType = some t ∧ w.resolveType f t = .ok v ∧ o = some v) := by
  rw [resolveFieldType]
  split
  · next h =>
    rw [pure_eq_ok_iff, h]
    simp only [true_and, ne_eq, not_true, false_and, or_false]
    exact eq_comm
  · next t ht hne =>
    simp only [bind_eq_ok_iff, pure_eq_ok_iff, ht]
    constructor
    · rintro ⟨v, hv, rfl⟩
      exact .inr ⟨hne, t, v, rfl, hv, rfl⟩
    · rintro (⟨h, -⟩ | ⟨-, _, v, ⟨⟩, hv, rfl⟩)
      · exact (hne h).elim
      · exact ⟨v, hv, rfl⟩
  · next ht hne =>
    simp only [reduceCtorEq, false_iff, ht]
    rintro (⟨h, -⟩ | ⟨-, _, _, ⟨⟩, -⟩)
    exact hne h

/-- The resolved form of a field, up to what it takes from its context. -/
def fieldDef (s : Symbol) (field : FieldDecl) (index : Int64) (valueType : Option ResolvedType) :
    FieldDef where
  index := index
  valueType := valueType
  name := field.name.name
  documentation := field.documentation
  annotations := assignmentMap field.annotations
  defaultValue := (assignmentMap s.decl.defaults).get? field.name.name

/-- A field resolves when it has an index and its type resolves. -/
theorem resolveField_eq_ok_iff {field : FieldDecl × Option Int64} {d : FieldDef} :
    w.resolveField f s field = .ok d ↔
      ∃ index o, field.2 = some index ∧ w.resolveFieldType f s field.1 = .ok o ∧
        d = fieldDef s field.1 index o := by
  rw [resolveField]
  split
  · next index h =>
    simp only [bind_eq_ok_iff, pure_eq_ok_iff, h, Option.some.injEq]
    constructor
    · rintro ⟨o, ho, rfl⟩
      exact ⟨index, o, rfl, ho, rfl⟩
    · rintro ⟨_, o, rfl, ho, rfl⟩
      exact ⟨o, ho, rfl⟩
  · next h =>
    simp only [reduceCtorEq, false_iff]
    rintro ⟨index, -, hindex, -⟩
    exact h index hindex

/-- The resolved form of a type, up to what it takes from its context. -/
def typeDef (s : Symbol) (baseId : Option String) (fields : List FieldDef) : TypeDef where
  baseId := baseId
  fields := fields
  id := s.id
  name := s.name
  modifier := s.decl.modifier
  documentation := s.decl.documentation
  annotations := assignmentMap s.decl.annotations
  defaults := assignmentMap s.decl.defaults

/-- The base of a type resolves if there is one. -/
theorem mapM_resolveId_eq_ok_iff {base : Option TypeRef} {baseId : Option String} :
    base.mapM (w.resolveId f) = .ok baseId ↔
      (base = none ∧ baseId = none) ∨
        ∃ r id, base = some r ∧ w.resolveId f r = .ok id ∧ baseId = some id := by
  cases base with
  | none =>
    rw [Option.mapM_none, pure_eq_ok_iff]
    constructor
    · rintro rfl
      exact .inl ⟨rfl, rfl⟩
    · rintro (⟨-, rfl⟩ | ⟨_, _, ⟨⟩, -⟩)
      rfl
  | some r =>
    simp only [Option.mapM_some, map_eq_pure_bind, bind_eq_ok_iff, pure_eq_ok_iff, reduceCtorEq,
      false_and, false_or, Option.some.injEq, exists_eq_left', exists_and_left]
    simp [eq_comm]

/-- A declaration resolves when its base and all its fields do. -/
theorem resolveSymbol_eq_ok_iff {t : TypeDef} :
    w.resolveSymbol f s = .ok t ↔
      ∃ baseId fields, s.decl.base.mapM (w.resolveId f) = .ok baseId ∧
        List.Forall₂ (fun field d => w.resolveField f s field = .ok d)
          (s.decl.fields.zip s.decl.indexes) fields ∧
        t = typeDef s baseId fields := by
  rw [resolveSymbol]
  simp only [bind_eq_ok_iff, pure_eq_ok_iff, mapM_eq_ok_iff]
  constructor
  · rintro ⟨baseId, hbase, fields, hfields, rfl⟩
    exact ⟨baseId, fields, hbase, hfields, rfl⟩
  · rintro ⟨baseId, fields, hbase, hfields, rfl⟩
    exact ⟨baseId, hbase, fields, hfields, rfl⟩

/-- A file compiles exactly if its types resolve, and it gets the id that its contents call for. -/
theorem compileFile_eq_ok_iff {c : CompiledFile} :
    w.compileFile f = .ok c ↔
      List.Forall₂ (fun s t => w.resolveSymbol f s = .ok t) f.symbols c.types ∧
        c.packageName = Path.name f.file.path ∧ c.path = f.file.fullPath ∧ c.id = c.contentId := by
  rw [compileFile]
  simp only [bind_eq_ok_iff, pure_eq_ok_iff, mapError_eq_ok_iff, mapM_eq_ok_iff]
  constructor
  · rintro ⟨types, htypes, rfl⟩
    exact ⟨htypes, rfl, rfl, rfl⟩
  · rintro ⟨htypes, hname, hpath, hid⟩
    refine ⟨c.types, htypes, ?_⟩
    obtain ⟨id, packageName, path, types⟩ := c
    simp only at hname hpath hid
    subst hname hpath
    rw [hid]
    rfl

/-- A snapshot holds the compiled files of a workspace in the order of their paths, under the
hashcode of their ids. -/
theorem snapshot_eq_ok_iff {version : UInt32} {snap : Snapshot} :
    w.snapshot version = .ok snap ↔
      ∃ files, List.Forall₂ (fun f c => w.compileFile f = .ok c) w.filesByPackage files ∧
        snap.files = files.mergeSort (fun a b => a.path ≤ b.path) ∧
        snap.hashcode = Snapshot.hashcodeOf (snap.files.map (·.id)) ∧ snap.version = version := by
  rw [snapshot]
  simp only [bind_eq_ok_iff, pure_eq_ok_iff, mapM_eq_ok_iff]
  constructor
  · rintro ⟨files, hfiles, rfl⟩
    exact ⟨files, hfiles, rfl, rfl, rfl⟩
  · rintro ⟨files, hfiles, hsort, hhash, rfl⟩
    refine ⟨files, hfiles, ?_⟩
    obtain ⟨version, hashcode, sorted⟩ := snap
    simp only at hsort hhash
    subst hsort
    rw [hhash]

/-- Every file of a snapshot is the compiled form of a file of the workspace. -/
theorem exists_compileFile_of_mem {version : UInt32} {snap : Snapshot}
    (h : w.snapshot version = .ok snap) {c : CompiledFile} (hc : c ∈ snap.files) :
    ∃ f ∈ w.filesByPackage, w.compileFile f = .ok c := by
  obtain ⟨files, hfiles, hsort, -⟩ := snapshot_eq_ok_iff.1 h
  rw [hsort, List.mem_mergeSort] at hc
  exact exists_mem_of_mem_of_forall₂ hfiles hc

/-- The id of a file in a snapshot is the one that its contents call for. -/
theorem id_eq_contentId_of_mem {version : UInt32} {snap : Snapshot}
    (h : w.snapshot version = .ok snap) {c : CompiledFile} (hc : c ∈ snap.files) :
    c.id = c.contentId := by
  obtain ⟨f, -, hf⟩ := exists_compileFile_of_mem h hc
  exact (compileFile_eq_ok_iff.1 hf).2.2.2

end Schemata.Workspace

/-!
## Resolving looks at references only

What resolving yields depends on a workspace only through the ids of the references that are
resolved. Where two workspaces agree on these, they yield the same.
-/

namespace Schemata.Workspace

variable {w w' : Workspace} {f f' : FileScope}

/-- Whether all references of a type resolve in a file of one workspace as they do in a file of
another one. -/
structure AgreeOn (w : Workspace) (f : FileScope) (w' : Workspace) (f' : FileScope)
    (d : TypeDecl) : Prop where
  base : ∀ r, d.base = some r → w.resolveId f r = w'.resolveId f' r
  nodes : ∀ n ∈ d.typeNodes, n.primitive? = none → w.resolveId f n.ref = w'.resolveId f' n.ref

/-- A type resolves to the same in two workspaces that agree on the names in it. -/
theorem resolveType_congr (t : TypeExpr)
    (h : ∀ n ∈ t.nodes, n.primitive? = none → w.resolveId f n.ref = w'.resolveId f' n.ref) :
    w.resolveType f t = w'.resolveType f' t := by
  induction t using TypeExpr.ind with
  | mk r nullable args span ih =>
    rw [resolveType, resolveType]
    split
    · have hargs : ∀ a ∈ args, w.resolveType f a = w'.resolveType f' a := fun a ha =>
        ih a ha fun n hn => h n (TypeExpr.mem_nodes_of_mem_args ha hn)
      rw [resolveTypes_eq_mapM, resolveTypes_eq_mapM, mapM_congr_of_mem hargs]
    · next hp =>
      have hid : w.resolveId f r = w'.resolveId f' r := h _ (TypeExpr.self_mem_nodes _) hp
      rw [hid]

theorem resolveField_congr {s : Symbol} {field : FieldDecl × Option Int64}
    (hfield : field.1 ∈ s.decl.fields) (h : w.AgreeOn f w' f' s.decl) :
    w.resolveField f s field = w'.resolveField f' s field := by
  have htype : w.resolveFieldType f s field.1 = w'.resolveFieldType f' s field.1 := by
    rw [resolveFieldType, resolveFieldType]
    split
    · rfl
    · next t ht _ =>
      rw [resolveType_congr t fun n hn hp => h.nodes n (TypeDecl.mem_typeNodes hfield ht hn) hp]
    · rfl
  rw [resolveField, resolveField, htype]

/-- A declaration resolves to the same in two workspaces that agree on the names in it. -/
theorem resolveSymbol_congr {s : Symbol} (h : w.AgreeOn f w' f' s.decl) :
    w.resolveSymbol f s = w'.resolveSymbol f' s := by
  have hbase : s.decl.base.mapM (w.resolveId f) = s.decl.base.mapM (w'.resolveId f') := by
    cases hr : s.decl.base with
    | none => rfl
    | some r => rw [Option.mapM_some, Option.mapM_some, h.base r hr]
  have hfields : (s.decl.fields.zip s.decl.indexes).mapM (w.resolveField f s) =
      (s.decl.fields.zip s.decl.indexes).mapM (w'.resolveField f' s) :=
    mapM_congr_of_mem fun field hfield => resolveField_congr (List.of_mem_zip hfield).1 h
  rw [resolveSymbol, resolveSymbol, hbase, hfields]

/-- A file compiles alike where its references are agreed on. -/
theorem compileFile_congr (hfile : f.file = f'.file) (hsymbols : f.symbols = f'.symbols)
    (h : ∀ s ∈ f.symbols, w.AgreeOn f w' f' s.decl) : w.compileFile f = w'.compileFile f' := by
  have htypes : f.symbols.mapM (w.resolveSymbol f) = f'.symbols.mapM (w'.resolveSymbol f') := by
    rw [← hsymbols]
    exact mapM_congr_of_mem fun s hs => resolveSymbol_congr (h s hs)
  rw [compileFile, compileFile, htypes, hfile]

end Schemata.Workspace
