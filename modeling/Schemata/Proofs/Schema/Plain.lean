import Schemata.Proofs.Data.Except
import Schemata.Proofs.Schema.Declaration

/-!
# Declarations without places

The plain form of a declaration has no places, and every index that is in effect is written out in
it. It is what matters of a declaration: whoever moves its parts about, or writes out indexes that
are in effect anyway, leaves the plain form as it is.
-/

/-!
## Declarations that are alike

Two declarations are alike if they declare one thing, with the same effective indexes. The places
where their parts stand, documentation, and whether an index is written have no part in it: a
declaration that is spelled in another way is alike to what it was.
-/

namespace Schemata

/-- References that give one name under one alias. -/
def TypeRef.Alike (r s : TypeRef) : Prop := r.name = s.name ∧ r.qualifier = s.qualifier

/-- Value types that are alike node by node. -/
inductive TypeExpr.Alike : TypeExpr → TypeExpr → Prop where
  | mk {r s : TypeRef} {nullable : Bool} {as bs : List TypeExpr} {span span' : Span}
      (ref : r.Alike s) (args : List.Forall₂ TypeExpr.Alike as bs) :
      TypeExpr.Alike (.mk r nullable as span) (.mk s nullable bs span')

def Assignment.entry (a : Assignment) : String × Literal := (a.key.name, a.value)

/-- Fields that are alike up to their indexes. -/
structure FieldDecl.Alike (f g : FieldDecl) : Prop where
  name : f.name.name = g.name.name
  valueType : Option.Rel TypeExpr.Alike f.valueType g.valueType
  annotations : f.annotations.map (·.entry) = g.annotations.map (·.entry)

/-- Types that are alike up to their fields. -/
structure TypeDecl.AlikeHead (d e : TypeDecl) : Prop where
  name : d.name.name = e.name.name
  modifier : d.modifier = e.modifier
  base : Option.Rel TypeRef.Alike d.base e.base
  defaults : d.defaults.map (·.entry) = e.defaults.map (·.entry)
  annotations : d.annotations.map (·.entry) = e.annotations.map (·.entry)

/-- Types that are alike. -/
structure TypeDecl.Alike (d e : TypeDecl) : Prop extends TypeDecl.AlikeHead d e where
  fields : List.Forall₂ FieldDecl.Alike d.fields e.fields
  indexes : d.indexes = e.indexes

/-- A type spelled in another way: a field is written with the index that it was written with, or
with the one that it has in effect. -/
structure TypeDecl.Respelled (d e : TypeDecl) : Prop extends TypeDecl.AlikeHead d e where
  fields : List.Forall₂ (fun f g => f.1.Alike g ∧ (g.index = f.1.index ∨ g.index = f.2))
    (d.fields.zip d.indexes) e.fields

/-- Respelled declarations are alike. -/
theorem TypeDecl.Respelled.alike {d e : TypeDecl} (h : d.Respelled e) : d.Alike e where
  toAlikeHead := h.toAlikeHead
  fields := (forall₂_of_zip d.length_indexes h.fields).imp fun _ _ ⟨_, halike, _⟩ => halike
  indexes := (indexesFrom_eq_of_forall₂ (h.fields.imp fun _ _ hf => hf.2)).symm

/-! ## Plain forms -/

/-- The place of everything in plain form. -/
def Span.nowhere : Span := ⟨⟨0, 0⟩, ⟨0, 0⟩⟩

def Ident.plain (i : Ident) : Ident := ⟨i.name, .nowhere⟩

def TypeRef.plain (r : TypeRef) : TypeRef := ⟨r.name, r.qualifier, .nowhere⟩

mutual

def TypeExpr.plain : TypeExpr → TypeExpr
  | .mk r nullable as _ => .mk r.plain nullable (TypeExpr.plainArgs as) .nowhere

def TypeExpr.plainArgs : List TypeExpr → List TypeExpr
  | [] => []
  | t :: rest => t.plain :: TypeExpr.plainArgs rest

end

def Assignment.plain (a : Assignment) : Assignment := ⟨a.key.plain, a.value, .nowhere⟩

/-- A field in plain form, with its index in effect. -/
def FieldDecl.plain (f : FieldDecl) (index : Option Int64) : FieldDecl where
  name := f.name.plain
  index := index
  valueType := f.valueType.map (·.plain)
  documentation := f.documentation
  annotations := f.annotations.map (·.plain)
  span := .nowhere

def TypeDecl.plain (d : TypeDecl) : TypeDecl where
  name := d.name.plain
  modifier := d.modifier
  base := d.base.map (·.plain)
  fields := (d.fields.zip d.indexes).map fun f => f.1.plain f.2
  defaults := d.defaults.map (·.plain)
  documentation := d.documentation
  annotations := d.annotations.map (·.plain)
  span := .nowhere

def UseDecl.plain (u : UseDecl) : UseDecl := ⟨u.path, u.aliasName.map (·.plain), .nowhere⟩

def SourceFile.plain (s : SourceFile) : SourceFile :=
  ⟨s.file, s.uses.map (·.plain), s.types.map (·.plain)⟩

@[simp] theorem Ident.name_plain (i : Ident) : i.plain.name = i.name := rfl

@[simp] theorem aliasKey_plain (aliasName : Option Ident) :
    aliasKey (aliasName.map (·.plain)) = aliasKey aliasName := by
  cases aliasName with
  | none => rfl
  | some i => rfl

section Rel

variable {α β : Type}

theorem rel_map_right {r : α → β → Prop} {f : α → β} (h : ∀ a, r a (f a)) (o : Option α) :
    Option.Rel r o (o.map f) := by
  cases o with
  | none => exact .none
  | some a => exact .some (h a)

theorem map_eq_of_rel {r : α → α → Prop} {f : α → β} (h : ∀ a b, r a b → f a = f b)
    {o o' : Option α} (hrel : Option.Rel r o o') : o.map f = o'.map f := by
  cases hrel with
  | none => rfl
  | some hab => exact congrArg some (h _ _ hab)

end Rel

/-! ### Value types -/

theorem TypeRef.plain_eq_of_alike (r s : TypeRef) (h : r.Alike s) : r.plain = s.plain := by
  rw [plain, plain, h.1, h.2]

namespace TypeExpr

theorem plainArgs_eq_map (as : List TypeExpr) : plainArgs as = as.map (·.plain) := by
  induction as with
  | nil => rfl
  | cons t rest ih => rw [plainArgs, ih, List.map_cons]

theorem plain_mk (r : TypeRef) (nullable : Bool) (as : List TypeExpr) (span : Span) :
    (mk r nullable as span).plain = .mk r.plain nullable (as.map (·.plain)) .nowhere := by
  rw [plain, plainArgs_eq_map]

@[simp] theorem ref_plain (t : TypeExpr) : t.plain.ref = t.ref.plain := by
  cases t
  rw [plain_mk]
  rfl

@[simp] theorem nullable_plain (t : TypeExpr) : t.plain.nullable = t.nullable := by
  cases t
  rw [plain_mk]
  rfl

@[simp] theorem args_plain (t : TypeExpr) : t.plain.args = t.args.map (·.plain) := by
  cases t
  rw [plain_mk]
  rfl

@[simp] theorem primitive?_plain (t : TypeExpr) : t.plain.primitive? = t.primitive? := by
  rw [primitive?, primitive?, ref_plain]
  rfl

@[simp] theorem nodes_plain (t : TypeExpr) : t.plain.nodes = t.nodes.map (·.plain) := by
  induction t using TypeExpr.ind with
  | mk r nullable as span ih =>
    rw [plain_mk, nodes_mk, nodes_mk, List.map_cons, plain_mk, List.flatMap_map, List.map_flatMap,
      List.flatMap_congr ih]

theorem alike_plain (t : TypeExpr) : t.Alike t.plain := by
  induction t using TypeExpr.ind with
  | mk r nullable as span ih =>
    rw [plain_mk]
    exact .mk ⟨rfl, rfl⟩ (List.forall₂_map_right_iff.2 (List.forall₂_same.2 ih))

/-- Alike type expressions have the same plain form. -/
theorem plain_eq_of_alike (t u : TypeExpr) (h : t.Alike u) : t.plain = u.plain := by
  induction t using TypeExpr.ind generalizing u with
  | mk r nullable as span ih =>
    cases h with
    | mk href hargs =>
      have hplain := ((List.forall₂_and_left _ _).2 ⟨ih, hargs⟩).imp fun a b hab => hab.1 b hab.2
      rw [plain_mk, plain_mk, map_eq_of_forall₂ hplain, TypeRef.plain_eq_of_alike _ _ href]

end TypeExpr

/-! ### Assignments and fields -/

@[simp] theorem Assignment.map_entry_plain (as : List Assignment) :
    (as.map (·.plain)).map (·.entry) = as.map (·.entry) := by
  rw [List.map_map]
  rfl

/-- The plain form of a block says no more than its keys and values. -/
theorem Assignment.map_plain_eq_of_map_entry_eq {as bs : List Assignment}
    (h : as.map (·.entry) = bs.map (·.entry)) : as.map (·.plain) = bs.map (·.plain) := by
  have hplain : ∀ cs : List Assignment,
      cs.map (·.plain) = (cs.map (·.entry)).map fun e => ⟨⟨e.1, .nowhere⟩, e.2, .nowhere⟩ := by
    intro cs
    rw [List.map_map]
    rfl
  rw [hplain as, hplain bs, h]

theorem FieldDecl.alike_plain (f : FieldDecl) (index : Option Int64) : f.Alike (f.plain index) where
  name := rfl
  valueType := rel_map_right TypeExpr.alike_plain f.valueType
  annotations := (Assignment.map_entry_plain f.annotations).symm

/-- Alike fields with one documentation and one index have the same plain form. -/
theorem FieldDecl.plain_eq_of_alike {f g : FieldDecl} (h : f.Alike g)
    (hdocumentation : f.documentation = g.documentation) (index : Option Int64) :
    f.plain index = g.plain index := by
  rw [FieldDecl.plain, FieldDecl.plain, Ident.plain, Ident.plain, h.name,
    map_eq_of_rel TypeExpr.plain_eq_of_alike h.valueType, hdocumentation,
    Assignment.map_plain_eq_of_map_entry_eq h.annotations]

/-! ### Types -/

namespace TypeDecl

variable {d e : TypeDecl}

@[simp] theorem name_plain (d : TypeDecl) : d.plain.name = d.name.plain := rfl

@[simp] theorem modifier_plain (d : TypeDecl) : d.plain.modifier = d.modifier := rfl

@[simp] theorem base_plain (d : TypeDecl) : d.plain.base = d.base.map (·.plain) := rfl

@[simp] theorem defaults_plain (d : TypeDecl) : d.plain.defaults = d.defaults.map (·.plain) := rfl

@[simp] theorem annotations_plain (d : TypeDecl) :
    d.plain.annotations = d.annotations.map (·.plain) := rfl

theorem map_fst_zip_indexes (d : TypeDecl) : (d.fields.zip d.indexes).map Prod.fst = d.fields :=
  List.map_fst_zip (Nat.le_of_eq d.length_indexes.symm)

/-- Writing out all indexes leaves them as they are. -/
@[simp] theorem indexes_plain (d : TypeDecl) : d.plain.indexes = d.indexes := by
  have hwritten : d.plain.fields.map (·.index) = d.indexes := by
    rw [plain, List.map_map]
    exact List.map_snd_zip (Nat.le_of_eq d.length_indexes)
  rw [indexes, hwritten, indexes, indexesFrom_indexesFrom]

/-- The plain fields carry the indexes that the written ones were given. -/
theorem zip_indexes_plain (d : TypeDecl) : d.plain.fields.zip d.plain.indexes =
    (d.fields.zip d.indexes).map fun f => (f.1.plain f.2, f.2) := by
  have hindexes : d.indexes = (d.fields.zip d.indexes).map Prod.snd :=
    (List.map_snd_zip (Nat.le_of_eq d.length_indexes)).symm
  rw [indexes_plain, plain]
  conv_lhs => arg 2; rw [hindexes]
  rw [List.zip_map']

/-- What does not depend on places and indexes is the same for the fields in plain form. -/
theorem map_fields_plain {α : Type} {look look' : FieldDecl → α}
    (h : ∀ f index, look (f.plain index) = look' f) :
    d.plain.fields.map look = d.fields.map look' := by
  conv_rhs => rw [← d.map_fst_zip_indexes]
  rw [plain, List.map_map, List.map_map]
  exact List.map_congr_left fun f _ => h f.1 f.2

theorem forall_mem_fields_plain {p q : FieldDecl → Prop} (h : ∀ f index, p (f.plain index) ↔ q f) :
    (∀ f ∈ d.plain.fields, p f) ↔ ∀ f ∈ d.fields, q f := by
  rw [plain, List.forall_mem_map]
  conv_rhs => rw [← d.map_fst_zip_indexes, List.forall_mem_map]
  exact forall₂_congr fun f _ => h f.1 f.2

theorem map_field?_plain {α : Type} {look look' : FieldDecl → α}
    (h : ∀ f index, look (f.plain index) = look' f) (name : String) :
    (d.plain.field? name).map look = (d.field? name).map look' := by
  have hfield : d.field? name =
      ((d.fields.zip d.indexes).find? (·.1.name.name == name)).map Prod.fst := by
    rw [field?, ← d.map_fst_zip_indexes, List.find?_map, d.map_fst_zip_indexes]
    rfl
  rw [hfield, field?, plain, List.find?_map, Option.map_map, Option.map_map]
  exact Option.map_congr fun f _ => h f.1 f.2

@[simp] theorem isSome_field?_plain (d : TypeDecl) (name : String) :
    (d.plain.field? name).isSome = (d.field? name).isSome := by
  have h : (d.plain.field? name).map (fun _ => ()) = (d.field? name).map fun _ => () :=
    map_field?_plain (fun _ _ => rfl) name
  rw [← Option.isSome_map, h, Option.isSome_map]

theorem bind_field?_plain (d : TypeDecl) (name : String) :
    (d.plain.field? name).bind (·.valueType) =
      ((d.field? name).bind (·.valueType)).map (·.plain) := by
  have h : (d.plain.field? name).map (·.valueType) =
      (d.field? name).map fun f => f.valueType.map (·.plain) :=
    map_field?_plain (fun _ _ => rfl) name
  cases hplain : d.plain.field? name <;> cases hfield : d.field? name <;> simp_all

@[simp] theorem typeNodes_plain (d : TypeDecl) : d.plain.typeNodes = d.typeNodes.map (·.plain) := by
  have htypes : d.plain.fields.map (·.valueType) = d.fields.map fun f =>
      f.valueType.map (·.plain) :=
    map_fields_plain fun _ _ => rfl
  have hfields : d.plain.fields.filterMap (·.valueType) =
      (d.fields.filterMap (·.valueType)).map (·.plain) := by
    have h := congrArg (List.filterMap fun o => o) htypes
    rw [List.filterMap_map, List.filterMap_map] at h
    rw [List.map_filterMap]
    exact h
  simp only [typeNodes, hfields, List.flatMap_map, List.map_flatMap, TypeExpr.nodes_plain]

theorem alike_plain (d : TypeDecl) : d.Alike d.plain where
  name := rfl
  modifier := rfl
  base := rel_map_right (fun _ => ⟨rfl, rfl⟩) d.base
  defaults := (Assignment.map_entry_plain d.defaults).symm
  annotations := (Assignment.map_entry_plain d.annotations).symm
  fields := by
    conv => arg 2; rw [← d.map_fst_zip_indexes]
    rw [plain, List.forall₂_map_left_iff, List.forall₂_map_right_iff, List.forall₂_same]
    exact fun f _ => f.1.alike_plain f.2
  indexes := d.indexes_plain.symm

/-- A type that is moved about, and some of whose indexes in effect are written out. -/
structure Retouched (d e : TypeDecl) : Prop extends d.AlikeHead e where
  documentation : d.documentation = e.documentation
  fields : List.Forall₂ (fun f g => (f.1.Alike g ∧ f.1.documentation = g.documentation) ∧
    (g.index = f.1.index ∨ g.index = f.2)) (d.fields.zip d.indexes) e.fields

theorem Retouched.respelled (h : d.Retouched e) : d.Respelled e where
  toAlikeHead := h.toAlikeHead
  fields := h.fields.imp fun _ _ hf => ⟨hf.1.1, hf.2⟩

/-- Retouching does not change the plain form of a declaration. -/
theorem Retouched.plain_eq (h : d.Retouched e) : d.plain = e.plain := by
  have hfields : (d.fields.zip d.indexes).map (fun f => f.1.plain f.2) =
      (e.fields.zip e.indexes).map fun f => f.1.plain f.2 := by
    have hpairs := (forall₂_zip_iff d.length_indexes e.length_indexes).2
      ⟨forall₂_of_zip d.length_indexes h.fields, h.respelled.alike.indexes⟩
    refine map_eq_of_forall₂ (hpairs.imp fun f g hfg => ?_)
    obtain ⟨⟨_, ⟨halike, hdocumentation⟩, _⟩, hindex⟩ := hfg
    rw [hindex, FieldDecl.plain_eq_of_alike halike hdocumentation]
  rw [plain, plain, Ident.plain, Ident.plain, h.name, h.modifier,
    map_eq_of_rel TypeRef.plain_eq_of_alike h.base, hfields,
    Assignment.map_plain_eq_of_map_entry_eq h.defaults, h.documentation,
    Assignment.map_plain_eq_of_map_entry_eq h.annotations]

end TypeDecl

/-! ### Sources -/

/-- A use that is moved. -/
def UseDecl.Alike (u v : UseDecl) : Prop :=
  u.path = v.path ∧ u.aliasName.map (·.name) = v.aliasName.map (·.name)

/-- A file whose parts are moved about, and some of whose indexes in effect are written out. -/
structure SourceFile.Retouched (a b : SourceFile) : Prop where
  file : a.file = b.file
  uses : List.Forall₂ UseDecl.Alike a.uses b.uses
  types : List.Forall₂ TypeDecl.Retouched a.types b.types

theorem UseDecl.plain_eq_of_alike (u v : UseDecl) (h : u.Alike v) : u.plain = v.plain := by
  have hplain : ∀ o : Option Ident, o.map (·.plain) = (o.map (·.name)).map fun name =>
      ⟨name, .nowhere⟩ := by
    intro o
    rw [Option.map_map]
    rfl
  rw [plain, plain, h.1, hplain u.aliasName, hplain v.aliasName, h.2]

/-- Retouching does not change the plain form of a file. -/
theorem SourceFile.Retouched.plain_eq {a b : SourceFile} (h : a.Retouched b) :
    a.plain = b.plain := by
  rw [plain, plain, h.file, map_eq_of_forall₂ (h.uses.imp UseDecl.plain_eq_of_alike),
    map_eq_of_forall₂ (h.types.imp fun _ _ ht => ht.plain_eq)]

end Schemata
