import Schemata.Data
import Schemata.Schema.Declaration

/-!
# Snapshots

A snapshot is a schema with every reference resolved: a type is known by its id, and value types
name the ids of the types that they refer to.
-/

namespace Schemata

/-- A value type with its references resolved. -/
inductive ResolvedType where
  | primitive (primitive : Primitive) (nullable : Bool) (arguments : List ResolvedType)
  | custom (typeId : String) (nullable : Bool) (importAlias : Option String)

namespace ResolvedType

def nullable : ResolvedType → Bool
  | .primitive _ n _ => n
  | .custom _ n _ => n

def primitive? : ResolvedType → Option Primitive
  | .primitive p _ _ => some p
  | .custom .. => none

end ResolvedType

structure FieldDef where
  index : Int64
  name : String
  documentation : List String
  annotations : OrderedMap Literal
  defaultValue : Option Literal
  /-- Members of an enum have no type. -/
  valueType : Option ResolvedType

structure TypeDef where
  id : String
  name : String
  modifier : Modifier
  documentation : List String
  annotations : OrderedMap Literal
  defaults : OrderedMap Literal
  /-- The id of the type that this one extends. -/
  baseId : Option String
  fields : List FieldDef

def TypeDef.field? (t : TypeDef) (name : String) : Option FieldDef :=
  t.fields.find? (·.name == name)

structure CompiledFile where
  id : String
  packageName : String
  /-- The path relative to the project root. -/
  path : String
  types : List TypeDef

def CompiledFile.type? (f : CompiledFile) (name : String) : Option TypeDef :=
  f.types.find? (·.name == name)

structure Snapshot where
  version : UInt32
  /-- The fingerprint of the ids of all files. -/
  hashcode : String
  files : List CompiledFile

namespace Snapshot

def file? (s : Snapshot) (path : String) : Option CompiledFile := s.files.find? (·.path == path)

def types (s : Snapshot) : List TypeDef := s.files.flatMap (·.types)

def typeById? (s : Snapshot) (id : String) : Option TypeDef := s.types.find? (·.id == id)

end Snapshot

end Schemata
