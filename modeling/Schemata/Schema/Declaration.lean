import Schemata.Json.Basic
import Schemata.Source
import Schemata.Text.Quoted

/-!
# Schemas

What a schema says: its types, with their fields, and the values that it states.
-/

/-!
## Primitive types

The value types that need no declaration.
-/

namespace Schemata

/-- A value type that is part of the schema language itself. -/
inductive Primitive where
  | string | bool
  | int8 | int16 | int32 | int64
  | uint8 | uint16 | uint32 | uint64
  | float32 | float64
  | timestamp | duration
  | list | map
deriving DecidableEq, Repr

namespace Primitive

def all : List Primitive :=
  [.string, .bool, .int8, .int16, .int32, .int64, .uint8, .uint16, .uint32, .uint64,
    .float32, .float64, .timestamp, .duration, .list, .map]

def keyword : Primitive → String
  | .string => "string"
  | .bool => "bool"
  | .int8 => "int8"
  | .int16 => "int16"
  | .int32 => "int32"
  | .int64 => "int64"
  | .uint8 => "uint8"
  | .uint16 => "uint16"
  | .uint32 => "uint32"
  | .uint64 => "uint64"
  | .float32 => "float32"
  | .float64 => "float64"
  | .timestamp => "timestamp"
  | .duration => "duration"
  | .list => "list"
  | .map => "map"

def ofKeyword? (word : String) : Option Primitive := all.find? (·.keyword == word)

def isCollection : Primitive → Bool
  | .list | .map => true
  | _ => false

def isSigned : Primitive → Bool
  | .int8 | .int16 | .int32 | .int64 => true
  | _ => false

def isUnsigned : Primitive → Bool
  | .uint8 | .uint16 | .uint32 | .uint64 => true
  | _ => false

def isInteger (p : Primitive) : Bool := p.isSigned || p.isUnsigned

def isFloat : Primitive → Bool
  | .float32 | .float64 => true
  | _ => false

/-- Keys of a map are strings, bools or integers. -/
def isMapKey (p : Primitive) : Bool := p == .string || p == .bool || p.isInteger

def arity : Primitive → Nat
  | .list => 1
  | .map => 2
  | _ => 0

/-- The least and the greatest literal of an integer type. Literals are signed 64-bit numbers, which
caps `uint64`. -/
def range? : Primitive → Option (Int × Int)
  | .int8 => some (-128, 127)
  | .int16 => some (-32768, 32767)
  | .int32 => some (-2147483648, 2147483647)
  | .int64 => some (-9223372036854775808, 9223372036854775807)
  | .uint8 => some (0, 255)
  | .uint16 => some (0, 65535)
  | .uint32 => some (0, 4294967295)
  | .uint64 => some (0, 9223372036854775807)
  | _ => none

/-- A primitive is read from its own keyword. -/
theorem ofKeyword?_keyword (p : Primitive) : ofKeyword? p.keyword = some p := by
  cases p <;> decide

theorem keyword_of_ofKeyword? {word : String} {p : Primitive} (h : ofKeyword? word = some p) :
    p.keyword = word := by
  simpa using List.find?_some h

end Primitive

/-!
## Literals

The values that a schema can state: defaults of fields and values of annotations. A map keeps its
entries in the order in which they are written, and keys may repeat.

Literals are shown in messages and exchanged as JSON, where each one names its kind.
-/

inductive Literal where
  | string (value : String)
  | int (value : Int64)
  | float (value : Binary64)
  | bool (value : Bool)
  | list (items : List Literal)
  | map (entries : List (Literal × Literal))

namespace Literal

def kind : Literal → String
  | .string _ => "string"
  | .int _ => "int"
  | .float _ => "float"
  | .bool _ => "bool"
  | .list _ => "list"
  | .map _ => "map"

/-- Lists and maps are made of other literals, scalars are not. -/
def isScalar : Literal → Bool
  | .list _ | .map _ => false
  | _ => true

/-- Numbers in messages: a tie goes to the greater digit, and a positive exponent has no sign. -/
def numberLayout : Number.Layout := ⟨.up, -4, false⟩

def floatText (x : Binary64) : String :=
  if x.isNaN then "NaN"
  else if x.isFinite then String.ofList (Number.render numberLayout x)
  else if x.isNegative then "-inf"
  else "inf"

mutual

def text : Literal → String
  | .string s => Text.quoted s
  | .int i => String.ofList (Numeral.ofInt i.toInt)
  | .float x => floatText x
  | .bool b => if b then "true" else "false"
  | .list items => "[" ++ ", ".intercalate (itemTexts items) ++ "]"
  | .map entries => "[" ++ ", ".intercalate (entryTexts entries) ++ "]"

def itemTexts : List Literal → List String
  | [] => []
  | l :: rest => text l :: itemTexts rest

def entryTexts : List (Literal × Literal) → List String
  | [] => []
  | (k, v) :: rest => (text k ++ ": " ++ text v) :: entryTexts rest

end

/-- A JSON object with the kind and the value of a literal. -/
def tagged (kind : String) (value : Json) : Json :=
  .object [("kind", .string kind), ("value", value)]

mutual

def toJson : Literal → Json
  | .string s => tagged "string" (.string s)
  | .int i => tagged "int" (.int i.toInt)
  | .float x => tagged "float" (.float x)
  | .bool b => tagged "bool" (.bool b)
  | .list items => tagged "list" (.array (itemsToJson items))
  | .map entries => tagged "map" (.array (entriesToJson entries))

def itemsToJson : List Literal → List Json
  | [] => []
  | l :: rest => toJson l :: itemsToJson rest

def entriesToJson : List (Literal × Literal) → List Json
  | [] => []
  | (k, v) :: rest => .array [toJson k, toJson v] :: entriesToJson rest

end

/-- Reads the kind of the literal that a record is: the member of an object is a word, and the first
item of an array one of the choices. -/
def readKindOf (access : Json.Access) : Json.Reader String
  | .array (kind :: _) =>
    Json.readChoice ["string", "int", "float", "bool", "list", "map"] access kind
  | .object members => Json.Members.required members "kind" (Json.readWord access)
  | _ => none

/-- Reads a literal that is nested no deeper than `bound`. -/
def readWithin : Nat → Json.Access → Json.Reader Literal
  | 0, _, _ => none
  | bound + 1, access, j => do
    let kind ← readKindOf access j
    let members ← Json.readRecord ["kind", "value"] j
    let value ← members.required "value" some
    let access := members.accessTo "value" "kind" access
    if access = .buffered ∧ !value.isReadable then none
    else
      match kind with
      | "string" => .string <$> Json.readString value
      | "int" => .int <$> Json.readInt64 value
      | "float" => .float <$> Json.readFloat value
      | "bool" => .bool <$> Json.readBool value
      | "list" => .list <$> Json.readList (readWithin bound access) value
      | "map" =>
        .map <$> Json.readList
          (Json.readPair (readWithin bound access) (readWithin bound access)) value
      | _ => none

def read : Json.Reader Literal := fun j => readWithin j.depth .direct j

end Literal

/-!
## Declarations

What a source file declares, as its author wrote it: the packages it uses, and its types with their
fields, defaults and annotations. Every part keeps the place where it stands, for the sake of
messages.
-/

/-- A name and where it stands. -/
structure Ident where
  name : String
  span : Span
deriving DecidableEq, Repr

/-- Imports without an alias go by this one. -/
def defaultAlias : String := "."

/-- `use "path"` or `use "path" as alias`. -/
structure UseDecl where
  path : String
  aliasName : Option Ident
  span : Span
deriving DecidableEq, Repr

/-- The alias that an optional alias stands for. -/
def aliasKey (aliasName : Option Ident) : String := (aliasName.map (·.name)).getD defaultAlias

inductive Modifier where
  | struct | enum | union | base
deriving DecidableEq, Repr

namespace Modifier

def all : List Modifier := [.struct, .enum, .union, .base]

def keyword : Modifier → String
  | .struct => "struct"
  | .enum => "enum"
  | .union => "union"
  | .base => "base"

def ofKeyword? (word : String) : Option Modifier := all.find? (·.keyword == word)

end Modifier

/-- A type name, with the alias of the package that it is looked up in. -/
structure TypeRef where
  name : String
  qualifier : Option String
  span : Span
deriving DecidableEq, Repr

def TypeRef.text (r : TypeRef) : String :=
  match r.qualifier with
  | some a => s!"{a}.{r.name}"
  | none => r.name

/-- A value type as it is written: a name, arguments, and whether the value may be missing. -/
inductive TypeExpr where
  | mk (ref : TypeRef) (nullable : Bool) (args : List TypeExpr) (span : Span)

namespace TypeExpr

def ref : TypeExpr → TypeRef
  | .mk r _ _ _ => r

def nullable : TypeExpr → Bool
  | .mk _ n _ _ => n

def args : TypeExpr → List TypeExpr
  | .mk _ _ as _ => as

def span : TypeExpr → Span
  | .mk _ _ _ s => s

/-- The primitive that a value type names. A name with an alias is never that of a primitive. -/
def primitive? (t : TypeExpr) : Option Primitive :=
  if t.ref.qualifier.isSome then none else Primitive.ofKeyword? t.ref.name

mutual

def text : TypeExpr → String
  | .mk r nullable as _ =>
    let inner := if as.isEmpty then "" else "(" ++ ", ".intercalate (argTexts as) ++ ")"
    r.text ++ inner ++ if nullable then "?" else ""

def argTexts : List TypeExpr → List String
  | [] => []
  | t :: rest => text t :: argTexts rest

end

mutual

/-- A value type with all value types inside it, each one before its arguments. -/
def nodes : TypeExpr → List TypeExpr
  | .mk r nullable as span => .mk r nullable as span :: argNodes as

def argNodes : List TypeExpr → List TypeExpr
  | [] => []
  | t :: rest => nodes t ++ argNodes rest

end

end TypeExpr

/-- `key = value`, in a block of defaults or annotations. -/
structure Assignment where
  key : Ident
  value : Literal
  valueSpan : Span

/-- A field of a type, or a member of an enum. -/
structure FieldDecl where
  name : Ident
  /-- The index, if one is written. -/
  index : Option Int64
  valueType : Option TypeExpr
  documentation : List String
  annotations : List Assignment
  span : Span

structure TypeDecl where
  name : Ident
  modifier : Modifier
  /-- The type that this one extends. -/
  base : Option TypeRef
  fields : List FieldDecl
  defaults : List Assignment
  documentation : List String
  annotations : List Assignment
  span : Span

/-- The index behind a given one, unless the given one is missing or the last there is. -/
def nextIndex (previous : Option Int64) : Option Int64 :=
  previous.bind fun p => if p < Int64.maxValue then some (p + 1) else none

/-- The indexes of some fields: a field without a written index goes on from the field before it. -/
def indexesFrom (previous : Option Int64) : List (Option Int64) → List (Option Int64)
  | [] => []
  | written :: rest =>
    let index := written.or (nextIndex previous)
    index :: indexesFrom index rest

namespace TypeDecl

def field? (d : TypeDecl) (name : String) : Option FieldDecl :=
  d.fields.find? (·.name.name == name)

/-- The index of every field. The first field has index 0 if none is written; where the indexes run
out, the fields have none up to the next written index. -/
def indexes (d : TypeDecl) : List (Option Int64) :=
  indexesFrom (some (-1)) (d.fields.map (·.index))

/-- The value types written in the fields, each one before its arguments. -/
def typeNodes (d : TypeDecl) : List TypeExpr :=
  (d.fields.filterMap (·.valueType)).flatMap (·.nodes)

end TypeDecl

structure SourceFile where
  file : FileRef
  uses : List UseDecl
  types : List TypeDecl

end Schemata
