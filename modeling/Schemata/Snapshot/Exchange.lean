import Schemata.Json.Parser
import Schemata.Json.Printer
import Schemata.Schema.Exchange
import Schemata.Snapshot.Basic

/-!
# Snapshots as JSON

Parts that are absent, and empty lists of type arguments, are left out. Annotations and defaults are
objects whose members keep their order; on reading, a later member replaces the value of an earlier
one of its name.
-/

namespace Schemata

open Json (Reader)

/-- A member that is left out if there is nothing to write. -/
def Json.memberIfAny {α : Type} (key : String) (f : α → Json) : Option α → List (String × Json)
  | none => []
  | some a => [(key, f a)]

namespace OrderedMap

def toJson (m : OrderedMap Literal) : Json := .object (m.entries.map fun e => (e.1, e.2.toJson))

def read : Reader (OrderedMap Literal) := fun j => do
  let members ← Json.readMembers j
  let entries ← members.mapM fun (key, value) => do pure (key, ← Literal.read value)
  pure (ofLasts entries)

end OrderedMap

/-- Reads a primitive that was put aside. -/
def Primitive.read : Reader Primitive := fun j => do
  Primitive.ofKeyword? (← Json.readWord .buffered j)

namespace ResolvedType

mutual

def toJson : ResolvedType → Json
  | .primitive p nullable as =>
    .object ([("kind", .string "primitive"), ("primitive", .string p.keyword),
      ("nullable", .bool nullable)] ++
      if as.isEmpty then [] else [("arguments", .array (argumentsToJson as))])
  | .custom typeId nullable importAlias =>
    .object ([("kind", .string "custom"), ("objectId", .string typeId),
      ("nullable", .bool nullable)] ++ Json.memberIfAny "importAlias" .string importAlias)

def argumentsToJson : List ResolvedType → List Json
  | [] => []
  | t :: rest => toJson t :: argumentsToJson rest

end

def readKind : Json.Access → Reader String := Json.readChoice ["primitive", "custom"]

/-- Reads the kind of the value type that a record is. -/
def readKindOf (access : Json.Access) : Reader String
  | .array (kind :: _) => readKind access kind
  | .object members => Json.Members.required members "kind" (readKind access)
  | _ => none

/-- Reads a value type that is nested no deeper than `bound`. All its parts but the kind are put
aside. -/
def readWithin : Nat → Json.Access → Reader ResolvedType
  | 0, _, _ => none
  | bound + 1, access, j => do
    match ← readKindOf access j with
    | "primitive" =>
      let members ← Json.readRecord ["kind", "primitive", "nullable", "arguments"] j
      let p ← members.required "primitive" Primitive.read
      let nullable ← members.required "nullable" Json.readBool
      let arguments ←
        members.withDefault "arguments" [] (Json.readList (readWithin bound .buffered))
      pure (.primitive p nullable arguments)
    | "custom" =>
      let members ← Json.readRecord ["kind", "objectId", "nullable", "importAlias"] j
      let typeId ← members.required "objectId" Json.readString
      let nullable ← members.required "nullable" Json.readBool
      let importAlias ← members.optional "importAlias" Json.readString
      pure (.custom typeId nullable importAlias)
    | _ => none

/-- Reads a value type, of which every part has to be readable. -/
def read : Reader ResolvedType := fun j =>
  if j.isReadable then readWithin j.depth .direct j else none

end ResolvedType

namespace FieldDef

def toJson (f : FieldDef) : Json :=
  .object ([("index", .int f.index.toInt), ("name", .string f.name),
    ("documentation", Json.strings f.documentation), ("annotations", f.annotations.toJson)] ++
    Json.memberIfAny "defaultValue" Literal.toJson f.defaultValue ++
    Json.memberIfAny "type" ResolvedType.toJson f.valueType)

def read : Reader FieldDef := fun j => do
  let members ← Json.readRecord
    ["index", "name", "documentation", "annotations", "defaultValue", "type"] j
  pure {
    index := ← members.required "index" Json.readInt64
    name := ← members.required "name" Json.readString
    documentation := ← members.required "documentation" (Json.readList Json.readString)
    annotations := ← members.required "annotations" OrderedMap.read
    defaultValue := ← members.optional "defaultValue" Literal.read
    valueType := ← members.optional "type" ResolvedType.read }

end FieldDef

namespace TypeDef

def toJson (t : TypeDef) : Json :=
  .object ([("id", .string t.id), ("name", .string t.name),
    ("modifier", .string t.modifier.keyword), ("documentation", Json.strings t.documentation),
    ("annotations", t.annotations.toJson), ("defaults", t.defaults.toJson)] ++
    Json.memberIfAny "baseType" .string t.baseId ++
    [("fields", .array (t.fields.map (·.toJson)))])

def read : Reader TypeDef := fun j => do
  let members ← Json.readRecord
    ["id", "name", "modifier", "documentation", "annotations", "defaults", "baseType", "fields"] j
  pure {
    id := ← members.required "id" Json.readString
    name := ← members.required "name" Json.readString
    modifier := ← members.required "modifier" Modifier.read
    documentation := ← members.required "documentation" (Json.readList Json.readString)
    annotations := ← members.required "annotations" OrderedMap.read
    defaults := ← members.required "defaults" OrderedMap.read
    baseId := ← members.optional "baseType" Json.readString
    fields := ← members.required "fields" (Json.readList FieldDef.read) }

end TypeDef

namespace CompiledFile

def toJson (f : CompiledFile) : Json :=
  .object [("id", .string f.id), ("packageName", .string f.packageName),
    ("path", .string f.path), ("types", .array (f.types.map (·.toJson)))]

def read : Reader CompiledFile := fun j => do
  let members ← Json.readRecord ["id", "packageName", "path", "types"] j
  pure {
    id := ← members.required "id" Json.readString
    packageName := ← members.required "packageName" Json.readString
    path := ← members.required "path" Json.readString
    types := ← members.required "types" (Json.readList TypeDef.read) }

end CompiledFile

namespace Snapshot

def toJson (s : Snapshot) : Json :=
  .object [("version", .int s.version.toNat), ("hashcode", .string s.hashcode),
    ("files", .array (s.files.map (·.toJson)))]

def read : Reader Snapshot := fun j => do
  let members ← Json.readRecord ["version", "hashcode", "files"] j
  pure {
    version := ← members.required "version" Json.readUInt32
    hashcode := ← members.required "hashcode" Json.readString
    files := ← members.required "files" (Json.readList CompiledFile.read) }

def text (s : Snapshot) : String := s.toJson.compact

def prettyText (s : Snapshot) : String := s.toJson.pretty

def ofText? (text : String) : Option Snapshot := (Json.parse? text).bind read

end Snapshot

end Schemata
