import Schemata.Schema.Declaration

/-!
# Declarations as JSON

Every structure is a record and written as an object. On writing, a missing part is `null`; on
reading it may also be left out, and so may lists.
-/

namespace Schemata

open Json (Reader)

/-- A part that may be missing. -/
def Json.orNull {α : Type} (f : α → Json) : Option α → Json
  | none => .null
  | some a => f a

def Json.strings (texts : List String) : Json := .array (texts.map .string)

namespace Pos

def toJson (p : Pos) : Json :=
  .object [("line", .int p.line.toNat), ("column", .int p.column.toNat)]

def read : Reader Pos := fun j => do
  let members ← Json.readRecord ["line", "column"] j
  pure ⟨← members.required "line" Json.readUInt32, ← members.required "column" Json.readUInt32⟩

end Pos

namespace Span

def toJson (s : Span) : Json := .object [("start", s.start.toJson), ("end", s.stop.toJson)]

def read : Reader Span := fun j => do
  let members ← Json.readRecord ["start", "end"] j
  pure ⟨← members.required "start" Pos.read, ← members.required "end" Pos.read⟩

end Span

namespace FileRef

def toJson (f : FileRef) : Json := .object [("path", .string f.path), ("name", .string f.name)]

def read : Reader FileRef := fun j => do
  let members ← Json.readRecord ["path", "name"] j
  pure ⟨← members.required "path" Json.readString, ← members.required "name" Json.readString⟩

end FileRef

namespace Ident

def toJson (i : Ident) : Json := .object [("name", .string i.name), ("span", i.span.toJson)]

def read : Reader Ident := fun j => do
  let members ← Json.readRecord ["name", "span"] j
  pure ⟨← members.required "name" Json.readString, ← members.required "span" Span.read⟩

end Ident

namespace UseDecl

def toJson (u : UseDecl) : Json :=
  .object [("path", .string u.path), ("alias", Json.orNull Ident.toJson u.aliasName),
    ("span", u.span.toJson)]

def read : Reader UseDecl := fun j => do
  let members ← Json.readRecord ["path", "alias", "span"] j
  pure {
    path := ← members.required "path" Json.readString
    aliasName := ← members.optional "alias" Ident.read
    span := ← members.required "span" Span.read }

end UseDecl

def Modifier.read : Reader Modifier := fun j => do Modifier.ofKeyword? (← Json.readWord .direct j)

namespace TypeRef

def toJson (r : TypeRef) : Json :=
  .object [("name", .string r.name), ("alias", Json.orNull .string r.qualifier),
    ("span", r.span.toJson)]

def read : Reader TypeRef := fun j => do
  let members ← Json.readRecord ["name", "alias", "span"] j
  pure {
    name := ← members.required "name" Json.readString
    qualifier := ← members.optional "alias" Json.readString
    span := ← members.required "span" Span.read }

end TypeRef

namespace TypeExpr

mutual

def toJson : TypeExpr → Json
  | .mk r nullable as span =>
    .object [("ident", r.toJson), ("nullable", .bool nullable), ("args", .array (argsToJson as)),
      ("span", span.toJson)]

def argsToJson : List TypeExpr → List Json
  | [] => []
  | t :: rest => toJson t :: argsToJson rest

end

def readWithin : Nat → Reader TypeExpr
  | 0, _ => none
  | bound + 1, j => do
    let members ← Json.readRecord ["ident", "nullable", "args", "span"] j
    let ref ← members.required "ident" TypeRef.read
    let nullable ← members.required "nullable" Json.readBool
    let args ← members.withDefault "args" [] (Json.readList (readWithin bound))
    let span ← members.required "span" Span.read
    pure (.mk ref nullable args span)

def read : Reader TypeExpr := fun j => readWithin j.depth j

end TypeExpr

namespace Assignment

def toJson (a : Assignment) : Json :=
  .object [("key", a.key.toJson), ("value", a.value.toJson), ("value_span", a.valueSpan.toJson)]

def read : Reader Assignment := fun j => do
  let members ← Json.readRecord ["key", "value", "value_span"] j
  pure {
    key := ← members.required "key" Ident.read
    value := ← members.required "value" Literal.read
    valueSpan := ← members.required "value_span" Span.read }

end Assignment

namespace FieldDecl

def toJson (f : FieldDecl) : Json :=
  .object [("name", f.name.toJson), ("index", Json.orNull (fun i => .int i.toInt) f.index),
    ("value_type", Json.orNull TypeExpr.toJson f.valueType),
    ("documentation", Json.strings f.documentation),
    ("annotations", .array (f.annotations.map (·.toJson))), ("span", f.span.toJson)]

def read : Reader FieldDecl := fun j => do
  let members ← Json.readRecord
    ["name", "index", "value_type", "documentation", "annotations", "span"] j
  pure {
    name := ← members.required "name" Ident.read
    index := ← members.optional "index" Json.readInt64
    valueType := ← members.optional "value_type" TypeExpr.read
    documentation := ← members.withDefault "documentation" [] (Json.readList Json.readString)
    annotations := ← members.withDefault "annotations" [] (Json.readList Assignment.read)
    span := ← members.required "span" Span.read }

end FieldDecl

namespace TypeDecl

def toJson (d : TypeDecl) : Json :=
  .object [("name", d.name.toJson), ("modifier", .string d.modifier.keyword),
    ("base_type", Json.orNull TypeRef.toJson d.base),
    ("fields", .array (d.fields.map (·.toJson))),
    ("defaults", .array (d.defaults.map (·.toJson))),
    ("documentation", Json.strings d.documentation),
    ("annotations", .array (d.annotations.map (·.toJson))), ("span", d.span.toJson)]

def read : Reader TypeDecl := fun j => do
  let members ← Json.readRecord
    ["name", "modifier", "base_type", "fields", "defaults", "documentation",
      "annotations", "span"] j
  pure {
    name := ← members.required "name" Ident.read
    modifier := ← members.required "modifier" Modifier.read
    base := ← members.optional "base_type" TypeRef.read
    fields := ← members.withDefault "fields" [] (Json.readList FieldDecl.read)
    defaults := ← members.withDefault "defaults" [] (Json.readList Assignment.read)
    documentation := ← members.withDefault "documentation" [] (Json.readList Json.readString)
    annotations := ← members.withDefault "annotations" [] (Json.readList Assignment.read)
    span := ← members.required "span" Span.read }

end TypeDecl

namespace SourceFile

def toJson (s : SourceFile) : Json :=
  .object [("file", s.file.toJson), ("uses", .array (s.uses.map (·.toJson))),
    ("types", .array (s.types.map (·.toJson)))]

def read : Reader SourceFile := fun j => do
  let members ← Json.readRecord ["file", "uses", "types"] j
  pure {
    file := ← members.required "file" FileRef.read
    uses := ← members.withDefault "uses" [] (Json.readList UseDecl.read)
    types := ← members.withDefault "types" [] (Json.readList TypeDecl.read) }

end SourceFile

end Schemata
