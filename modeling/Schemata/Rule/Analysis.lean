import Schemata.Settings

/-!
# The rules

What each of the rules looks at, and how an analysis runs them.
-/

/-!
## Fields

Names of fields are unique in a type. Members of an enum have no value type and all other fields
have one, which in a union is not nullable.
-/

namespace Schemata.Rule

/-- The reports on fields whose name is taken in their type. -/
def fieldNameReports (c : Context) (s : Symbol) : List Diagnostic :=
  (repeats (fun f : FieldDecl => f.name.name) s.decl.fields).map fun (f, first) =>
    (c.report .duplicatedFieldName f.name.span f.name.name).relate c.file first.name.span
      "first declared here"

def uniqueFieldNameReports (c : Context) : List Diagnostic :=
  c.scope.symbols.flatMap (fieldNameReports c)

/-- The report on a value type that is missing, or one that should be. -/
def shapeReport? (c : Context) (modifier : Modifier) (f : FieldDecl) : Option Diagnostic :=
  match f.valueType, modifier with
  | some t, .enum => some (c.report .unexpectedFieldType t.span f.name.name)
  | none, .enum => none
  | none, _ => some (c.report .missingFieldType f.name.span f.name.name)
  | some _, _ => none

def fieldShapeReports (c : Context) : List Diagnostic :=
  c.scope.symbols.flatMap fun s => s.decl.fields.filterMap (shapeReport? c s.decl.modifier)

/-- The report on a nullable field of a union. -/
def unionReport? (c : Context) (modifier : Modifier) (f : FieldDecl) : Option Diagnostic :=
  match f.valueType, modifier with
  | some t, .union =>
    if t.nullable then some (c.report .nonNullableUnionFields t.span f.name.name) else none
  | _, _ => none

def nonNullableUnionFieldReports (c : Context) : List Diagnostic :=
  c.scope.symbols.flatMap fun s => s.decl.fields.filterMap (unionReport? c s.decl.modifier)

/-!
## Extended types

Only a struct extends another type, and only a type declared as a base can be extended.
-/

def baseReports (c : Context) (s : Symbol) : List Diagnostic :=
  match s.decl.base with
  | none => []
  | some base =>
    if s.decl.modifier ≠ .struct then
      [(c.report .wrongBaseType base.span none).addHint
        (some ("only `struct` types can extend another type, `" ++ s.name ++ "` is declared `" ++
          s.decl.modifier.keyword ++ "`"))]
    else
      match c.resolve base with
      | .error d => [d]
      | .ok target =>
        if target.decl.modifier = .base then []
        else
          [(c.report .wrongBaseType base.span base.text).relate target.file
            target.decl.name.span s!"declared as {target.decl.modifier.keyword} here"]

def validBaseTypeReports (c : Context) : List Diagnostic := c.scope.symbols.flatMap (baseReports c)

/-!
## Field indexes

The indexes of a type exist, are not negative and differ from one another. Those of an enum count up
from 0. Each field is reported for the first of these that it breaks.
-/

def indexText (i : Int64) : String := String.ofList (Numeral.ofInt i.toInt)

/-- The report on an index as it is written, without regard to indexes that are taken. -/
def writtenIndexReport? (c : Context) (isEnum isFirst : Bool) (expected : Option Int64)
    (f : FieldDecl) (index : Int64) : Option Diagnostic :=
  if index < 0 then
    some (c.report .invalidFieldIndex f.name.span
      ("field `" ++ f.name.name ++ "` has negative index " ++ indexText index))
  else if isEnum && isFirst && index ≠ 0 then
    some (c.report .enumShouldBeZeroBased f.name.span ("found " ++ indexText index))
  else if isEnum && !isFirst then
    match expected with
    | some e =>
      if index = e then none
      else
        some (c.report .enumShouldBeSubsequent f.name.span
          ("expected " ++ indexText e ++ ", found " ++ indexText index))
    | none => none
  else none

/-- The reports on fields with their indexes. `previous` is the index of the field before them, and
`taken` has the indexes of earlier fields with the places of those. -/
def indexReportsAfter (c : Context) (isEnum isFirst : Bool) (previous : Option Int64)
    (taken : List (Int64 × Span)) : List (FieldDecl × Option Int64) → List Diagnostic
  | [] => []
  | (f, none) :: rest =>
    let report :=
      if previous.isSome then
        [c.report .invalidFieldIndex f.name.span
          ("field `" ++ f.name.name ++ "` would follow index " ++ indexText Int64.maxValue)]
      else []
    report ++ indexReportsAfter c isEnum false none taken rest
  | (f, some index) :: rest =>
    let written? :=
      if f.index.isSome then
        writtenIndexReport? c isEnum isFirst (nextIndex previous) f index
      else none
    match written?, taken.lookup index with
    | some report, _ => report :: indexReportsAfter c isEnum false (some index) taken rest
    | none, some first =>
      (c.report .duplicatedFieldIndex f.name.span (indexText index)).relate c.file first
          "first used here" ::
        indexReportsAfter c isEnum false (some index) taken rest
    | none, none =>
      indexReportsAfter c isEnum false (some index) ((index, f.name.span) :: taken) rest

def indexReports (c : Context) (s : Symbol) : List Diagnostic :=
  indexReportsAfter c (s.decl.modifier == .enum) true (some (-1)) []
    (s.decl.fields.zip s.decl.indexes)

def fieldIndexReports (c : Context) : List Diagnostic := c.scope.symbols.flatMap (indexReports c)

/-!
## Value types

A value type is a primitive or names one declared type, and never the type that it is a field of.
Only lists and maps take arguments: a list takes the type of its elements, a map that of its keys
and that of its values. Elements and values are no collections, and keys are strings, bools or
integers that cannot be missing.

Each rule goes through the value types of a file at every depth.
-/

/-- The report on arguments where none belong. -/
def strayArguments (c : Context) (t : TypeExpr) (name : String) : List Diagnostic :=
  if t.args.isEmpty then []
  else
    [c.report .wrongArgumentsLen t.span
      ("`" ++ name ++ "` takes none, found " ++ numberText t.args.length)]

/-- The reports on what a value type in a field of `s` denotes. -/
def typeReports (c : Context) (s : Symbol) (t : TypeExpr) : List Diagnostic :=
  match t.primitive? with
  | some p => if p.isCollection then [] else strayArguments c t p.keyword
  | none =>
    strayArguments c t t.ref.text ++
      match c.resolve t.ref with
      | .error d => [d]
      | .ok target =>
        if target.isSame s then [c.report .illegalUseCycle t.ref.span s.name] else []

def validFieldTypeReports (c : Context) : List Diagnostic :=
  c.scope.symbols.flatMap fun s => s.decl.typeNodes.flatMap (typeReports c s)

def collection? (t : TypeExpr) : Option Primitive := t.primitive?.filter (·.isCollection)

def wrongArity (c : Context) (t : TypeExpr) (p : Primitive) : Diagnostic :=
  c.report .wrongArgumentsLen t.span
    ("`" ++ p.keyword ++ "` expects " ++ numberText p.arity ++ ", found " ++
      numberText t.args.length)

def listReports (c : Context) (t : TypeExpr) : List Diagnostic :=
  match t.args with
  | [element] =>
    match collection? element with
    | some inner =>
      [c.report .wrongArguments element.span ("`list` elements cannot be `" ++
        inner.keyword ++ "`")]
    | none => []
  | _ => [wrongArity c t .list]

def isKeyType (t : TypeExpr) : Bool := t.primitive?.any (·.isMapKey) && !t.nullable

def mapReports (c : Context) (t : TypeExpr) : List Diagnostic :=
  match t.args with
  | [key, value] =>
    (if isKeyType key then []
      else
        [c.report .wrongArguments key.span
          ("map key must be a non-nullable string, bool or integer, found `" ++
            key.text ++ "`")]) ++
      match collection? value with
      | some inner =>
        [c.report .wrongArguments value.span ("map values cannot be `" ++ inner.keyword ++ "`")]
      | none => []
  | _ => [wrongArity c t .map]

/-- The value types of a file that are a given primitive. -/
def nodesOf (c : Context) (p : Primitive) : List TypeExpr :=
  (c.scope.symbols.flatMap fun s => s.decl.typeNodes).filter (·.primitive? == some p)

def validListArgumentsReports (c : Context) : List Diagnostic :=
  (nodesOf c .list).flatMap (listReports c)

def validMapArgumentsReports (c : Context) : List Diagnostic :=
  (nodesOf c .map).flatMap (mapReports c)

/-!
## Defaults and annotations

A block of defaults or annotations assigns a value to each key once. Defaults are for fields of the
type and are of the type of their field; annotations are scalars.

A default that is assigned twice is reported by one rule: by the one on keys only where the one on
defaults does not run.
-/

/-- The reports on defaults for fields that the type does not have. -/
def unknownDefaultReports (c : Context) (s : Symbol) : List Diagnostic :=
  let names := s.decl.fields.map (·.name.name)
  (s.decl.defaults.filter fun a => (s.decl.field? a.key.name).isNone).map fun a =>
    (c.report .defaultValueValidField a.key.span a.key.name).addHint
      (Suggestion.hint? a.key.name names)

def defaultValueValidFieldReports (c : Context) : List Diagnostic :=
  c.scope.symbols.flatMap (unknownDefaultReports c)

/-- The reports, of a given kind, on the keys of a block that are taken. -/
def repeatedKeyReports (c : Context) (kind : Diagnostic.Kind) (block : List Assignment) :
    List Diagnostic :=
  (repeats (fun a : Assignment => a.key.name) block).map fun (a, first) =>
    (c.report kind a.key.span a.key.name).relate c.file first.key.span "first assigned here"

def uniqueDefaultValueReports (c : Context) : List Diagnostic :=
  c.scope.symbols.flatMap fun s => repeatedKeyReports c .duplicatedDefaultValue s.decl.defaults

/-- Whether a literal is a member of the enum that a reference denotes. A reference that does not
denote one type is reported elsewhere. -/
def conformsToReference (c : Context) (r : TypeRef) (l : Literal) : Bool :=
  match c.lookup? r with
  | none => true
  | some s =>
    match s.decl.modifier, l with
    | .enum, .string member => (s.decl.field? member).isSome
    | _, _ => false

/-- Whether a scalar is a value of a primitive type. -/
def conformsToScalar : Primitive → Literal → Bool
  | .string, .string _ | .timestamp, .string _ => true
  | .bool, .bool _ => true
  | .duration, .int _ => true
  | p, .float _ => p.isFloat
  | p, .int i =>
    p.isFloat || match p.range? with
      | some (least, greatest) => least ≤ i.toInt && i.toInt ≤ greatest
      | none => false
  | _, _ => false

mutual

/-- Whether a literal is a value of a type. The arguments of lists and maps are looked at only where
there is the right number of them. -/
def conforms (c : Context) : Literal → TypeExpr → Bool
  | .list items, t =>
    match t.primitive? with
    | none => conformsToReference c t.ref (.list items)
    | some .list =>
      match t.args with
      | [element] => itemsConform c element items
      | _ => true
    | some _ => false
  | .map entries, t =>
    match t.primitive? with
    | none => conformsToReference c t.ref (.map entries)
    | some .map =>
      match t.args with
      | [key, value] => entriesConform c key value entries
      | _ => true
    | some _ => false
  | l, t =>
    match t.primitive? with
    | none => conformsToReference c t.ref l
    | some p => conformsToScalar p l

def itemsConform (c : Context) (element : TypeExpr) : List Literal → Bool
  | [] => true
  | l :: rest => conforms c l element && itemsConform c element rest

def entriesConform (c : Context) (key value : TypeExpr) : List (Literal × Literal) → Bool
  | [] => true
  | (k, v) :: rest =>
    conforms c k key && conforms c v value && entriesConform c key value rest

end

/-- The report on a default that is not of the type of its field. -/
def defaultTypeReport? (c : Context) (s : Symbol) (a : Assignment) : Option Diagnostic :=
  match (s.decl.field? a.key.name).bind (·.valueType) with
  | none => none
  | some t =>
    if conforms c a.value t then none
    else
      some (c.report .wrongDefaultValue a.valueSpan
        ("`" ++ a.value.text ++ "` is not a valid `" ++ t.text ++ "`"))

def validDefaultValueTypeReports (c : Context) : List Diagnostic :=
  c.scope.symbols.flatMap fun s => s.decl.defaults.filterMap (defaultTypeReport? c s)

/-- The annotation blocks of a type: its own and those of its fields. -/
def annotationBlocks (d : TypeDecl) : List (List Assignment) :=
  d.annotations :: d.fields.map (·.annotations)

def annotationReports (c : Context) (s : Symbol) : List Diagnostic :=
  ((annotationBlocks s.decl).flatten.filter fun a => !a.value.isScalar).map fun a =>
    c.report .wrongAnnotationValue a.valueSpan a.key.name

def validAnnotationValueReports (c : Context) : List Diagnostic :=
  c.scope.symbols.flatMap (annotationReports c)

/-- The blocks of a type in which the rule on keys looks for repeated ones. -/
def keyBlocks (c : Context) (d : TypeDecl) : List (List Assignment) :=
  (if c.enabled.contains .uniqueDefaultValue then [] else [d.defaults]) ++ annotationBlocks d

def assignmentKeyUniqueReports (c : Context) : List Diagnostic :=
  c.scope.symbols.flatMap fun s =>
    (keyBlocks c s.decl).flatMap (repeatedKeyReports c .assignmentKeyAlreadyInUse)

end Schemata.Rule

/-!
## Analysis

Runs the enabled rules over the files of a workspace, each rule with its severity. Rules add to one
list of reports, and each one is shown what those before it have reported.
-/

namespace Schemata

namespace Rule

def reports : Rule → Context → List Diagnostic
  | .validBaseType => validBaseTypeReports
  | .uniqueFieldName => uniqueFieldNameReports
  | .fieldIndex => fieldIndexReports
  | .fieldShape => fieldShapeReports
  | .nonNullableUnionField => nonNullableUnionFieldReports
  | .validFieldType => validFieldTypeReports
  | .validListArguments => validListArgumentsReports
  | .validMapArguments => validMapArgumentsReports
  | .defaultValueValidField => defaultValueValidFieldReports
  | .uniqueDefaultValue => uniqueDefaultValueReports
  | .validDefaultValueType => validDefaultValueTypeReports
  | .validAnnotationValue => validAnnotationValueReports
  | .assignmentKeyUnique => assignmentKeyUniqueReports

/-- All that has been reported once a rule has run. -/
def check (r : Rule) (c : Context) : List Diagnostic := c.reported ++ r.reports c

end Rule

/-- What a rule looks at in a file of a workspace. -/
def Settings.context (s : Settings) (w : Workspace) (f : FileScope) (reported : List Diagnostic)
    (r : Rule) : Rule.Context :=
  ⟨w, f, s.severity r, s.enabledRules, reported⟩

/-- All that has been reported once the enabled rules have run on a file. -/
def analyzeFile (w : Workspace) (settings : Settings) (reported : List Diagnostic)
    (f : FileScope) : List Diagnostic :=
  settings.enabledRules.foldl (fun reported r => r.check (settings.context w f reported r)) reported

/-- What the enabled rules report on a workspace: file by file, and rule by rule in each file. -/
def analyze (w : Workspace) (settings : Settings) : List Diagnostic :=
  w.files.foldl (analyzeFile w settings) []

end Schemata
