import Schemata.Source

/-!
# Diagnostics

A run collects what it finds wrong in a list of diagnostics.
-/

/-!
## Kinds of problems

A diagnostic is of one of these kinds, which gives it its words. The kinds that linking finds come
first; their order decides between diagnostics at the same place.
-/

namespace Schemata

inductive Severity where
  | error | warning
deriving DecidableEq, Repr

def Severity.word : Severity → String
  | .error => "error"
  | .warning => "warning"

namespace Diagnostic

inductive Kind where
  | alreadyDefined
  | selfImport
  | packageNotFound
  | circularDependency
  | aliasAlreadyDefined
  | duplicateImport
  | needAlias
  | typeNotFound
  | wrongBaseType
  | duplicatedFieldName
  | duplicatedFieldIndex
  | invalidFieldIndex
  | enumShouldBeZeroBased
  | enumShouldBeSubsequent
  | nonNullableUnionFields
  | missingFieldType
  | unexpectedFieldType
  | illegalUseCycle
  | wrongArgumentsLen
  | wrongArguments
  | defaultValueValidField
  | duplicatedDefaultValue
  | wrongDefaultValue
  | wrongAnnotationValue
  | assignmentKeyAlreadyInUse
deriving DecidableEq, Repr

namespace Kind

def all : List Kind :=
  [.alreadyDefined, .selfImport, .packageNotFound, .circularDependency, .aliasAlreadyDefined,
    .duplicateImport, .needAlias, .typeNotFound, .wrongBaseType, .duplicatedFieldName,
    .duplicatedFieldIndex, .invalidFieldIndex, .enumShouldBeZeroBased, .enumShouldBeSubsequent,
    .nonNullableUnionFields, .missingFieldType, .unexpectedFieldType, .illegalUseCycle,
    .wrongArgumentsLen, .wrongArguments, .defaultValueValidField, .duplicatedDefaultValue,
    .wrongDefaultValue, .wrongAnnotationValue, .assignmentKeyAlreadyInUse]

def rank (k : Kind) : Nat := all.idxOf k

/-- Whether a kind is about names across files rather than about one declaration. -/
def isLinkError (k : Kind) : Bool := k.rank < 8

/-- The hint that every diagnostic of a kind has. -/
def hint? : Kind → Option String
  | .needAlias => some "import the packages under an alias, e.g. `use \"pkg\" as p`"
  | .circularDependency => some "packages cannot import each other"
  | .nonNullableUnionFields => some "a union has exactly one field set at a time"
  | _ => none

/-- The message of a diagnostic without details. -/
def summary : Kind → String
  | .alreadyDefined => "name is already defined"
  | .selfImport => "package cannot import itself"
  | .packageNotFound => "package not found"
  | .circularDependency => "circular dependency"
  | .aliasAlreadyDefined => "alias is already in use"
  | .duplicateImport => "package is imported more than once"
  | .needAlias => "ambiguous type reference"
  | .typeNotFound => "type not found"
  | .wrongBaseType => "invalid base type"
  | .duplicatedFieldName => "duplicated field name"
  | .duplicatedFieldIndex => "duplicated field index"
  | .invalidFieldIndex => "invalid field index"
  | .enumShouldBeZeroBased => "enum indexes must start at 0"
  | .enumShouldBeSubsequent => "enum indexes must be subsequent"
  | .nonNullableUnionFields => "union fields cannot be nullable"
  | .missingFieldType => "field requires a value type"
  | .unexpectedFieldType => "enum members cannot have a value type"
  | .illegalUseCycle => "type cannot reference itself"
  | .wrongArgumentsLen => "wrong number of type arguments"
  | .wrongArguments => "invalid type argument"
  | .defaultValueValidField => "default value for an unknown field"
  | .duplicatedDefaultValue => "duplicated default value"
  | .wrongDefaultValue => "default value does not match the field type"
  | .wrongAnnotationValue => "annotation value must be a scalar"
  | .assignmentKeyAlreadyInUse => "key is already in use"

/-- What stands before and behind the detail in a message. -/
def template : Kind → String × String
  | .alreadyDefined => ("`", "` is already defined")
  | .selfImport => ("package `", "` cannot import itself")
  | .packageNotFound => ("package `", "` not found")
  | .circularDependency => ("circular dependency between ", "")
  | .aliasAlreadyDefined => ("alias `", "` is already in use")
  | .duplicateImport => ("package `", "` is imported more than once")
  | .needAlias => ("`", "` is declared in more than one imported package")
  | .typeNotFound => ("type `", "` not found")
  | .wrongBaseType => ("`", "` is not a base type")
  | .duplicatedFieldName => ("field `", "` is already declared")
  | .duplicatedFieldIndex => ("field index ", " is already in use")
  | .nonNullableUnionFields => ("union field `", "` cannot be nullable")
  | .missingFieldType => ("field `", "` requires a value type")
  | .unexpectedFieldType => ("enum member `", "` cannot have a value type")
  | .illegalUseCycle => ("`", "` cannot reference itself")
  | .defaultValueValidField => ("`", "` is not a field of this type")
  | .duplicatedDefaultValue => ("field `", "` already has a default value")
  | .wrongAnnotationValue => ("annotation `", "` must be a string, int, float or bool")
  | .assignmentKeyAlreadyInUse => ("key `", "` is already in use")
  | k => (k.summary ++ ": ", "")

def message (k : Kind) : Option String → String
  | none => k.summary
  | some detail => k.template.1 ++ detail ++ k.template.2

end Kind

end Diagnostic

/-!
## Reports

A diagnostic names a problem, the place where it shows, further places that have to do with it, and
hints on what to do. A run collects its diagnostics in a list.
-/

/-- A further place that has to do with a problem. -/
structure Related where
  file : FileRef
  span : Span
  message : String
deriving DecidableEq, Repr

structure Diagnostic where
  kind : Diagnostic.Kind
  severity : Severity
  file : FileRef
  span : Span
  message : String
  related : List Related
  hints : List String
deriving DecidableEq, Repr

namespace Diagnostic

/-- An error of a kind at some place, with the hint that its kind has. -/
def report (file : FileRef) (kind : Kind) (span : Span) (detail : Option String) : Diagnostic :=
  { kind, file, span
    severity := .error
    message := kind.message detail
    related := []
    hints := kind.hint?.toList }

def withSeverity (d : Diagnostic) (severity : Severity) : Diagnostic := { d with severity }

def relate (d : Diagnostic) (file : FileRef) (span : Span) (message : String) : Diagnostic :=
  { d with related := d.related ++ [⟨file, span, message⟩] }

/-- The diagnostic with one more hint, if there is one. -/
def addHint (d : Diagnostic) (hint : Option String) : Diagnostic :=
  { d with hints := d.hints ++ hint.toList }

def isError (d : Diagnostic) : Bool := d.severity == .error

def isWarning (d : Diagnostic) : Bool := d.severity == .warning

/-- Whether a diagnostic comes before another, or may do so: by file, place and kind. -/
def le (a b : Diagnostic) : Bool :=
  let fa := a.file.fullPath
  let fb := b.file.fullPath
  fa < fb || (fa == fb &&
    (a.span.start.before b.span.start || (a.span.start == b.span.start &&
      a.kind.rank ≤ b.kind.rank)))

/-- Diagnostics in order; those that tie stay as they came. -/
def sort (ds : List Diagnostic) : List Diagnostic := ds.mergeSort le

/-- `file:line:column`. -/
def placeText (file : FileRef) (p : Pos) : String :=
  s!"{file.fullPath}:{p.line.toNat}:{p.column.toNat}"

def line (d : Diagnostic) : String :=
  let related := d.related.map fun r =>
    s!" (related: {r.message} at {placeText r.file r.span.start})"
  let hints := d.hints.map fun h => s!" (hint: {h})"
  s!"{d.severity.word}: {d.message} at {placeText d.file d.span.start}" ++
    String.join (related ++ hints)

end Diagnostic

end Schemata
