import Schemata.Diagnostic.Basic
import Schemata.Scope.Workspace
import Schemata.Text.Suggestion

/-!
# Rules

A rule looks at the declarations of one file and reports what is wrong with them. Rules have keys by
which they can be disabled or turned into warnings; the required ones, on which snapshots rely, can
not.
-/

namespace Schemata

inductive Rule where
  | validBaseType
  | uniqueFieldName
  | fieldIndex
  | fieldShape
  | nonNullableUnionField
  | validFieldType
  | validListArguments
  | validMapArguments
  | defaultValueValidField
  | uniqueDefaultValue
  | validDefaultValueType
  | validAnnotationValue
  | assignmentKeyUnique
deriving DecidableEq, Repr

namespace Rule

def all : List Rule :=
  [.validBaseType, .uniqueFieldName, .fieldIndex, .fieldShape, .nonNullableUnionField,
    .validFieldType, .validListArguments, .validMapArguments, .defaultValueValidField,
    .uniqueDefaultValue, .validDefaultValueType, .validAnnotationValue, .assignmentKeyUnique]

def key : Rule → String
  | .validBaseType => "valid-base-type"
  | .uniqueFieldName => "unique-field-name"
  | .fieldIndex => "field-index"
  | .fieldShape => "field-shape"
  | .nonNullableUnionField => "non-nullable-union-field"
  | .validFieldType => "valid-field-type"
  | .validListArguments => "valid-list-arguments"
  | .validMapArguments => "valid-map-arguments"
  | .defaultValueValidField => "default-value-valid-field"
  | .uniqueDefaultValue => "unique-default-value"
  | .validDefaultValueType => "valid-default-value-type"
  | .validAnnotationValue => "valid-annotation-value"
  | .assignmentKeyUnique => "assignment-key-unique"

def ofKey? (key : String) : Option Rule := all.find? (·.key == key)

/-- Whether snapshots rely on the rule. -/
def isRequired : Rule → Bool
  | .validBaseType | .fieldIndex | .fieldShape | .validFieldType | .validListArguments
  | .validMapArguments => true
  | _ => false

/-- A rule is read from its own key. -/
theorem ofKey?_key (r : Rule) : ofKey? r.key = some r := by cases r <;> decide

/-- What a rule looks at: a file of a workspace, its own severity, which rules run, and what has
been reported so far. -/
structure Context where
  workspace : Workspace
  scope : FileScope
  severity : Severity
  enabled : List Rule
  reported : List Diagnostic

namespace Context

def file (c : Context) : FileRef := c.scope.file

/-- A report in the file, with the severity of the rule. -/
def report (c : Context) (kind : Diagnostic.Kind) (span : Span) (detail : Option String) :
    Diagnostic :=
  (Diagnostic.report c.file kind span detail).withSeverity c.severity

/-- The one type that a reference denotes, if it denotes exactly one. -/
def lookup? (c : Context) (r : TypeRef) : Option Symbol :=
  match c.workspace.findRef c.scope r with
  | [s] => some s
  | _ => none

/-- The one type that a reference denotes, or a report on a reference that denotes none or several.
The report is an error whatever the severity of the rule. -/
def resolve (c : Context) (r : TypeRef) : Except Diagnostic Symbol :=
  match c.workspace.findRef c.scope r with
  | [s] => .ok s
  | [] =>
    .error (((c.report .typeNotFound r.span r.text).withSeverity .error).addHint
      (Suggestion.hint? r.name (c.workspace.visibleNames c.scope r.qualifier)))
  | several =>
    .error (several.foldl
      (fun d s => d.relate s.file s.decl.name.span s!"declared in `{s.package}`")
      ((c.report .needAlias r.span r.name).withSeverity .error))

end Context

end Rule

end Schemata
