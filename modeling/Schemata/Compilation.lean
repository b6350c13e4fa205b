import Schemata.Rule.Analysis
import Schemata.Scope.Link

/-!
# Compilation

A compilation goes from source files to a snapshot.
-/

/-!
## From a workspace to its snapshot

Every type is resolved from the point of view of its file. Files come in the order of their paths,
so that a snapshot does not depend on the order in which they were found.

Where analysis finds no fault, resolving finds none either; a `BuildFault` says that analysis was
skipped.
-/

namespace Schemata

/-- The value of each key in a block; the first assignment of a key counts. -/
def assignmentMap (block : List Assignment) : OrderedMap Literal :=
  OrderedMap.ofFirsts (block.map fun a => (a.key.name, a.value))

namespace Workspace

/-- The id of the one type that a reference denotes. -/
def resolveId (w : Workspace) (f : FileScope) (r : TypeRef) : Except BuildFault String :=
  match w.findRef f r with
  | [s] => .ok s.id
  | [] => .error (.unresolved r)
  | _ => .error (.ambiguous r)

mutual

/-- A value type with its references resolved. What a declared type is given as arguments has no
meaning. -/
def resolveType (w : Workspace) (f : FileScope) : TypeExpr → Except BuildFault ResolvedType
  | .mk r nullable as span =>
    match (TypeExpr.mk r nullable as span).primitive? with
    | some p => do pure (.primitive p nullable (← w.resolveTypes f as))
    | none => do pure (.custom (← w.resolveId f r) nullable r.qualifier)

def resolveTypes (w : Workspace) (f : FileScope) :
    List TypeExpr → Except BuildFault (List ResolvedType)
  | [] => pure []
  | t :: rest => do pure ((← w.resolveType f t) :: (← w.resolveTypes f rest))

end

def resolveFieldType (w : Workspace) (f : FileScope) (s : Symbol) (field : FieldDecl) :
    Except BuildFault (Option ResolvedType) :=
  match s.decl.modifier, field.valueType with
  | .enum, _ => pure none
  | _, some t => do pure (some (← w.resolveType f t))
  | _, none => .error (.missingType s.name field.name.name)

def resolveField (w : Workspace) (f : FileScope) (s : Symbol) (field : FieldDecl × Option Int64) :
    Except BuildFault FieldDef := do
  let some index := field.2 | .error (.missingIndex s.name field.1.name.name)
  let valueType ← w.resolveFieldType f s field.1
  pure {
    index, valueType
    name := field.1.name.name
    documentation := field.1.documentation
    annotations := assignmentMap field.1.annotations
    defaultValue := (assignmentMap s.decl.defaults).get? field.1.name.name }

def resolveSymbol (w : Workspace) (f : FileScope) (s : Symbol) : Except BuildFault TypeDef := do
  let baseId ← s.decl.base.mapM (w.resolveId f)
  let fields ← (s.decl.fields.zip s.decl.indexes).mapM (w.resolveField f s)
  pure {
    baseId, fields
    id := s.id
    name := s.name
    modifier := s.decl.modifier
    documentation := s.decl.documentation
    annotations := assignmentMap s.decl.annotations
    defaults := assignmentMap s.decl.defaults }

/-- A compiled file, under the id that its contents call for. -/
def compileFile (w : Workspace) (f : FileScope) : Except Error CompiledFile := do
  let types ← (f.symbols.mapM (w.resolveSymbol f)).mapError (.internal f.file)
  let file : CompiledFile := ⟨"", Path.name f.file.path, f.file.fullPath, types⟩
  pure { file with id := file.contentId }

/-- The snapshot of a workspace. -/
def snapshot (w : Workspace) (version : UInt32) : Except Error Snapshot := do
  let files ← w.filesByPackage.mapM w.compileFile
  let files := files.mergeSort fun a b => a.path ≤ b.path
  pure ⟨version, Snapshot.hashcodeOf (files.map (·.id)), files⟩

end Workspace

/-!
## Compiling sources

A compilation links source files, analyses them under some settings, and yields a snapshot if
nothing stands in its way: no error, and no warning either where the settings deny warnings.
-/

/-- Source files, linked and analysed. -/
structure Compilation where
  settings : Settings
  workspace : Workspace
  /-- The reports of linking, in the order in which they were made. -/
  linkDiagnostics : List Diagnostic
  /-- All reports, in order. -/
  diagnostics : List Diagnostic

namespace Compilation

/-- Compiles source files under settings that hold good. -/
def ofSources (settings : Settings) (sources : List SourceFile) : Except Error Compilation := do
  settings.validate
  let (workspace, linkDiagnostics) ← Workspace.link sources
  pure {
    settings, workspace, linkDiagnostics
    diagnostics := Diagnostic.sort (linkDiagnostics ++ analyze workspace settings) }

/-- Whether nothing stands in the way of a snapshot. -/
def isValid (c : Compilation) : Bool :=
  !c.diagnostics.any (·.isError) && !(c.settings.denyWarnings && c.diagnostics.any (·.isWarning))

/-- The snapshot, or all reports if something stands in its way. -/
def snapshot (c : Compilation) : Except Error Snapshot :=
  if c.isValid then c.workspace.snapshot c.settings.snapshotVersion
  else .error (.compileFailed c.diagnostics)

end Compilation

/-- The snapshot of source files under the standard settings. -/
def compile (sources : List SourceFile) : Except Error Snapshot := do
  (← Compilation.ofSources .standard sources).snapshot

end Schemata
