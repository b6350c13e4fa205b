import Schemata.Scope.Assembly
import Schemata.Text.Suggestion

/-!
# Linking

Puts the files of a schema together, resolves their imports, and reports what is wrong with names
across files.
-/

/-!
## Imports

Every use of a package becomes an import or is reported. Uses are taken in order, and what they may
be depends on the imports before them: an alias serves one import, and a package is imported once.
-/

namespace Schemata.Workspace

/-- The packages that a file in `package` may import. -/
def importable (w : Workspace) (package : String) : List String :=
  w.packages.filter fun p => !(p == "") && !(p == package)

/-- The import that a use stands for behind the imports accepted so far. -/
def acceptUse (w : Workspace) (file : FileRef) (accepted : List Import) (u : UseDecl) :
    Except Diagnostic Import :=
  let path := Path.normalize u.path
  let holder? := u.aliasName.bind fun a => (accepted.find? (·.key == a.name)).map fun i => (a, i)
  match holder? with
  | some (a, holder) =>
    .error ((Diagnostic.report file .aliasAlreadyDefined a.span a.name).relate file
      ((holder.aliasName.map (·.span)).getD holder.span) "first used here")
  | none =>
    if path = file.path then .error (Diagnostic.report file .selfImport u.span path)
    else if !w.packages.contains path then
      .error ((Diagnostic.report file .packageNotFound u.span path).addHint
        (Suggestion.hint? path (w.importable file.path)))
    else
      match accepted.find? (·.path == path) with
      | some earlier =>
        .error ((Diagnostic.report file .duplicateImport u.span path).relate file earlier.span
          "first imported here")
      | none => .ok ⟨path, u.aliasName, u.span⟩

/-- The imports that some uses stand for behind the imports accepted so far, and the reports on the
other uses. -/
def acceptUses (w : Workspace) (file : FileRef) (accepted : List Import) :
    List UseDecl → List Import × List Diagnostic
  | [] => (accepted, [])
  | u :: rest =>
    match w.acceptUse file accepted u with
    | .ok i => w.acceptUses file (accepted ++ [i]) rest
    | .error d =>
      let (imports, reports) := w.acceptUses file accepted rest
      (imports, d :: reports)

def importsOf (w : Workspace) (f : FileScope) : List Import × List Diagnostic :=
  w.acceptUses f.file [] f.uses

/-- The workspace with the imports of all files, and the reports on all uses that are none. -/
def resolveImports (w : Workspace) : Workspace × List Diagnostic :=
  (⟨w.files.map fun f => { f with imports := (w.importsOf f).1 }⟩,
    w.files.flatMap fun f => (w.importsOf f).2)

/-!
## Colliding names

A name that can be used without an alias has to denote one type. It collides if a file declares it
and an import without alias brings it in, or if two such imports do. Each name is reported once in a
file.
-/

/-- The types that a file can name without an alias through its imports, with the imports. -/
def broughtIn (w : Workspace) (f : FileScope) : List (Import × Symbol) :=
  (f.importsAs defaultAlias).flatMap fun i => (w.symbolsOf i.path).map fun s => (i, s)

/-- The report on a name of the file itself. -/
def ownCollision (f : FileScope) (own : Symbol) (i : Import) : Diagnostic :=
  (Diagnostic.report f.file .alreadyDefined own.decl.name.span own.name).relate f.file i.span
    s!"also imported from `{i.path}`"

/-- The report on a name that a second import brings in. -/
def importCollision (f : FileScope) (name : String) (first second : Import) : Diagnostic :=
  (Diagnostic.report f.file .alreadyDefined second.span name).relate f.file first.span
    s!"already imported from `{first.path}`"

/-- The reports on what some imports bring in behind what `seen` holds. A name of the file itself is
reported where it is brought in first, any other one where it is brought in for the second time. -/
def collisionsAfter (f : FileScope) (seen : List (Import × Symbol)) :
    List (Import × Symbol) → List Diagnostic
  | [] => []
  | (i, s) :: rest =>
    let earlier := seen.filter (·.2.name == s.name)
    let report := match f.symbol? s.name, earlier with
      | some own, [] => [ownCollision f own i]
      | none, [(first, _)] => [importCollision f s.name first i]
      | _, _ => []
    report ++ collisionsAfter f (seen ++ [(i, s)]) rest

def collisions (w : Workspace) (f : FileScope) : List Diagnostic :=
  collisionsAfter f [] (w.broughtIn f)

end Schemata.Workspace

/-!
## Logs of collisions

The names that collide in a file can be found in one pass that never looks back at the types that
have been brought in. A log holds what the pass has to know of them: which import was the first to
bring in a name, and which names have been reported.
-/

namespace Schemata

structure CollisionLog where
  /-- The first import of a name that the file does not declare itself. -/
  first : OrderedMap Import
  reported : List String

namespace CollisionLog

def empty : CollisionLog := ⟨.empty, []⟩

def report (log : CollisionLog) (name : String) : CollisionLog :=
  { log with reported := name :: log.reported }

/-- The log behind one more type that is brought in, and the reports on it. -/
def enter (f : FileScope) (log : CollisionLog) (b : Import × Symbol) :
    CollisionLog × List Diagnostic :=
  let name := b.2.name
  if log.reported.contains name then (log, [])
  else
    match f.symbol? name with
    | some own => (log.report name, [Workspace.ownCollision f own b.1])
    | none =>
      match log.first.get? name with
      | some first =>
        if first.path ≠ b.1.path
          then (log.report name, [Workspace.importCollision f name first b.1])
        else (log, [])
      | none => ({ log with first := log.first.insert name b.1 }, [])

/-- The reports on what some imports bring in behind what the log knows of. -/
def reportsAfter (f : FileScope) (log : CollisionLog) : List (Import × Symbol) → List Diagnostic
  | [] => []
  | b :: rest =>
    let (log, reports) := log.enter f b
    reports ++ log.reportsAfter f rest

end CollisionLog

/-!
## Import cycles

Packages must not import each other, directly or through other packages. A depth-first search goes
from package to package along imports; an import that leads back to a package on the way from the
start closes a cycle. Of the imports that close cycles between the same two packages one is
reported.
-/

/-- An import of a package, with the file that it stands in. -/
structure ImportEdge where
  file : FileRef
  via : Import

namespace ImportEdge

def source (e : ImportEdge) : String := e.file.path

def target (e : ImportEdge) : String := e.via.path

end ImportEdge

/-- A cycle between packages: the import that closes it, and the file with the import by which it
leaves the package that it comes back to. -/
structure ImportCycle where
  closing : ImportEdge
  leaving : FileRef

namespace ImportCycle

/-- Whether a cycle is closed by an import between the same two packages, in either direction. -/
def joins (c : ImportCycle) (p q : String) : Bool :=
  (c.closing.source == p && c.closing.target == q) ||
    (c.closing.source == q && c.closing.target == p)

/-- What a search has come upon: the packages entered, and the cycles found. -/
structure Search where
  entered : List String
  found : List ImportCycle

/-- The search with another cycle, unless one between the same two packages has been found. -/
def Search.add (s : Search) (c : ImportCycle) : Search :=
  if s.found.any fun d => d.joins c.closing.source c.closing.target then s
  else { s with found := s.found ++ [c] }

end ImportCycle

namespace Workspace

open ImportCycle (Search)

/-- The imports of a package, one for each package that it imports, in the order of their paths. -/
def edgesFrom (w : Workspace) (package : String) : List ImportEdge :=
  let all := (w.filesOf package).flatMap fun f => f.imports.map fun i => ⟨f.file, i⟩
  (firsts ImportEdge.target all).mergeSort fun a b => a.target ≤ b.target

/-- Searches from a package. `trail` holds the imports that led there, the last one first, and
`steps` bounds the number of packages on the way. -/
def searchFrom (w : Workspace) : Nat → List ImportEdge → String → Search → Search
  | 0, _, _, s => s
  | steps + 1, trail, package, s =>
    (w.edgesFrom package).foldl
      (fun s e =>
        match (e :: trail).find? fun t => t.source == e.target with
        | some t => s.add ⟨e, t.file⟩
        | none =>
          if s.entered.contains e.target then s
          else w.searchFrom steps (e :: trail) e.target s)
      { s with entered := package :: s.entered }

/-- The cycles that a search through the whole workspace finds. -/
def importCycles (w : Workspace) : List ImportCycle :=
  let order := w.packages.mergeSort fun a b => a ≤ b
  let search := order.foldl
    (fun s p => if s.entered.contains p then s else w.searchFrom w.packages.length [] p s) ⟨[], []⟩
  search.found

/-- The report on a cycle, at the import of the package in the file that closes it. -/
def cycleReport? (w : Workspace) (c : ImportCycle) : Option Diagnostic := do
  let importer ← w.files.find? (·.file == c.closing.file)
  let i ← importer.importOf? c.closing.target
  pure (Diagnostic.report importer.file .circularDependency i.span
    s!"`{importer.file.fullPath}` and `{c.leaving.fullPath}`")

end Workspace

end Schemata

/-!
## All of linking

Puts the files of a schema together, resolves their imports, and reports what is wrong with names
across files.
-/

namespace Schemata.Workspace

/-- The workspace of some files with their imports, and all reports on it: on types left out, on
uses that are no imports, on cycles and on collisions. -/
def link (sources : List SourceFile) : Except Error (Workspace × List Diagnostic) := do
  let (assembled, doubles) ← assemble sources
  let (w, uses) := assembled.resolveImports
  pure (w, doubles ++ uses ++ w.importCycles.filterMap w.cycleReport? ++
    w.files.flatMap w.collisions)

end Schemata.Workspace
