import Schemata.Error
import Schemata.Scope.Workspace

/-!
# Tables and arenas

Files and what they declare are entered one by one, and so are the imports of a file.
-/

/-!
## Tables of imports

The imports of a file are registered one by one, in a table with two indexes: one leads from alias
keys to the imports that go by them, the other one from packages to the imports of them. Whether the
next use is an import is decided by these indexes.
-/

namespace Schemata

/-- Imports in order. The indexes give the places of imports in this order. -/
structure ImportTable where
  imports : List Import
  byKey : OrderedMap (List Nat)
  byPackage : OrderedMap Nat

namespace ImportTable

def empty : ImportTable := ⟨[], .empty, .empty⟩

def register (t : ImportTable) (i : Import) : ImportTable where
  imports := t.imports ++ [i]
  byKey := t.byKey.insert i.key ((t.byKey.get? i.key).getD [] ++ [t.imports.length])
  byPackage := t.byPackage.insert i.path t.imports.length

/-- The imports to which an alias key leads. -/
def importsAs (t : ImportTable) (key : String) : List Import :=
  ((t.byKey.get? key).getD []).filterMap fun place => t.imports[place]?

def importOf? (t : ImportTable) (package : String) : Option Import :=
  (t.byPackage.get? package).bind fun place => t.imports[place]?

end ImportTable

/-!
## Putting a workspace together

Files are put in order by their packages, in the canonical spelling, and names. One after the other
they go into an arena, which has three lists, of packages, of files and of types. These refer to one
another by number, that is, by the place in their list, and an index leads from paths to packages. A
package is made when a file asks for it, behind the packages above it. Of several types of one name
in a package the first one counts, and every other is reported and left out.
-/

namespace SourceFile

def canonical (s : SourceFile) : SourceFile :=
  { s with file := { s.file with path := Path.normalize s.file.path } }

/-- The first file that comes twice in a row. -/
def repeated? : List SourceFile → Option FileRef
  | a :: b :: rest => if a.file = b.file then some a.file else repeated? (b :: rest)
  | _ => none

end SourceFile

namespace Workspace

/-- The files in the order in which a workspace has them. -/
def arrange (sources : List SourceFile) : List SourceFile :=
  (sources.map (·.canonical)).mergeSort fun a b => a.file.le b.file

/-- The report on a type whose name is taken in its package. -/
def alreadyDeclared (s first : Symbol) : Diagnostic :=
  (Diagnostic.report s.file .alreadyDefined s.decl.name.span s.name).relate
    first.file first.decl.name.span
    (if first.file = s.file then "first declared here" else "also declared in this package")

end Workspace

/-- A package, with the numbers of the package above it, of those right below it and of
its files. -/
structure Arena.Package where
  number : Nat
  path : String
  parent : Option Nat
  children : List Nat
  files : List Nat

/-- A file, with the numbers of its package and, by their names, of its types. -/
structure Arena.File where
  number : Nat
  file : FileRef
  package : Nat
  uses : List UseDecl
  types : OrderedMap Nat
  imports : ImportTable

/-- A type, with the number of its file. -/
structure Arena.Declared where
  number : Nat
  name : String
  /-- The id of the type in snapshots. -/
  id : String
  decl : TypeDecl
  file : Nat

structure Arena where
  packages : List Arena.Package
  files : List Arena.File
  types : List Arena.Declared
  byPath : OrderedMap Nat

namespace Arena

def empty : Arena := ⟨[], [], [], .empty⟩

/-! ### Lookups -/

def packageAt? (t : Arena) (path : String) : Option Nat := t.byPath.get? path

/-- The number of the type of that name in a package, of which the files are searched in order. -/
def typeIn? (t : Arena) (package : Nat) (name : String) : Option Nat :=
  (t.packages[package]?).bind fun p =>
    p.files.findSome? fun number => (t.files[number]?).bind fun f => f.types.get? name

def symbol? (t : Arena) (number : Nat) : Option Symbol :=
  (t.types[number]?).bind fun d => (t.files[d.file]?).map fun f => ⟨f.file, d.decl⟩

/-- The types of a file, in the order in which they came. -/
def symbolsIn (t : Arena) (f : File) : List Symbol :=
  f.types.entries.filterMap fun e => t.symbol? e.2

/-- The types of a package, file by file. -/
def packageSymbols (t : Arena) (package : Nat) : List Symbol :=
  ((t.packages[package]?).elim [] (·.files)).flatMap fun number =>
    (t.files[number]?).elim [] t.symbolsIn

/-! ### Packages -/

/-- Packages of which the one at `parent` has one more child. -/
def addChild (packages : List Package) (child : Nat) : Option Nat → List Package
  | none => packages
  | some parent => packages.modify parent fun p => { p with children := p.children ++ [child] }

def addPackage (t : Arena) (path : String) (parent : Option Nat) : Arena :=
  let number := t.packages.length
  { t with
    packages := addChild (t.packages ++ [⟨number, path, parent, [], []⟩]) number parent
    byPath := t.byPath.insert path number }

/-- An arena that has a package at a path, made behind those above it if need be, and the number of
the package. -/
def ensurePackage (t : Arena) (path : String) : Arena × Nat :=
  match t.packageAt? path with
  | some number => (t, number)
  | none =>
    match _h : Path.parent? path with
    | none => (t.addPackage path none, t.packages.length)
    | some above =>
      let (t, number) := t.ensurePackage above
      (t.addPackage path (some number), t.packages.length)
termination_by path.length
decreasing_by exact Path.length_lt_of_parent? ‹_›

/-! ### Files and types -/

def addFile (t : Arena) (s : SourceFile) (package : Nat) : Arena :=
  let number := t.files.length
  { t with
    files := t.files ++ [⟨number, s.file, package, s.uses, .empty, .empty⟩]
    packages := t.packages.modify package fun p => { p with files := p.files ++ [number] } }

def addType (t : Arena) (file : Nat) (s : Symbol) : Arena :=
  let number := t.types.length
  { t with
    types := t.types ++ [⟨number, s.name, s.id, s.decl, file⟩]
    files := t.files.modify file fun f => { f with types := f.types.insert s.name number } }

/-- The arena with some more types of a file, and the reports on those whose names are taken in the
package. -/
def declare (t : Arena) (package file : Nat) : List Symbol → Arena × List Diagnostic
  | [] => (t, [])
  | s :: rest =>
    match (t.typeIn? package s.name).bind t.symbol? with
    | some first =>
      let (t, reports) := t.declare package file rest
      (t, Workspace.alreadyDeclared s first :: reports)
    | none => (t.addType file s).declare package file rest

/-- The arena with one more file and its types, and the reports on types left out. -/
def enter (t : Arena) (s : SourceFile) : Arena × List Diagnostic :=
  let (t, package) := t.ensurePackage s.file.path
  (t.addFile s package).declare package t.files.length (s.types.map fun d => ⟨s.file, d⟩)

/-- The arena with some more files and their types, and the reports on types left out. -/
def enterAll (t : Arena) : List SourceFile → Arena × List Diagnostic
  | [] => (t, [])
  | s :: rest =>
    let (t, reports) := t.enter s
    let (t, others) := t.enterAll rest
    (t, reports ++ others)

/-- The arena of some files, and the reports on types left out. -/
def build (sources : List SourceFile) : Except Error (Arena × List Diagnostic) :=
  if sources.isEmpty then .error .noSources
  else
    match SourceFile.repeated? (Workspace.arrange sources) with
    | some file => .error (.duplicateFile file.fullPath)
    | none => .ok ((empty.ensurePackage "").1.enterAll (Workspace.arrange sources))

def workspace (t : Arena) : Workspace :=
  ⟨t.files.map fun f => ⟨f.file, f.uses, t.symbolsIn f, f.imports.imports⟩⟩

end Arena

/-- The workspace of some files without imports, and the reports on types that were left out. -/
def Workspace.assemble (sources : List SourceFile) : Except Error (Workspace × List Diagnostic) :=
  (Arena.build sources).map fun (t, reports) => (t.workspace, reports)

end Schemata
