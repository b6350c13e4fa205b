import Schemata.Fingerprint.Identity

/-!
# Workspaces

A workspace holds the files of a schema, each with the types that it declares and the packages that
it imports. A file belongs to the package that its path names. Packages are not kept separately: the
packages of a workspace are those of its files with all packages above them, and a package has as
children the packages one segment below it.
-/

namespace Schemata

/-- A declared type. No two types of a package share a name. -/
structure Symbol where
  /-- The file that declares the type. -/
  file : FileRef
  decl : TypeDecl

namespace Symbol

def name (s : Symbol) : String := s.decl.name.name

def package (s : Symbol) : String := s.file.path

def id (s : Symbol) : String := s.decl.id s.package

def isSame (s t : Symbol) : Bool := s.file == t.file && s.name == t.name

end Symbol

/-- A use of another package that holds good. -/
structure Import where
  /-- The imported package. -/
  path : String
  aliasName : Option Ident
  span : Span
deriving DecidableEq

/-- The alias under which the import is looked up. -/
def Import.key (i : Import) : String := aliasKey i.aliasName

/-- A file with what it declares and imports. -/
structure FileScope where
  file : FileRef
  uses : List UseDecl
  symbols : List Symbol
  imports : List Import

namespace FileScope

def symbol? (f : FileScope) (name : String) : Option Symbol := f.symbols.find? (·.name == name)

/-- The imports that go by an alias. -/
def importsAs (f : FileScope) (key : String) : List Import := f.imports.filter (·.key == key)

def importOf? (f : FileScope) (package : String) : Option Import :=
  f.imports.find? (·.path == package)

end FileScope

/-- The files of a schema, in the order of their packages and names. -/
structure Workspace where
  files : List FileScope

namespace Workspace

/-- The paths of all packages, each one behind the package above it. -/
def packages (w : Workspace) : List String :=
  (w.files.flatMap fun f => Path.ancestors f.file.path).eraseDups

def filesOf (w : Workspace) (package : String) : List FileScope :=
  w.files.filter (·.file.path == package)

/-- The packages right below a package. -/
def childrenOf (w : Workspace) (package : String) : List String :=
  w.packages.filter fun p => Path.parent? p == some package

def symbols (w : Workspace) : List Symbol := w.files.flatMap (·.symbols)

def symbolsOf (w : Workspace) (package : String) : List Symbol :=
  (w.filesOf package).flatMap (·.symbols)

def symbolOf? (w : Workspace) (package name : String) : Option Symbol :=
  (w.symbolsOf package).find? (·.name == name)

/-- A package with the packages up to `depth` levels below it, each one before those below it. -/
def packagesBelow (w : Workspace) : Nat → String → List String
  | 0, package => [package]
  | depth + 1, package => package :: (w.childrenOf package).flatMap (w.packagesBelow depth)

/-- The greatest number of segments in the path of a package. -/
def height (w : Workspace) : Nat := (w.packages.map fun p => (Path.segments p).length).foldl max 0

/-- The types of a package and of those up to `depth` levels below it, or of all below it. -/
def symbolsBelow (w : Workspace) (package : String) (depth : Option Nat) : List Symbol :=
  (w.packagesBelow (depth.getD w.height) package).flatMap w.symbolsOf

/-- The files of all packages, those of a package before those of the packages below it. -/
def filesByPackage (w : Workspace) : List FileScope :=
  (w.packagesBelow w.height "").flatMap w.filesOf

/-- Whether a name is looked up without an alias. -/
def isUnqualified (qualifier : Option String) : Bool := qualifier.getD "" == ""

/-- The imports through which a name with this alias is looked up in a file. -/
def importsFor (f : FileScope) (qualifier : Option String) : List Import :=
  f.importsAs (if isUnqualified qualifier then defaultAlias else qualifier.getD "")

/-- The types that a name denotes in a file. A name without an alias denotes the type of that name
which the file itself declares; any other name is looked up in the imported packages that go by its
alias. -/
def find (w : Workspace) (f : FileScope) (name : String)
    (qualifier : Option String) : List Symbol :=
  match if isUnqualified qualifier then f.symbol? name else none with
  | some s => [s]
  | none => (importsFor f qualifier).filterMap fun i => w.symbolOf? i.path name

/-- The names that denote a type in a file, own types first. -/
def visibleNames (w : Workspace) (f : FileScope) (qualifier : Option String) : List String :=
  (if isUnqualified qualifier then f.symbols.map (·.name) else []) ++
    (importsFor f qualifier).flatMap fun i => (w.symbolsOf i.path).map (·.name)

/-- The types that a reference denotes in a file. -/
def findRef (w : Workspace) (f : FileScope) (r : TypeRef) : List Symbol :=
  w.find f r.name r.qualifier

end Workspace

end Schemata
