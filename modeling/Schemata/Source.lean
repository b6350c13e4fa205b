import Schemata.Text.Path

/-!
# Source files

Where something stands in a source file, and the texts of these files.
-/

/-!
## Positions in source files

Lines and columns count from 1; a span starts at its first character and ends behind its last one.
-/

namespace Schemata

structure Pos where
  line : UInt32
  column : UInt32
deriving DecidableEq, Repr

/-- Reading order: by line, then by column. -/
def Pos.before (p q : Pos) : Bool := p.line < q.line || (p.line == q.line && p.column < q.column)

/-- The stretch of a source file from `start` up to, and without, `stop`. -/
structure Span where
  start : Pos
  stop : Pos
deriving DecidableEq, Repr

/-- A source file: the path of its package and its name there. -/
structure FileRef where
  path : String
  name : String
deriving DecidableEq, Repr

namespace FileRef

/-- The path of the file relative to the project root. -/
def fullPath (f : FileRef) : String := Path.full f.path f.name

/-- Files are listed by package path, then by name, each in the order of code points. -/
def le (f g : FileRef) : Bool := f.path < g.path || (f.path == g.path && f.name ≤ g.name)

end FileRef

/-!
## Source texts

The texts of the source files, by project-relative path, as far as they are known. Positions count
lines and characters; offsets into a text count the bytes of its UTF-8 form.

`offset` reads a position as the offset of the character there and clamps it: a column behind the
end of its line means the end of that line, a line behind the last one the end of the text. `range`
reads a span, and widens an empty one by one byte where the text goes on.
-/

def byteLength : List Char → Nat
  | [] => 0
  | c :: cs => c.utf8Size + byteLength cs

namespace Offset

/-- The text from the given line on, lines counted from 0. -/
def dropLines : Nat → List Char → List Char
  | 0, cs => cs
  | _ + 1, [] => []
  | n + 1, c :: cs => dropLines n (((c :: cs).dropWhile (· != '\n')).drop 1)

/-- The first line of a text. -/
def line (cs : List Char) : List Char := cs.takeWhile (· != '\n')

/-- The offset of a position in a text. Line 0 and column 0 count as 1. -/
def ofPos (text : List Char) (p : Pos) : Nat :=
  let rest := dropLines (p.line.toNat - 1) text
  byteLength text - byteLength rest + byteLength ((line rest).take (p.column.toNat - 1))

end Offset

/-- The known source texts, in the order in which their files were first added. -/
structure SourceTexts where
  entries : List (String × String)
deriving Repr

namespace SourceTexts

def empty : SourceTexts := ⟨[]⟩

def get? (t : SourceTexts) (path : String) : Option String := t.entries.lookup path

/-- The known texts with `text` at `path`, in place of an earlier text there. -/
def add (t : SourceTexts) (path text : String) : SourceTexts :=
  if t.entries.any (·.1 == path) then
    ⟨t.entries.map fun e => if e.1 == path then (path, text) else e⟩
  else ⟨t.entries ++ [(path, text)]⟩

def size (t : SourceTexts) : Nat := t.entries.length

def offset? (t : SourceTexts) (path : String) (p : Pos) : Option Nat :=
  (t.get? path).map fun text => Offset.ofPos text.toList p

/-- The byte range of a span in the file at `path`, as start and end. -/
def range? (t : SourceTexts) (path : String) (s : Span) : Option (Nat × Nat) :=
  (t.get? path).map fun text =>
    let cs := text.toList
    let start := Offset.ofPos cs s.start
    let stop := max (Offset.ofPos cs s.stop) start
    if start = stop then (start, min (start + 1) (byteLength cs)) else (start, stop)

end SourceTexts

end Schemata
