import Schemata.Excerpt.Line

/-!
# Marks and where they go

What an excerpt points at, how the marks of a line are laid out below it, and which part of a long
line is shown.
-/

/-!
## Marks

What an excerpt points at comes as notes on ranges of bytes. A note within one line is one mark
there. A note over several lines is a stretch: it opens in its first line, passes some of the lines
between, closes in its last one, and a bar to the left of the code leads through all of them. Bars
of stretches that meet stand at different depths; depth 1 is the outermost.
-/

namespace Schemata.Excerpt

/-- Something to say about a range of bytes. -/
structure Note where
  range : Nat × Nat
  /-- Whether the range is the problem itself. -/
  isPrimary : Bool
  label : String

/-- What a mark is a part of. -/
inductive Mark.Role where
  /-- A note within one line. -/
  | whole
  /-- The start of the stretch at a depth. -/
  | opening (depth : Nat)
  /-- A line inside of the stretch at a depth. -/
  | passing (depth : Nat)
  /-- The end of the stretch at a depth. -/
  | closing (depth : Nat)
deriving DecidableEq, Repr

/-- A part of a line that an excerpt points at. -/
structure Mark where
  line : Nat
  start : Spot
  stop : Spot
  role : Mark.Role
  isPrimary : Bool
  label : Option String
deriving DecidableEq, Repr

/-- A note over several lines. -/
structure Stretch where
  start : Place
  stop : Place
  isPrimary : Bool
  label : String
  depth : Nat
  /-- Whether another note covers the very same range. -/
  isTwin : Bool
deriving DecidableEq, Repr

namespace Stretch

def sameRange (a b : Stretch) : Bool := a.start == b.start && a.stop == b.stop

/-- Whether two stretches have a line in common. -/
def meets (a b : Stretch) : Bool := a.start.line ≤ b.stop.line && b.start.line ≤ a.stop.line

/-- Makes room for the stretch `a` in a list of stretches: those before it that it meets go one
deeper. Then the first one that is neither such a stretch nor a twin of `a` becomes primary if a
primary stretch so far has its range. -/
def makeRoom (primaries : List Stretch) (a : Stretch) : List Stretch → List Stretch
  | [] => []
  | b :: bs =>
    if !a.sameRange b && a.meets b then
      { b with depth := b.depth + 1 } :: makeRoom primaries a bs
    else if a.sameRange b && a != b then { b with isTwin := true } :: makeRoom primaries a bs
    else { b with isPrimary := b.isPrimary || primaries.any (·.sameRange b) } :: bs

/-- Makes room for each of some stretches in turn. -/
def settle (primaries : List Stretch) : List Stretch → List Stretch → List Stretch
  | [], placed => placed
  | a :: as, placed =>
    let primaries := if a.isPrimary then a :: primaries else primaries
    settle primaries as (makeRoom primaries a placed)

def maxDepth (as : List Stretch) : Nat := (as.map (·.depth)).foldl max 0

/-- Some stretches at their depths: those that start first, and of these the longest, come first. -/
def arrange (as : List Stretch) : List Stretch :=
  let sorted := as.mergeSort fun a b =>
    a.start.line < b.start.line || (a.start.line == b.start.line && b.stop.line ≤ a.stop.line)
  let settled := settle [] sorted sorted
  settled.map fun a => { a with depth := maxDepth settled - a.depth + 1 }

def opening (a : Stretch) : Mark :=
  ⟨a.start.line, a.start.spot, a.start.spot.next, .opening a.depth, a.isPrimary, none⟩

/-- The mark for a stretch in a line inside of it. -/
def passing (a : Stretch) (line : Nat) : Mark :=
  ⟨line, ⟨0, 0⟩, ⟨0, 0⟩, .passing a.depth, a.isPrimary, none⟩

def ending (a : Stretch) (role : Mark.Role) : Mark :=
  ⟨a.stop.line, a.stop.spot.previous, a.stop.spot, role, a.isPrimary, some a.label⟩

/-- The lines inside of a stretch that are shown for its sake: up to three behind its first line,
without bare ones at the end, and the line before its last one, unless that is bare. -/
def passed (lines : List Line) (a : Stretch) : List Nat :=
  let first := a.start.line
  let middle := min (first + 4) a.stop.line
  let isBare (n : Nat) : Bool := (lines[n - 1]?).all (·.isBare)
  let lastFull := ((List.range' first (middle - first)).reverse.find? fun n => !isBare n).getD first
  let before := a.stop.line - 1
  List.range' (first + 1) (lastFull - first) ++
    (if middle < before && !isBare before then [before] else [])

def marks (lines : List Line) (a : Stretch) : List Mark :=
  if a.isTwin then [a.ending .whole]
  else a.opening :: (a.passed lines).map a.passing ++ [a.ending (.closing a.depth)]

end Stretch

namespace Note

/-- The places where a note starts and stops. A note on nothing takes a character. -/
def places (lines : List Line) (n : Note) : Place × Place :=
  let start := Place.ofStart lines n.range.1
  let stop := if n.range.1 = n.range.2 then start else Place.ofStop lines start n.range.2
  if start.line = stop.line ∧ start.spot.column = stop.spot.column then
    (start, { stop with spot := ⟨stop.spot.char, stop.spot.column + 1⟩ })
  else (start, stop)

/-- The mark for a note within one line. -/
def mark? (lines : List Line) (n : Note) : Option Mark :=
  let (start, stop) := n.places lines
  if start.line = stop.line then
    some ⟨start.line, start.spot, stop.spot, .whole, n.isPrimary, some n.label⟩
  else none

/-- The stretch for a note over several lines. -/
def stretch? (lines : List Line) (n : Note) : Option Stretch :=
  let (start, stop) := n.places lines
  if start.line = stop.line then none
  else some ⟨start, stop, n.isPrimary, n.label, 1, false⟩

end Note

/-- A line with the marks in it. -/
structure MarkedLine where
  line : Line
  marks : List Mark

namespace MarkedLine

/-- The lines of a text that have marks. -/
def ofMarks (lines : List Line) (marks : List Mark) : List MarkedLine :=
  (lines.map fun l => ⟨l, marks.filter (·.line == l.number)⟩).filter fun m => !m.marks.isEmpty

end MarkedLine

/-!
## Where the marks below a line go

Below a line of code, the first row underlines the marks. A label follows the underline of its mark
where no other mark is in the way. Otherwise it goes some rows down, and a rule leads to it from the
start of its mark; so do the openings and closings of stretches, whose rules lead to the bars on the
left. The marks are laid out from right to left, each as far up as those before it let it.
-/

namespace Mark

def isLabelled (m : Mark) : Bool := m.label.any fun l => !l.isEmpty

/-- The bar that a mark starts or ends. -/
def bar? (m : Mark) : Option Nat :=
  match m.role with
  | .opening depth | .closing depth => some depth
  | .whole | .passing _ => none

def isOpening (m : Mark) : Bool :=
  match m.role with
  | .opening _ => true
  | _ => false

def isPassing (m : Mark) : Bool :=
  match m.role with
  | .passing _ => true
  | _ => false

def width (m : Mark) : Nat := m.stop.column - m.start.column

/-- Whether a mark, with some columns behind it, has a column in common with another. -/
def overlaps (a : Mark) (behind : Nat) (b : Mark) : Bool :=
  (b.start.column ≤ a.start.column && a.start.column < b.stop.column) ||
    (a.start.column ≤ b.start.column && b.start.column < a.stop.column + behind)

/-- Whether a mark cannot have its label on the first row because of one further left. -/
def collides (m next : Mark) : Bool :=
  m.isLabelled && next.overlaps 0 m &&
    !(next.start == m.start && next.stop == m.stop && !next.isLabelled)

/-- Whether a mark ends no later than another; in one column, the order of the characters counts. -/
def endsBy (a b : Mark) : Bool :=
  a.stop.column < b.stop.column || (a.stop.column == b.stop.column && a.stop.char ≤ b.stop.char)

/-- Whether a mark further left has to go a row further down than `m`. -/
def crowds (m : Mark) (isOnFirst : Bool) (next : Mark) : Bool :=
  let behind := match next.label with
    | some l => l.utf8ByteSize + 2
    | none => 0
  let touches := next.overlaps behind m
  (touches && m.isLabelled && next.isLabelled) ||
    (m.bar?.isSome && (next.isLabelled || next.bar?.isSome)) ||
    (m.isLabelled && next.bar?.isSome) ||
    (touches && next.endsBy m && next.isLabelled && isOnFirst)

/-- Marks from right to left. -/
def fromRight (ms : List Mark) : List Mark :=
  ms.mergeSort fun a b => b.start.column < a.start.column ||
    (b.start.column == a.start.column && b.start.char ≤ a.start.char)

end Mark

/-- A mark with the number of rows that its label goes down. -/
structure PlacedMark where
  mark : Mark
  drop : Nat

/-- The marks below a line, from right to left. -/
structure Layout where
  marks : List PlacedMark
  /-- The number of rows below the first one. -/
  height : Nat

namespace Layout

/-- The marks at their rows, from the given row on. -/
def place (drop : Nat) : List Mark → List PlacedMark
  | [] => []
  | m :: rest =>
    let own := if drop = 0 ∧ rest.any m.collides then 1 else drop
    let next := if rest.any (m.crowds (own == 0)) then own + 1 else own
    ⟨m, own⟩ :: place next rest

/-- The layout of some marks. Where only stretches open, the one furthest left opens furthest up. -/
def ofMarks (ms : List Mark) : Layout :=
  let placed := place 0 (Mark.fromRight ms)
  let deepest := (placed.map (·.drop)).foldl max 0
  let height := if deepest = 0 then 0 else deepest + 1
  if ms.all (·.isOpening) then
    ⟨placed.map fun p => { p with drop := deepest - p.drop }, height - 1⟩
  else ⟨placed, height⟩

/-- For each of some marks from right to left, whether it is crossed, so that what it marks has to
be seen in full. Two marks leave each other alone. Where there are more, the third and all further
left count as crossed, and the first two if one of these has a column in common with them; a label
that has to go below the second mark leaves the first one uncrossed. -/
def crossings : List Mark → List Bool
  | [] => []
  | [_] => [false]
  | a :: b :: rest =>
    (!a.collides b && rest.any (·.overlaps 0 a)) :: rest.any (·.overlaps 0 b) ::
      rest.map fun _ => true

/-- Marks as they are underlined: the widest first, and of these the primary ones last. -/
def byWidth (ps : List PlacedMark) : List PlacedMark :=
  ps.mergeSort fun a b => b.mark.width < a.mark.width ||
    (b.mark.width == a.mark.width && (b.mark.isPrimary || !a.mark.isPrimary))

end Layout

/-!
## What of long lines is shown

An excerpt has 140 columns. On the left stand the line numbers, a rule and the bars of stretches;
what is left is for the code. `Frame` holds these measures.

When the lines are longer than that, a window on them is shown, the same for all lines of a passage.
`Window` says which columns it has: much white space before the code is left out first; when that is
not enough, the window is put around the marks, with their labels if they fit.
-/

structure Frame where
  /-- The number of columns for line numbers. -/
  numberWidth : Nat
  /-- The number of bars that may stand side by side. -/
  depth : Nat

namespace Frame

/-- The column behind the rule that follows the line numbers. -/
def gutter (f : Frame) : Nat := f.numberWidth + 3

def code (f : Frame) : Nat := if f.depth = 0 then f.gutter else f.gutter + f.depth + 1

def room (f : Frame) : Nat := 140 - f.code

end Frame

/-- The columns of the code that an excerpt shows. -/
structure Window where
  left : Nat
  right : Nat
  /-- The number of columns for code. -/
  room : Nat

namespace Window

def maximum (ns : List Nat) : Nat := ns.foldl max 0

def minimum (ns : List Nat) : Nat := ns.min?.getD 0

/-- The column behind a mark and its label. -/
def labelStop (m : Mark) : Nat :=
  m.stop.column + match m.label with
    | some l => columns l.toList + 1
    | none => 0

/-- The window of `room` columns that has those from `left` to `right`. Of the columns to spare,
`share` says how many are on the left. -/
def around (room left right : Nat) (share : Nat → Nat) : Window :=
  let start := left - share (room - (right - left))
  ⟨start, start + room, room⟩

/-- The window for some lines with marks. The six columns that are added on either side
hold dots. -/
def ofLines (room : Nat) (ms : List MarkedLine) : Window :=
  let marks := ms.flatMap (·.marks)
  let spots := marks.flatMap fun m => [m.start.column, m.stop.column]
  let full := ms.filter fun m => !m.line.text.all isBlank
  let firstSpot := minimum spots
  let indent := min (minimum (full.map (·.line.indent))) firstSpot - 6
  let spanLeft := firstSpot - 6
  let spanRight := maximum spots + 6
  let labelRight := maximum (marks.map labelStop) + 6
  let left := if 20 < indent then indent - 16 else 0
  let right := max (maximum (ms.map fun m => columns m.line.text)) left
  if right - left ≤ room then ⟨left, right, room⟩
  else if indent ≤ labelRight ∧ labelRight - indent ≤ room then ⟨indent, indent + room, room⟩
  else if spanLeft ≤ labelRight ∧ labelRight - spanLeft ≤ room then
    around room spanLeft labelRight (· / 2)
  else if spanRight - spanLeft ≤ room then around room spanLeft spanRight (· / 5 * 2)
  else ⟨spanLeft, spanRight, room⟩

end Window

/-- What a window shows of a line. -/
structure View where
  /-- The characters in the window. -/
  code : List Char
  /-- The column of the line where the window starts. -/
  left : Nat
  /-- The characters at the start that dots stand for, if the window starts behind the start of its
  lines. -/
  head? : Option (List Char)
  /-- The characters at the end that dots stand for, if the line goes on. -/
  tail? : Option (List Char)

namespace Window

/-- The shortest beginning of a text that takes three columns. -/
def underDots (cs : List Char) : List Char := cs.take (cs.length - (Text.dropWidth 3 cs).length)

/-- What the window shows of a line. A wide character on the left edge of the window is left out,
and one on the edge of the dots gives way to them. -/
def view (w : Window) (l : Line) : View :=
  let text := shown l.text
  let width := Text.textWidth text
  let left := min w.left width
  let right := if width - w.left ≤ w.room then width else min width w.right
  let rest := Text.dropWidth left text
  let code := Text.takeWidth (right - left) rest
  let head := underDots code
  let start := max left (width - Text.textWidth rest)
  { code
    left := if 0 < w.left then start - (Text.textWidth head - 3) else start
    head? := if 0 < w.left then some head else none
    tail? := if right < width then some (underDots code.reverse).reverse else none }

end Window

end Schemata.Excerpt
