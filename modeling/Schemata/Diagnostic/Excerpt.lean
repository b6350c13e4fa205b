import Schemata.Error
import Schemata.Excerpt.Mark

/-!
# Excerpts

A diagnostic is shown with the lines of source that it is about.
-/

/-!
## Lines of code with their marks

`MarkedLine.rows` paints a line of code and, below it, its marks as their layout has them.
`markedRows` sets all marked lines of a passage one below the other. Between two of them stands the
line that they enclose, if it is one, and dots if there are more. The bars of open stretches go
through all rows.
-/

namespace Schemata.Excerpt

namespace Frame

def rule (f : Frame) (row : Row) : Row := Row.write (f.gutter - 2) ['|'] row

/-- A row with the bars at the given depths. -/
def bars (f : Frame) (depths : List Nat) (row : Row) : Row :=
  depths.foldl (fun r depth => Row.write (f.gutter + depth - 1) ['|'] r) row

/-- What the window shows of a line of code, behind the number of the line. -/
def codeRow (f : Frame) (w : Window) (l : Line) : Row :=
  let v := w.view l
  let head := v.head?.getD []
  let start := f.code + Text.textWidth head
  let body := v.code.drop head.length
  let row := Row.write start body (if v.head?.isSome then Row.write f.code Row.dots [] else [])
  let row := match v.tail? with
    | some tail => Row.write (start + body.length - tail.length) Row.dots row
    | none => row
  let number := Numeral.digits l.number
  f.rule (Row.write 0 (List.replicate (f.numberWidth - number.length) ' ' ++ number) row)

end Frame

namespace MarkedLine

/-- The depths of the bars that start on a line if they need no row of their own, since only white
space stands before them. -/
def quietBars? (m : MarkedLine) : Option (List Nat) :=
  let text := shown m.line.text
  if m.marks.all fun k =>
      k.isPassing || (k.isOpening && (text.take k.start.column).all isBlank) then
    some (m.marks.filterMap (·.bar?))
  else none

/-- The strokes that lead from a mark to its bar and to its label. -/
def leads (f : Frame) (column : Nat → Nat) (height : Nat) (p : PlacedMark) : List Stroke :=
  let m := p.mark
  let fall := if 0 < p.drop ∧ (m.isLabelled ∨ m.bar?.isSome) then
      Stroke.down (column m.start.column) '|' (List.range' 1 (p.drop + 1))
    else []
  let side := match m.role with
    | .opening depth =>
      ⟨p.drop + 1, f.gutter + depth - 1, [' ']⟩ ::
        Stroke.down (f.gutter + depth - 1) '|' (List.range' (p.drop + 2) (height - p.drop))
    | .closing depth => Stroke.down (f.gutter + depth - 1) '|' (List.range (p.drop + 2))
    | .whole | .passing _ => []
  fall ++ side

/-- The stroke that joins a mark and the bar of its stretch. -/
def joint (f : Frame) (column : Nat → Nat) (p : PlacedMark) : List Stroke :=
  p.mark.bar?.toList.map fun depth =>
    let start := f.gutter + depth
    ⟨p.drop + 1, start, List.replicate (column p.mark.start.column - start) '_'⟩

/-- The label of a mark: behind its underline, or below its start. -/
def caption (f : Frame) (left : Nat) (p : PlacedMark) : List Stroke :=
  let m := p.mark
  let text := (m.label.getD "").toList
  if p.drop = 0 then
    let gap := if m.stop.column = 0 then 2 else 1
    [⟨1, f.code + (m.stop.column + gap - left), text⟩]
  else [⟨p.drop + 2, f.code + (m.start.column - left), text⟩]

/-- The underline of a mark. A mark that something leads to is underlined even if it takes no
column. -/
def underline (column : Nat → Nat) (p : PlacedMark) : List Stroke :=
  let m := p.mark
  let c := if m.isPrimary then '^' else '-'
  let start := column m.start.column
  let isAnchored := m.bar?.isSome ∨ (p.drop ≠ 0 ∧ m.isLabelled)
  let width :=
    if m.width = 0 then (if isAnchored then 1 else 0) else column (m.stop.column - 1) + 1 - start
  [⟨1, start, List.replicate width c⟩]

/-- The code and its underline without the middle of a mark that is very long and has no other in
its way. -/
def shorten (room : Nat) (column : Nat → Nat) (rows : List Row) (m : Mark) (isCrossed : Bool) :
    List Row :=
  if m.role = .whole ∧ !isCrossed ∧ 2 * room < m.width ∧ 10 < m.width then
    let kept := max (room / 3) 5
    let cut := Row.elide (column m.start.column + kept) (column m.stop.column - kept)
    (rows.modify 0 cut).modify 1 cut
  else rows

def rows (f : Frame) (w : Window) (m : MarkedLine) : List Row × List Nat :=
  let code := f.codeRow w m.line
  match m.quietBars? with
  | some depths =>
    (paint [code] (depths.map fun depth => ⟨0, f.gutter + depth - 1, ['/']⟩), depths)
  | none =>
    let left := (w.view m.line).left
    let column (c : Nat) : Nat := f.code + c - left
    let layout := Layout.ofMarks m.marks
    let blank := List.replicate (layout.height + 1) (f.rule [])
    let sorted := Layout.byWidth layout.marks
    let painted := paint (code :: blank) <|
      layout.marks.flatMap (joint f column) ++
      layout.marks.flatMap (leads f column layout.height) ++
      layout.marks.flatMap (caption f left) ++
      sorted.flatMap (underline column)
    let crossings := Layout.crossings (layout.marks.map (·.mark))
    let shortened := (sorted.zip crossings).foldl
      (fun rs (p, isCrossed) => shorten w.room column rs p.mark isCrossed) painted
    (shortened, layout.marks.filterMap (·.mark.bar?))

end MarkedLine

/-- The bars that stay open behind some bars that start or end, and the bars that start. -/
def openBars : List Nat → List Nat → List Nat × List Nat
  | active, [] => (active, [])
  | active, depth :: depths =>
    if depth ∈ active then openBars (active.erase depth) depths
    else
      let (kept, started) := openBars active depths
      (kept, depth :: started)

def between (f : Frame) (w : Window) (lines : List Line) (a b : Nat) : List Row :=
  if a + 2 < b then [Row.dots]
  else if a + 2 = b then (lines[a]?).toList.map (f.codeRow w)
  else []

/-- The rows for some marked lines, behind which the bars at the given depths are open. -/
def markedRows (f : Frame) (w : Window) (lines : List Line) : List Nat → List MarkedLine → List Row
  | _, [] => []
  | active, m :: ms =>
    let (rows, depths) := m.rows f w
    let (kept, started) := openBars active depths
    let opened := m.marks.filterMap fun k => if k.isOpening then k.bar? else none
    let gap := match ms with
      | [] => []
      | next :: _ => between f w lines m.line.number next.line.number
    rows.map (f.bars kept) ++ gap.map (f.bars (kept ++ opened)) ++
      markedRows f w lines (kept ++ started) ms

/-!
## Passages

A passage is what an excerpt shows of one file: a heading that names the place in question, then the
marked lines. All passages of an excerpt have one frame, so that their line numbers and their code
line up.
-/

/-- A file with what there is to say about it. -/
structure Passage where
  path : String
  text : List Char
  notes : List Note

namespace Passage

def lines (p : Passage) : List Line := Line.ofText p.text

def stretches (p : Passage) : List Stretch :=
  Stretch.arrange (p.notes.filterMap (·.stretch? p.lines))

def markedLines (p : Passage) : List MarkedLine :=
  let lines := p.lines
  MarkedLine.ofMarks lines <|
    p.notes.filterMap (·.mark? lines) ++ p.stretches.flatMap (·.marks lines)

/-- The greatest line number that a passage needs room for: that of the last line which its notes
reach. -/
def lastLine (p : Passage) : Nat :=
  let reached := takeBytes ((p.notes.map (·.range.2)).foldl max 0) p.text
  let ended := reached.count '\n'
  max 1 (if reached.getLast?.all (· == '\n') then ended else ended + 1)

def frame (ps : List Passage) : Frame where
  numberWidth := (Numeral.digits ((ps.map (·.lastLine)).foldl max 1)).length
  depth := (ps.map fun p => Stretch.maxDepth p.stretches).foldl max 0

/-- The mark that a heading names: of the first line with a primary mark the leftmost such one, or
else the very first mark. -/
def focus? (ms : List MarkedLine) : Option Mark :=
  match ms.find? fun m => m.marks.any (·.isPrimary) with
  | some m =>
    let primary := m.marks.filter (·.isPrimary)
    primary.find? fun a => primary.all fun b => a.start.char ≤ b.start.char
  | none => ms.head?.bind (·.marks.head?)

/-- The heading of a passage, which `arrow` opens. -/
def heading (f : Frame) (arrow : String) (p : Passage) (ms : List MarkedLine) : List Char :=
  let place := match focus? ms with
    | some m => s!":{numberText m.line}:{numberText (m.start.char + 1)}"
    | none => ""
  List.replicate f.numberWidth ' ' ++ arrow.toList ++ ' ' :: p.path.toList ++ place.toList

def rows (f : Frame) (arrow : String) (p : Passage) : List Row :=
  let marked := p.markedLines
  p.heading f arrow marked :: f.rule [] ::
    markedRows f (Window.ofLines f.room marked) p.lines [] marked

end Passage

/-- A text over several rows, each but the first behind a margin. -/
def hanging (margin : Nat) (cs : List Char) : List Row :=
  match cs.splitOnP (· == '\n') with
  | [] => []
  | first :: rest => first :: rest.map (List.replicate margin ' ' ++ ·)

end Schemata.Excerpt

/-!
## Diagnostics with excerpts of their source

Where the text of its file is known, a diagnostic is shown with the lines that it is about. Below
such a line, carets mark the problem itself and dashes the places that have to do with it, each with
its label. Places in other files follow, a passage each, and then the hints.

Where the text is not known, the diagnostic takes one line.
-/

namespace Schemata.Diagnostic

open Excerpt

/-- The note for a span in a file, with the text of the file, if that is known. -/
def note? (sources : SourceTexts) (path : String) (span : Span) (isPrimary : Bool)
    (label : String) :
    Option (String × Note) := do
  let text ← sources.get? path
  let range ← sources.range? path span
  pure (text, ⟨range, isPrimary, label⟩)

/-- The passage of the problem itself, if the text of its file is known. -/
def mainPassage? (d : Diagnostic) (sources : SourceTexts) : Option Passage := do
  let path := d.file.fullPath
  let (text, problem) ← note? sources path d.span true d.message
  let near := (d.related.filter (·.file.fullPath == path)).filterMap fun r =>
    (note? sources path r.span false r.message).map (·.2)
  pure ⟨path, text.toList, problem :: near⟩

/-- The passages of places in other files whose texts are known. -/
def farPassages (d : Diagnostic) (sources : SourceTexts) : List Passage :=
  (d.related.filter fun r => !(r.file.fullPath == d.file.fullPath)).filterMap fun r =>
    (note? sources r.file.fullPath r.span false r.message).map fun (text, place) =>
      ⟨r.file.fullPath, text.toList, [place]⟩

def titleRows (d : Diagnostic) : List Row :=
  let severity := s!"{d.severity.word}: ".toList
  match hanging severity.length (shown d.message.toList) with
  | [] => [severity]
  | first :: rest => (severity ++ first) :: rest

def hintRows (f : Frame) (hint : String) : List Row :=
  let margin := List.replicate (f.numberWidth + 1) ' ' ++ "= help: ".toList
  match hanging margin.length hint.toList with
  | [] => [margin]
  | first :: rest => (margin ++ first) :: rest

def renderPassages (d : Diagnostic) (main : Passage) (far : List Passage) : String :=
  let f := Passage.frame (main :: far)
  let hints := d.hints.flatMap (hintRows f)
  let rows := d.titleRows ++ main.rows f "-->" ++
    far.flatMap (fun p => f.rule [] :: p.rows f ":::") ++
    (if hints.isEmpty then [] else f.rule [] :: hints)
  String.ofList (['\n'].intercalate rows)

/-- A diagnostic with excerpts where its source is known. -/
def render (sources : SourceTexts) (d : Diagnostic) : String :=
  match d.mainPassage? sources with
  | some main => d.renderPassages main (d.farPassages sources)
  | none => d.line

/-- All diagnostics, one below the other. -/
def renderAll (sources : SourceTexts) (ds : List Diagnostic) : String :=
  "\n".intercalate (ds.map (render sources))

end Schemata.Diagnostic
