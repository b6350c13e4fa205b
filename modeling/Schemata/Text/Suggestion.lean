/-!
# Suggestions for misspelt names

`distance` counts the single-character insertions, deletions and substitutions that lead from one
text to another. It fills the table of distances row by row: a row belongs to a suffix of the first
text and holds its distance to every suffix of the second, the longest suffix first.

A suggestion is the nearest candidate, within a bound that grows with the length of the name.
-/

namespace Schemata.Suggestion

/-- The distances of one text to all suffixes of another: to the whole of it, then to the shorter
ones. -/
abbrev Row := Nat × List Nat

variable {α : Type} [DecidableEq α]

/-- The empty text is as far from a suffix as the suffix is long. -/
def emptyRow : List α → Row
  | [] => (0, [])
  | _ :: ys => let r := emptyRow ys; (r.1 + 1, r.1 :: r.2)

/-- The row of `x :: xs` from the row of `xs`. -/
def extendRow (x : α) : List α → Row → Row
  | y :: ys, (d, e :: ds) =>
    let r := extendRow x ys (e, ds)
    (min (min (d + 1) (r.1 + 1)) (e + if x = y then 0 else 1), r.1 :: r.2)
  | _, (d, _) => (d + 1, [])

def row (xs ys : List α) : Row := xs.foldr (fun x r => extendRow x ys r) (emptyRow ys)

/-- The least number of single-character edits between two texts. -/
def distance (a b : String) : Nat := (row a.toList b.toList).1

/-- The first of the pairs with the least second component. -/
def least : List (String × Nat) → Option (String × Nat)
  | [] => none
  | c :: rest =>
    match least rest with
    | none => some c
    | some b => if b.2 < c.2 then some b else some c

/-- The candidate nearest to `name`, other than `name` itself and at most `bound` edits away; of
several the one listed first. -/
def closest? (name : String) (candidates : List String) (bound : Nat) : Option String :=
  let measured := candidates.map fun c => (c, distance name c)
  (least (measured.filter fun m => m.2 ≤ bound && !(m.1 == name))).map (·.1)

/-- A third of the length in bytes, but at least 2 and at most 4 edits. -/
def threshold (name : String) : Nat := min 4 (max 2 (name.utf8ByteSize / 3))

def hint? (name : String) (candidates : List String) : Option String :=
  (closest? name candidates (threshold name)).map fun c => s!"did you mean `{c}`?"

end Schemata.Suggestion

/-!
## Distances in two rows

The table of distances can be filled from the front as well, and then two rows of it are enough: the
one that is filled and the one above it. A row belongs to what has been read of the first text, and
its entries to the initial parts of the second one, the empty one first. A full row changes places
with the one above it, which is written over next.
-/

namespace Schemata.Suggestion

structure EditRows where
  above : List Nat
  current : List Nat

namespace EditRows

variable {α : Type} [DecidableEq α]

/-- The row of the empty text, and one to be filled. -/
def start (width : Nat) : EditRows := ⟨List.range (width + 1), List.replicate (width + 1) 0⟩

/-- Fills in the entry behind column `j`, where the row is that of `x` and the entry that of `y`. -/
def fillEntry (x : α) (r : EditRows) (j : Nat) (y : α) : EditRows :=
  let least := min (min (r.above.getD (j + 1) 0 + 1) (r.current.getD j 0 + 1))
    (r.above.getD j 0 + if x = y then 0 else 1)
  { r with current := r.current.set (j + 1) least }

/-- Fills in the entries behind column `j`. -/
def fillFrom (x : α) (r : EditRows) (j : Nat) : List α → EditRows
  | [] => r
  | y :: ys => (r.fillEntry x j y).fillFrom x (j + 1) ys

/-- Fills in row `i` below the first one, and puts it above the next one. -/
def fillRow (ys : List α) (r : EditRows) (i : Nat) (x : α) : EditRows :=
  let full := { r with current := r.current.set 0 (i + 1) }.fillFrom x 0 ys
  ⟨full.current, full.above⟩

/-- Fills in the rows below row `i`. -/
def fillRows (ys : List α) (r : EditRows) (i : Nat) : List α → EditRows
  | [] => r
  | x :: xs => (r.fillRow ys i x).fillRows ys (i + 1) xs

/-- The last entry of the last row. An empty text has no rows to be filled. -/
def distance (a b : String) : Nat :=
  let xs := a.toList
  let ys := b.toList
  if xs.length = 0 then ys.length
  else if ys.length = 0 then xs.length
  else ((start ys.length).fillRows ys 0 xs).above.getD ys.length 0

end EditRows

end Schemata.Suggestion
