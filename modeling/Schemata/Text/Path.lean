/-!
# Package paths

A package path names a directory below the project root. Either slash separates its segments; empty
segments and the segment `.` name nothing and are dropped. The root package is the empty path.

`normalize` writes a path in its one canonical spelling, and `ancestors` lists the packages on the
way from the root to it.
-/

namespace Schemata.Path

/-- One step of a path. -/
abbrev Segment := List Char

/-- A slash of either direction stands between two segments. -/
def isSeparator (c : Char) : Bool := c == '/' || c == '\\'

/-- A segment that leads somewhere: neither empty nor the directory itself. -/
def isProper (s : Segment) : Bool := !(s == []) && !(s == ['.'])

def segments (path : String) : List Segment :=
  (path.toList.splitOnP isSeparator).filter isProper

/-- The segments put behind one another with a slash between neighbours. -/
def join (segs : List Segment) : String := String.ofList (['/'].intercalate segs)

def normalize (path : String) : String := join (segments path)

/-- What stands between the slashes of a path, empty pieces included. -/
def pieces (path : String) : List Segment := path.toList.splitOnP (· == '/')

/-- The path up to its last slash. The empty path has no parent. -/
def parent? (path : String) : Option String :=
  if path = "" then none else some (join (pieces path).dropLast)

/-- Without its last piece a text that is put together from several pieces is shorter. -/
theorem length_intercalate_dropLast_lt (sep : Char) (a b : Segment) (rest : List Segment) :
    ([sep].intercalate (a :: b :: rest).dropLast).length <
      ([sep].intercalate (a :: b :: rest)).length := by
  induction rest generalizing a b with
  | nil => simp [List.dropLast]
  | cons c rest ih =>
    have h := ih b c
    simp only [List.dropLast_cons_cons, List.intercalate_cons_cons, List.length_append] at h ⊢
    omega

/-- The parent of a path is shorter than the path. -/
theorem length_lt_of_parent? {path above : String} (h : parent? path = some above) :
    above.length < path.length := by
  rw [parent?] at h
  split at h
  · cases h
  · next hne =>
    obtain rfl := Option.some.inj h
    have hpath : path.toList = ['/'].intercalate (pieces path) :=
      (List.intercalate_splitOn '/').symm
    rw [join, ← String.length_toList, ← String.length_toList, String.toList_ofList]
    rcases hpieces : pieces path with _ | ⟨a, _ | ⟨b, rest⟩⟩
    · rw [hpieces] at hpath
      exact absurd (String.toList_injective hpath) hne
    · exact List.length_pos_iff.2 fun e => hne (String.toList_injective e)
    · rw [hpath, hpieces]
      exact length_intercalate_dropLast_lt '/' a b rest

/-- The path after its last slash. -/
def name (path : String) : String := String.ofList ((pieces path).getLastD [])

/-- The packages from the root down to the one that `path` names, both included. -/
def ancestors (path : String) : List String :=
  (List.range ((segments path).length + 1)).map fun k => join ((segments path).take k)

/-- `full dir file` is the project-relative path of `file` inside the directory `dir`. -/
def full (dir file : String) : String := if dir = "" then file else dir ++ "/" ++ file

end Schemata.Path
