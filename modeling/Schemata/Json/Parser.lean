import Schemata.Json.Token

/-!
# Reading JSON texts

`Parser.run` reads tokens one by one. What it has not finished is a list of frames, the innermost
array or object first; `Expectation` says what may come next. The number of frames is the depth at
which it reads. What is nested too deep has to be well formed as well, but is not readable.
-/

namespace Schemata.Json

/-- The number of arrays and objects around each other that are readable. -/
def maxDepth : Nat := 127

/-- A member with its name, if that is a text. -/
abbrev NamedPart := Option String × Json

/-- An array or object that is still open. Its finished parts stand in reverse. -/
inductive Frame where
  | array (items : List Json)
  /-- An object with the name of the member that is being read. -/
  | object (members : List NamedPart) (key : Option String)

/-- What the next token may be. -/
inductive Expectation where
  /-- A value. -/
  | value
  /-- A value, or the end of an array that has no items. -/
  | itemOrEnd
  /-- The name of a member of an object with the given members. -/
  | name (members : List NamedPart)
  /-- A name, or the end of an object that has no members. -/
  | nameOrEnd
  /-- The colon behind a name. -/
  | colon (members : List NamedPart) (key : Option String)
  /-- What may follow a finished value. -/
  | continuation (value : Json)

namespace Parser

/-- An array or object inside the given frames. -/
def nest (frames : List Frame) (j : Json) : Json :=
  if frames.length < maxDepth then j else .unreadable

/-- The object with the given members, which all have to have names. -/
def ofParts (parts : List NamedPart) : Json :=
  match parts.mapM fun (key, j) => key.map (·, j) with
  | some members => .object members
  | none => .unreadable

/-- A token at the start of a value, with the open frames outside it. -/
def value (frames : List Frame) : Token → Option (Expectation × List Frame)
  | .null => some (.continuation .null, frames)
  | .bool b => some (.continuation (.bool b), frames)
  | .int i => some (.continuation (.int i), frames)
  | .float x => some (.continuation (.float x), frames)
  | .string s => some (.continuation (.string s), frames)
  | .overflow | .garbled => some (.continuation .unreadable, frames)
  | .openBracket => some (.itemOrEnd, .array [] :: frames)
  | .openBrace => some (.nameOrEnd, frames)
  | _ => none

/-- A token at the start of a member, of an object with the given members. -/
def name (members : List NamedPart) (frames : List Frame) :
    Token → Option (Expectation × List Frame)
  | .string key => some (.colon members (some key), frames)
  | .garbled => some (.colon members none, frames)
  | _ => none

/-- A token behind a finished value inside the innermost frame. -/
def continuation (v : Json) : List Frame → Token → Option (Expectation × List Frame)
  | .array items :: frames, .comma => some (.value, .array (v :: items) :: frames)
  | .array items :: frames, .closeBracket =>
    some (.continuation (nest frames (.array (v :: items).reverse)), frames)
  | .object members key :: frames, .comma => some (.name ((key, v) :: members), frames)
  | .object members key :: frames, .closeBrace =>
    some (.continuation (nest frames (ofParts ((key, v) :: members).reverse)), frames)
  | _, _ => none

def step : Expectation → List Frame → Token → Option (Expectation × List Frame)
  | .value, frames, t => value frames t
  | .itemOrEnd, .array [] :: frames, .closeBracket =>
    some (.continuation (nest frames (.array [])), frames)
  | .itemOrEnd, frames, t => value frames t
  | .nameOrEnd, frames, .closeBrace => some (.continuation (nest frames (.object [])), frames)
  | .nameOrEnd, frames, t => name [] frames t
  | .name members, frames, t => name members frames t
  | .colon members key, frames, .colon => some (.value, .object members key :: frames)
  | .colon _ _, _, _ => none
  | .continuation v, frames, t => continuation v frames t

def run : Expectation → List Frame → List Token → Option Json
  | .continuation v, [], [] => some v
  | _, _, [] => none
  | e, frames, t :: ts => do
    let (e, frames) ← step e frames t
    run e frames ts

end Parser

/-- The value that some symbols denote. -/
def parseSymbols? (symbols : List (Option Char)) : Option Json := do
  let tokens ← Token.scan symbols
  Parser.run .value [] tokens

def parse? (text : String) : Option Json := parseSymbols? (text.toList.map some)

end Schemata.Json
