import Schemata.Json.Token

/-!
# Writing JSON texts

A value is written from its tokens, either without any blanks or with a line for every item and
member. Both forms have the same tokens, `Json.tokens`. Nothing is written for a part without a
value but `null`.
-/

namespace Schemata.Json

mutual

def tokens : Json → List Token
  | .null | .unreadable => [.null]
  | .bool b => [.bool b]
  | .int i => [.int i]
  | .float x => [.float x]
  | .string s => [.string s]
  | .array items => .openBracket :: tokensOfItems true items ++ [.closeBracket]
  | .object members => .openBrace :: tokensOfMembers true members ++ [.closeBrace]

/-- The tokens of some items, with a comma in front of each one that is not the first. -/
def tokensOfItems (isFirst : Bool) : List Json → List Token
  | [] => []
  | j :: rest => (if isFirst then [] else [.comma]) ++ tokens j ++ tokensOfItems false rest

/-- The tokens of some members, with a comma in front of each one that is not the first. -/
def tokensOfMembers (isFirst : Bool) : List (String × Json) → List Token
  | [] => []
  | (key, j) :: rest =>
    (if isFirst then [] else [.comma]) ++ .string key :: .colon :: tokens j ++
      tokensOfMembers false rest

end

def compact (j : Json) : String := String.ofList (j.tokens.flatMap Token.text)

/-- A new line, indented by two spaces a level. -/
def newLine (level : Nat) : List Char := '\n' :: List.replicate (2 * level) ' '

mutual

/-- The characters of a value with a line for every item and member; empty arrays and objects stay
whole. -/
def lines (level : Nat) : Json → List Char
  | .array [] => ['[', ']']
  | .array (j :: rest) =>
    '[' :: linesOfItems (level + 1) true (j :: rest) ++ newLine level ++ [']']
  | .object [] => ['\x7b', '\x7d']
  | .object (m :: rest) =>
    '\x7b' :: linesOfMembers (level + 1) true (m :: rest) ++ newLine level ++ ['\x7d']
  | .null | .unreadable => Token.null.text
  | .bool b => (Token.bool b).text
  | .int i => (Token.int i).text
  | .float x => (Token.float x).text
  | .string s => (Token.string s).text

/-- Each item on a line of its own. -/
def linesOfItems (level : Nat) (isFirst : Bool) : List Json → List Char
  | [] => []
  | j :: rest =>
    (if isFirst then [] else [',']) ++ newLine level ++ lines level j ++
      linesOfItems level false rest

/-- Each member on a line of its own, a space behind the colon. -/
def linesOfMembers (level : Nat) (isFirst : Bool) : List (String × Json) → List Char
  | [] => []
  | (key, j) :: rest =>
    (if isFirst then [] else [',']) ++ newLine level ++ stringText key ++ ':' :: ' ' ::
      lines level j ++ linesOfMembers level false rest

end

def pretty (j : Json) : String := String.ofList (lines 0 j)

end Schemata.Json
