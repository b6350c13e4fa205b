import Schemata.Json.Basic
import Schemata.Text.Quoted

/-!
# The tokens of a JSON text

A token has a text, and a JSON value is written as a sequence of tokens. `Token.scan` cuts a text
into its tokens, one symbol at a time. Blanks may stand between tokens and nowhere else.

The symbols of a text are its characters. Where a text comes as bytes, a byte that is part of no
character is a symbol too, `none`; it may stand inside a string, which then has no value.
-/

namespace Schemata.Json

inductive Token where
  | openBrace | closeBrace
  | openBracket | closeBracket
  | colon | comma
  | null
  | bool (value : Bool)
  | int (value : Int)
  | float (value : Binary64)
  | string (value : String)
  /-- A number that is too large. -/
  | overflow
  /-- A string that is no text. -/
  | garbled
deriving DecidableEq

/-- Numbers in JSON text: a tie goes to the even digit, and the exponent always has a sign. -/
def numberLayout : Number.Layout := ⟨.toEven, -5, true⟩

/-- One character inside a string: only the quote, the backslash and the characters below the space
are escaped. -/
def escapeChar (c : Char) : List Char :=
  if c = '"' then ['\\', '"']
  else if c = '\\' then ['\\', '\\']
  else if c = '\x08' then ['\\', 'b']
  else if c = '\x0c' then ['\\', 'f']
  else if c = '\n' then ['\\', 'n']
  else if c = '\r' then ['\\', 'r']
  else if c = '\t' then ['\\', 't']
  else if c < ' ' then '\\' :: 'u' :: Hex.padded 4 c.toNat
  else [c]

def stringText (s : String) : List Char := '"' :: s.toList.flatMap escapeChar ++ ['"']

/-- A text of a token. A number that is not finite has none of its own and is written as `null`. -/
def Token.text : Token → List Char
  | .openBrace => ['\x7b']
  | .closeBrace => ['\x7d']
  | .openBracket => ['[']
  | .closeBracket => [']']
  | .colon => [':']
  | .comma => [',']
  | .null => ['n', 'u', 'l', 'l']
  | .bool true => ['t', 'r', 'u', 'e']
  | .bool false => ['f', 'a', 'l', 's', 'e']
  | .int i => Numeral.ofInt i
  | .float x => if x.isFinite then Number.render numberLayout x else ['n', 'u', 'l', 'l']
  | .string s => stringText s
  | .overflow => ['1', 'e', '3', '0', '9']
  | .garbled => ['"', '\\', 'u', 'd', '8', '0', '0', '"']

/-- The parts of a number. -/
structure NumberText where
  negative : Bool
  /-- The digits before the point. -/
  whole : List Char
  /-- The digits behind the point, if there is one. -/
  fraction : Option (List Char)
  /-- The sign and the digits of the exponent, if there is one. -/
  exponent : Option (Bool × List Char)

namespace NumberText

/-- The exponent part of a number: nothing, or an `e` with an optional sign and at least
one digit. -/
def readExponent (cs : List Char) : Option (Option (Bool × List Char)) :=
  match cs with
  | [] => some none
  | e :: rest =>
    if e = 'e' ∨ e = 'E' then
      let (negative, ds) := match rest with
        | '-' :: ds => (true, ds)
        | '+' :: ds => (false, ds)
        | ds => (false, ds)
      if ds ≠ [] ∧ ds.all Char.isDigit then some (some (negative, ds)) else none
    else none

/-- The parts of a number as JSON writes it: no leading zero, and a digit on either side of the
point. -/
def ofText? (cs : List Char) : Option NumberText := do
  let (negative, cs) := match cs with
    | '-' :: rest => (true, rest)
    | _ => (false, cs)
  let whole := cs.takeWhile Char.isDigit
  let rest := cs.dropWhile Char.isDigit
  if whole = [] ∨ (whole.head? = some '0' ∧ whole ≠ ['0']) then none
  else
    match rest with
    | '.' :: rest =>
      let fraction := rest.takeWhile Char.isDigit
      if fraction = [] then none
      else
        let exponent ← readExponent (rest.dropWhile Char.isDigit)
        pure ⟨negative, whole, some fraction, exponent⟩
    | _ =>
      let exponent ← readExponent rest
      pure ⟨negative, whole, none, exponent⟩

def token (l : NumberText) : Token :=
  let digits := l.whole ++ l.fraction.getD []
  let magnitude := Numeral.value digits
  let integer : Int := if l.negative then -magnitude else magnitude
  if l.fraction.isNone ∧ l.exponent.isNone ∧ holdsInt integer ∧ ¬ (l.negative ∧ magnitude = 0) then
    .int integer
  else
    let scale : Int := match l.exponent with
      | none => 0
      | some (true, ds) => -Numeral.value ds
      | some (false, ds) => Numeral.value ds
    let behind : Int := (l.fraction.getD []).length
    ((Binary64.ofDecimal? l.negative magnitude (scale - behind)).map .float).getD .overflow

end NumberText

/-- A piece of a string as it is written. -/
inductive Piece where
  | char (c : Char)
  /-- An escaped code unit that is half of a character. -/
  | half (unit : Nat)
  /-- A byte that is part of no character. -/
  | stray

namespace Piece

def isLeading (unit : Nat) : Bool := 0xD800 ≤ unit && unit < 0xDC00

def isTrailing (unit : Nat) : Bool := 0xDC00 ≤ unit && unit < 0xE000

def ofUnit (unit : Nat) : Piece :=
  if isLeading unit || isTrailing unit then .half unit else .char (Char.ofNat unit)

/-- The character of a first and a second half. -/
def pair (leading trailing : Nat) : Char :=
  Char.ofNat (0x10000 + 0x400 * (leading - 0xD800) + (trailing - 0xDC00))

/-- The text that some pieces make up, in which each first half needs its second one right behind
it. -/
def join? : List Piece → Option (List Char)
  | [] => some []
  | .char c :: rest => (join? rest).map (c :: ·)
  | .half u :: .half v :: rest =>
    if isLeading u && isTrailing v then (join? rest).map (pair u v :: ·) else none
  | _ => none

def token (pieces : List Piece) : Token :=
  ((join? pieces).map fun cs => .string (String.ofList cs)).getD .garbled

end Piece

/-- Where a scanner stands between two symbols. What it has read of a token is kept in reverse. -/
inductive Scanner where
  /-- Between tokens. -/
  | outside
  /-- In a string. -/
  | inString (read : List Piece)
  /-- In a string behind a backslash. -/
  | escaped (read : List Piece)
  /-- In the four digits of an escaped code unit. -/
  | inUnit (read : List Piece) (digits : Nat) (unit : Nat)
  /-- In a number. -/
  | inNumber (read : List Char)
  /-- In one of the words `null`, `true` and `false`. -/
  | inWord (read : List Char)

namespace Scanner

def isBlank (c : Char) : Bool := c == ' ' || c == '\t' || c == '\n' || c == '\r'

def isNumeric (c : Char) : Bool :=
  c.isDigit || c == '-' || c == '+' || c == '.' || c == 'e' || c == 'E'

/-- A character between tokens: the token it is, if it is one by itself, and where the scanner is
then. -/
def start (c : Char) : Option (List Token × Scanner) :=
  if isBlank c then some ([], .outside)
  else if c = '\x7b' then some ([.openBrace], .outside)
  else if c = '\x7d' then some ([.closeBrace], .outside)
  else if c = '[' then some ([.openBracket], .outside)
  else if c = ']' then some ([.closeBracket], .outside)
  else if c = ':' then some ([.colon], .outside)
  else if c = ',' then some ([.comma], .outside)
  else if c = '"' then some ([], .inString [])
  else if c = '-' ∨ c.isDigit then some ([], .inNumber [c])
  else if c.isLower then some ([], .inWord [c])
  else none

def number? (read : List Char) : Option Token := (NumberText.ofText? read.reverse).map (·.token)

def word? (read : List Char) : Option Token :=
  [Token.null, .bool true, .bool false].find? (·.text == read.reverse)

def unescape? : Char → Option Char
  | '"' => some '"'
  | '\\' => some '\\'
  | '/' => some '/'
  | 'b' => some '\x08'
  | 'f' => some '\x0c'
  | 'n' => some '\n'
  | 'r' => some '\r'
  | 't' => some '\t'
  | _ => none

/-- Reads one character: the tokens that it completes, and where the scanner is then. -/
def stepChar : Scanner → Char → Option (List Token × Scanner)
  | .outside, c => start c
  | .inString read, c =>
    if c = '"' then some ([Piece.token read.reverse], .outside)
    else if c = '\\' then some ([], .escaped read)
    else if c < ' ' then none
    else some ([], .inString (.char c :: read))
  | .escaped read, c =>
    if c = 'u' then some ([], .inUnit read 0 0)
    else (unescape? c).map fun d => ([], .inString (.char d :: read))
  | .inUnit read digits u, c => do
    let v ← Hex.digitValue? c
    if digits < 3 then pure ([], .inUnit read (digits + 1) (16 * u + v))
    else pure ([], .inString (Piece.ofUnit (16 * u + v) :: read))
  | .inNumber read, c =>
    if isNumeric c then some ([], .inNumber (c :: read))
    else do
      let t ← number? read
      let (ts, s) ← start c
      pure (t :: ts, s)
  | .inWord read, c =>
    if c.isLower then some ([], .inWord (c :: read))
    else do
      let t ← word? read
      let (ts, s) ← start c
      pure (t :: ts, s)

def step : Scanner → Option Char → Option (List Token × Scanner)
  | s, some c => s.stepChar c
  | .inString read, none => some ([], .inString (.stray :: read))
  | _, none => none

/-- The tokens that the end of the text completes. -/
def finish : Scanner → Option (List Token)
  | .outside => some []
  | .inNumber read => (number? read).map ([·])
  | .inWord read => (word? read).map ([·])
  | _ => none

end Scanner

/-- The tokens of a text that a scanner has read up to here. -/
def Scanner.scan : Scanner → List (Option Char) → Option (List Token)
  | s, [] => s.finish
  | s, c :: cs => do
    let (ts, s) ← s.step c
    let rest ← scan s cs
    pure (ts ++ rest)

def Token.scan (cs : List (Option Char)) : Option (List Token) := Scanner.outside.scan cs

end Schemata.Json
