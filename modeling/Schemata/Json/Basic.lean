import Schemata.Number

/-!
# JSON values

Members of an object keep their order, and a name may come up more than once: what that means is for
the reader of the object to say. A number is an integer or a double-precision number, and the two
are different values even where they are equal as numbers.

A text may be well formed and yet have parts without a value: a number that is too large, a string
with half a character, an array that is nested too deep. Such a part does no harm where nobody reads
it, so that it has a place among the values, `Json.unreadable`, which every reader refuses.
-/

namespace Schemata

inductive Json where
  | null
  | bool (value : Bool)
  | int (value : Int)
  | float (value : Binary64)
  | string (value : String)
  | array (items : List Json)
  | object (members : List (String × Json))
  /-- A part of a text that has no value. -/
  | unreadable

namespace Json

mutual

/-- How deep arrays and objects are nested in a value. -/
def depth : Json → Nat
  | .array items => depthItems items + 1
  | .object members => depthMembers members + 1
  | _ => 0

def depthItems : List Json → Nat
  | [] => 0
  | j :: rest => max (depth j) (depthItems rest)

def depthMembers : List (String × Json) → Nat
  | [] => 0
  | (_, j) :: rest => max (depth j) (depthMembers rest)

end

mutual

def isReadable : Json → Bool
  | .array items => allReadable items
  | .object members => allMembersReadable members
  | .unreadable => false
  | _ => true

def allReadable : List Json → Bool
  | [] => true
  | j :: rest => isReadable j && allReadable rest

def allMembersReadable : List (String × Json) → Bool
  | [] => true
  | (_, j) :: rest => isReadable j && allMembersReadable rest

end

/-- Whether a JSON text may hold the integer as such; beyond these bounds it is read as a float. -/
def holdsInt (i : Int) : Bool := Int64.minValue.toInt ≤ i && i < UInt64.size

end Json

end Schemata

/-!
## Reading data off JSON values

A reader takes a JSON value of the right shape and refuses any other. In an object a reader asks for
the members it knows; one that is there twice is refused, and members that nobody asks for do not
matter. A record may also be an array of its parts in their order.

Where the kind of a record says how to read its other parts, those in front of the kind have to be
put aside until it is known. What was put aside has to be readable in all its parts, and is read
less strictly where one of several words is expected.
-/

namespace Schemata.Json

/-- Reads a value of some type off a JSON value. -/
abbrev Reader (α : Type) := Json → Option α

def readString : Reader String
  | .string s => some s
  | _ => none

def readBool : Reader Bool
  | .bool b => some b
  | _ => none

/-- Reads a number without point and exponent that fits 64 bits with a sign. -/
def readInt64 : Reader Int64
  | .int i =>
    if Int64.minValue.toInt ≤ i ∧ i ≤ Int64.maxValue.toInt then some (Int64.ofInt i) else none
  | _ => none

/-- Reads a number without point and exponent that fits 32 bits without a sign. -/
def readUInt32 : Reader UInt32
  | .int i => if 0 ≤ i ∧ i < UInt32.size then some (UInt32.ofNat i.toNat) else none
  | _ => none

/-- Reads a number; an integer counts as the nearest double-precision number. -/
def readFloat : Reader Binary64
  | .float x => some x
  | .int i => Binary64.ofInt? i
  | _ => none

/-- How a value reaches its reader. -/
inductive Access where
  /-- As it is read from the text. -/
  | direct
  /-- After it was put aside. -/
  | buffered
deriving DecidableEq, Repr

/-- Reads one of several words, which may also be the name of the only member of an object. That
member is `null` or, where it was put aside, an object without members. -/
def readWord (access : Access) : Reader String
  | .string s => some s
  | .object [(word, .null)] => some word
  | .object [(word, .object [])] => if access = .buffered then some word else none
  | _ => none

/-- Reads one of the given words by its name or, where it was put aside, by its place among them. -/
def readChoice (words : List String) (access : Access) : Reader String
  | .string s => some s
  | .int i => if access = .buffered ∧ 0 ≤ i then words[i.toNat]? else none
  | _ => none

def readList {α : Type} (item : Reader α) : Reader (List α)
  | .array items => items.mapM item
  | _ => none

def readPair {α β : Type} (first : Reader α) (second : Reader β) : Reader (α × β)
  | .array [a, b] => do pure (← first a, ← second b)
  | _ => none

abbrev Members := List (String × Json)

def readMembers : Reader Members
  | .object members => some members
  | _ => none

/-- Reads the members of a record whose parts have the given names: an object has them itself, and
the items of an array are the first parts. -/
def readRecord (names : List String) : Reader Members
  | .object members => some members
  | .array items => if items.length ≤ names.length then some (names.zip items) else none
  | _ => none

namespace Members

variable {α : Type}

def named (members : Members) (key : String) : List Json :=
  (members.filter (·.1 == key)).map (·.2)

/-- How the member named `part` is read if its record has the access given and the member named
`kind` says how to read it. -/
def accessTo (members : Members) (part kind : String) (access : Access) : Access :=
  let names := members.map (·.1)
  if names.idxOf part < names.idxOf kind then .buffered else access

/-- Reads the member of that name, which has to be there. -/
def required (members : Members) (key : String) (reader : Reader α) : Option α :=
  match members.named key with
  | [j] => reader j
  | _ => none

/-- Reads the member of that name; a member that is missing or `null` is absent. -/
def optional (members : Members) (key : String) (reader : Reader α) : Option (Option α) :=
  match members.named key with
  | [] => some none
  | [.null] => some none
  | [j] => (reader j).map some
  | _ => none

/-- Reads the member of that name, and takes `default` if it is missing. -/
def withDefault (members : Members) (key : String) (default : α) (reader : Reader α) : Option α :=
  match members.named key with
  | [] => some default
  | [j] => reader j
  | _ => none

end Members

end Schemata.Json
