import Schemata.Diagnostic.Basic
import Schemata.Schema.Declaration

/-!
# Errors

What keeps a run from giving a result. Problems in a schema are diagnostics; an error stands for all
of them only where a snapshot was asked for.
-/

namespace Schemata

/-- Why a declaration has no resolved form. Analysis finds all of these. -/
inductive BuildFault where
  | missingIndex (type field : String)
  | missingType (type field : String)
  | unresolved (ref : TypeRef)
  | ambiguous (ref : TypeRef)
deriving DecidableEq

def BuildFault.message : BuildFault → String
  | .missingIndex type field =>
    s!"field `{type}.{field}` has no index (rule `field-index` did not run)"
  | .missingType type field =>
    s!"field `{type}.{field}` has no value type (rule `field-shape` did not run)"
  | .unresolved ref => s!"unresolved reference `{ref.text}`"
  | .ambiguous ref => s!"ambiguous reference `{ref.text}`"

/-- Why bytes are no snapshot file. -/
inductive ContainerFault where
  | tooShort (size : Nat)
  | badMagic (magic : List UInt8)
  | badVersion (version : UInt32)
  | badLength (stated : UInt32) (found : Nat)
  | badChecksum (stated computed : UInt32)
  | bodyTooLarge (size : Nat)
deriving DecidableEq

/-- A 32-bit word with all of its eight digits. -/
def wordText (w : UInt32) : String := "0x" ++ String.ofList (Hex.padded 8 w.toNat)

def numberText (n : Nat) : String := String.ofList (Numeral.digits n)

def ContainerFault.message : ContainerFault → String
  | .tooShort size => s!"expected at least 16 bytes, found {numberText size}"
  | .badMagic magic =>
    "bad magic [" ++ ", ".intercalate (magic.map fun b => numberText b.toNat) ++ "]"
  | .badVersion version =>
    s!"unsupported format version {numberText version.toNat} (expected 1)"
  | .badLength stated found =>
    s!"body length mismatch: header says {numberText stated.toNat}, found {numberText found}"
  | .badChecksum stated computed =>
    s!"checksum mismatch: expected {wordText stated}, found {wordText computed}"
  | .bodyTooLarge size => s!"body too large ({numberText size} bytes)"

inductive Error where
  | noSources
  /-- Two sources for one file. -/
  | duplicateFile (path : String)
  /-- The diagnostics of a run without a snapshot. -/
  | compileFailed (diagnostics : List Diagnostic)
  | internal (file : FileRef) (fault : BuildFault)
  | unknownRule (key : String)
  /-- The settings disable or downgrade a rule that has to run as an error. -/
  | requiredRule (key : String)
  | invalidContainer (fault : ContainerFault)
  /-- A text is not JSON, or not JSON of the right shape. -/
  | json
  /-- A file cannot be read. -/
  | unreadable
deriving DecidableEq

def Error.message : Error → String
  | .noSources => "no source files to compile"
  | .duplicateFile path => s!"file `{path}` was supplied more than once"
  | .compileFailed ds =>
    s!"compilation failed with {numberText (ds.countP (·.isError))} errors"
  | .internal file fault => s!"internal error: {file.fullPath}: {fault.message}"
  | .unknownRule key => s!"unknown rule `{key}`"
  | .requiredRule key => s!"rule `{key}` is required and cannot be disabled or downgraded"
  | .invalidContainer fault => s!"invalid snapshot file: {fault.message}"
  | .json => "malformed JSON"
  | .unreadable => "unreadable file"

end Schemata
