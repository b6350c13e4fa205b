import Schemata.Error
import Schemata.Rule.Basic
import Schemata.Schema.Exchange

/-!
# Settings

Which rules do not run, which ones only warn, whether warnings stand in the way of a snapshot, and
the version that snapshots carry.
-/

namespace Schemata

structure Settings where
  /-- The keys of rules that do not run. -/
  disabled : List String
  /-- The keys of rules whose reports are warnings. -/
  warnings : List String
  denyWarnings : Bool
  snapshotVersion : UInt32
deriving DecidableEq, Repr

namespace Settings

/-- All rules run as errors. -/
def standard : Settings := ⟨[], [], false, 1⟩

def enables (s : Settings) (r : Rule) : Bool := !s.disabled.contains r.key

/-- The settings under which one more rule does not run. -/
def disable (s : Settings) (r : Rule) : Settings := { s with disabled := s.disabled ++ [r.key] }

def enabledRules (s : Settings) : List Rule := Rule.all.filter s.enables

def severity (s : Settings) (r : Rule) : Severity :=
  if s.warnings.contains r.key then .warning else .error

/-- Refuses keys that no rule has, and then keys of required rules. -/
def validate (s : Settings) : Except Error Unit :=
  let keys := s.disabled ++ s.warnings
  match keys.find? fun k => (Rule.ofKey? k).isNone with
  | some key => .error (.unknownRule key)
  | none =>
    match keys.find? fun k => (Rule.ofKey? k).any (·.isRequired) with
    | some key => .error (.requiredRule key)
    | none => .ok ()

def toJson (s : Settings) : Json :=
  .object [("disabledRules", Json.strings s.disabled), ("warningRules", Json.strings s.warnings),
    ("denyWarnings", .bool s.denyWarnings), ("snapshotVersion", .int s.snapshotVersion.toNat)]

/-- Reads settings; whatever is missing is as in the standard settings. -/
def read : Json.Reader Settings := fun j => do
  let members ← Json.readRecord
    ["disabledRules", "warningRules", "denyWarnings", "snapshotVersion"] j
  pure {
    disabled := ← members.withDefault "disabledRules" [] (Json.readList Json.readString)
    warnings := ← members.withDefault "warningRules" [] (Json.readList Json.readString)
    denyWarnings := ← members.withDefault "denyWarnings" false Json.readBool
    snapshotVersion := ← members.withDefault "snapshotVersion" 1 Json.readUInt32 }

end Settings

end Schemata
