import QueryTelemetry.Assoc
import QueryTelemetry.FileTree
import QueryTelemetry.Json.Basic
import QueryTelemetry.Leaderboard
import QueryTelemetry.Number.Integer

/-!
# Settings

The settings of a run, given explicitly or read from the environment. A leaderboard holds at
least one entry in any settings that exist; an environment that says otherwise, or nothing
that can be understood, gives the default. A variable that cannot be set is refused with the
reason; one that is set keeps its value until it is set again.
-/

set_option autoImplicit false

namespace QueryTelemetry
open QueryTelemetry.Text

abbrev Environment := Assoc String String

inductive BadVariable where
  /-- The name or the value holds a null character. -/
  | nullByte
  /-- The name holds an equals sign. -/
  | illegalName
  | emptyName
  deriving DecidableEq

def BadVariable.message? : BadVariable → Option String
  | .nullByte => some "embedded null byte"
  | .illegalName => some "illegal environment variable name"
  | .emptyName => none

namespace Environment

def set (env : Environment) (name value : String) : Except BadVariable Environment :=
  if '\x00' ∈ name.toList ∨ '\x00' ∈ value.toList then .error .nullByte
  else if '=' ∈ name.toList then .error .illegalName
  else if name = "" then .error .emptyName
  else .ok (env.put name value)

def ofPairs (pairs : List (String × String)) : Except BadVariable Environment :=
  pairs.foldlM (fun env p => env.set p.1 p.2) []

def flag (value : Option String) (default : Bool) : Bool :=
  match value with
  | none => default
  | some v =>
    let word := lowerWord v
    if ["1", "true", "yes", "on"].contains word then true
    else if ["0", "false", "no", "off"].contains word then false
    else default

def integer (value : Option String) (default : Int) (minimum : Option Int) : Int :=
  match value.bind Integer.read? with
  | none => default
  | some n =>
    match minimum with
    | some least => if n < least then default else n
    | none => n

end Environment

structure Settings where
  topSlowSize : Capacity
  rowsByKind : Bool
  outputRoot : Path
  compression : String
  writeTables : Bool
  reportVersion : Int

def Settings.default : Settings where
  topSlowSize := Leaderboard.defaultCapacity
  rowsByKind := false
  outputRoot := Path.ofText "out"
  compression := "snappy"
  writeTables := true
  reportVersion := 1

structure BadSize where
  name : String
  size : Int

def BadSize.message (e : BadSize) : String :=
  match Integer.text? e.size with
  | some n => e.name ++ " must be positive, got " ++ n
  | none => Integer.unwritableText

def capacityOf (name : String) (size : Int) : Except BadSize Capacity :=
  match Capacity.ofInt? size with
  | some c => .ok c
  | none => .error ⟨name, size⟩

def Settings.withSize (s : Settings) (size : Int) : Except BadSize Settings :=
  (capacityOf "top_slow_size" size).map fun c => { s with topSlowSize := c }

def Settings.members (s : Settings) : List (String × Json) := [
  ("top_slow_size", .int s.topSlowSize.val),
  ("scope_rows_by_kind", .bool s.rowsByKind),
  ("output_root", .text s.outputRoot.text),
  ("parquet_compression", .text s.compression),
  ("write_parquet", .bool s.writeTables),
  ("report_version", .int s.reportVersion)]

/-- A size below the minimum has become the default, so the settings always exist. -/
def Settings.ofEnvironment (env : String → Option String) : Settings :=
  let size := Environment.integer (env "PERFSTATS_TOP_SLOW_SIZE") 30 (some 1)
  { topSlowSize := (Capacity.ofInt? size).getD Leaderboard.defaultCapacity
    rowsByKind := Environment.flag (env "PERFSTATS_SCOPE_ROWS_BY_KIND") false
    outputRoot := Path.ofText ((env "PERFSTATS_OUT_ROOT").getD "out")
    compression := (env "PERFSTATS_PARQUET_COMPRESSION").getD "snappy"
    writeTables := Environment.flag (env "PERFSTATS_WRITE_PARQUET") true
    reportVersion := Environment.integer (env "PERFSTATS_REPORT_VERSION") 1 none }

end QueryTelemetry
