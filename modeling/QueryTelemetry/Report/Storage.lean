import QueryTelemetry.Report.Address
import QueryTelemetry.Text.Characters

/-!
# Storing tables

The library of tables that is in use. The cells are checked against the columns, then the file is
opened, and only then is the compression looked up.
-/

set_option autoImplicit false

namespace QueryTelemetry

/-- A number in an integer column loses its fraction. -/
def storedCell : CellType → Json → Json
  | .int, .float x =>
    match x.truncated? with
    | some n => .int n
    | none => .float x
  | _, v => v

def checkCell (type : CellType) (cell : Json) : Except Failure Unit :=
  match type, cell with
  | _, .null => .ok ()
  | .text, .str s => if s.isWhole then .ok () else .error .unencodable
  | .text, _ => .error .mistypedCell
  | .flag, .bool _ => .ok ()
  | .flag, _ => .error .unfitCell
  | .int, .int n => if fitsInt64 n then .ok () else .error .outOfRange
  | .int, .float x => if (x.truncated?.map fitsInt64).getD false then .ok () else .error .unfitCell
  | .int, .bool _ => .error .mistypedCell
  | .int, _ => .error .unfitCell

def checkRows (schema : Schema) (rows : List Row) : Except Failure Unit :=
  schema.forM fun column => rows.forM fun row => checkCell column.2 (cellAt row column.1)

def storedRow (schema : Schema) (row : Row) : Row :=
  schema.map fun column => (column.1, storedCell column.2 (cellAt row column.1))

def knownCompressions : List String :=
  ["NONE", "SNAPPY", "GZIP", "BROTLI", "LZ4", "LZ4_RAW", "ZSTD"]

def checkCompression (name : String) : Except Failure Unit :=
  let name := String.ofList (name.toList.flatMap Text.upper)
  if knownCompressions.contains name then .ok ()
  else if name = "LZO" then .error .unavailable
  else .error .unknownCompression

/-- The content of a file after the compression was looked up. A table starts with a mark, which
is there as soon as the compression has a name here. -/
def storedContent (rows : List Row) (compression : Except Failure Unit) : Content :=
  match compression with
  | .ok _ => .table rows
  | .error .unavailable => .bytes "PAR1".toUTF8
  | .error _ => .bytes .empty

def storeTable (path : Path) (rows : List Row) (compression : String) : Work Unit := do
  let known := checkCompression compression
  let content := storedContent rows known
  match ← path.destination with
  | .file place => Work.changeFiles (·.write place content)
  | .memory => pure ()
  Work.ofExcept known

/-- What cannot be stored leaves nothing at its path, not even a file that was there. -/
def storeOrRemove (homes : Homes) (path : Path) (rows : List Row) (compression : String) :
    Work Unit := do
  let place := path.expandHome homes
  match ← Work.outcome (storeTable place rows compression) with
  | .ok _ => return ()
  | .error e => do
    Work.changeFiles fun t => .ok (t.remove place)
    throw e

def TableLibrary.columnar (homes : Homes) : TableLibrary where
  table schema rows := (checkRows schema rows).map fun _ => rows.map (storedRow schema)
  store := storeOrRemove homes
  Compresses name := checkCompression name = .ok ()

end QueryTelemetry
