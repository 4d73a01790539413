import QueryTelemetry.Json.Basic
import QueryTelemetry.Report.Basic
import QueryTelemetry.Workspace

/-!
# Tables of a report

Each section becomes a table with one row per entry. A block becomes one cell, its compact text. The
rows are handed to a library that is no part of this one, which first makes a table of them and then
stores it. What is relied on of that library stands in `TableLibrary.Lawful`.
-/

set_option autoImplicit false

namespace QueryTelemetry

inductive CellType where
  | text | int | flag
  deriving DecidableEq

abbrev Schema := List (String × CellType)

def rollupSchema : Schema := [
  ("text", .text), ("count", .int), ("duration_ms", .int), ("logical_reads", .int),
  ("physical_reads", .int), ("failures", .int), ("properties", .text), ("rows", .text)]

def topSlowSchema : Schema := [
  ("text", .text), ("start_time", .int), ("duration_ms", .int), ("node_id", .text),
  ("success", .flag), ("logical_reads", .int), ("physical_reads", .int),
  ("properties", .text), ("rows", .text)]

namespace Json

def member? (key : String) : Json → Except Failure Json
  | .obj members =>
    match Assoc.get? members (Utf16.ofString key) with
    | some v => .ok v
    | none => .error (.missingKey key)
  | _ => .error .wrongType

def blockCell (key : String) : Json → Except Failure Json
  | .obj members =>
    match Assoc.get? members (Utf16.ofString key) with
    | none => .ok .null
    | some .null => .ok .null
    | some v =>
      match v.compact? with
      | some cs => .ok (.text (String.ofList cs))
      | none => .error .unwritable
  | _ => .error .unsupported

end Json

def rollupRow (text : Utf16) (entry : Json) : Except Failure Row := do
  let count ← entry.member? "count"
  let duration ← entry.member? "duration"
  let logical ← entry.member? "logicalReads"
  let physical ← entry.member? "physicalReads"
  let failures ← entry.member? "failures"
  let properties ← entry.blockCell "properties"
  let rows ← entry.blockCell "rows"
  return [("text", .str text), ("count", count), ("duration_ms", duration),
    ("logical_reads", logical), ("physical_reads", physical), ("failures", failures),
    ("properties", properties), ("rows", rows)]

def topSlowRow (entry : Json) : Except Failure Row := do
  let text ← entry.member? "text"
  let startTime ← entry.member? "startTime"
  let duration ← entry.member? "duration"
  let node ← entry.member? "nodeId"
  let success ← entry.member? "success"
  let logical ← entry.member? "logicalReads"
  let physical ← entry.member? "physicalReads"
  let properties ← entry.blockCell "properties"
  let rows ← entry.blockCell "rows"
  return [("text", text), ("start_time", startTime), ("duration_ms", duration),
    ("node_id", node), ("success", success), ("logical_reads", logical),
    ("physical_reads", physical), ("properties", properties), ("rows", rows)]

def rollupRows : Json → Except Failure (List Row)
  | .obj members => members.mapM fun p => rollupRow p.1 p.2
  | _ => .error .unsupported

/-- The elements that a value lists: items, or the keys of an object, or the characters of a
text. -/
def listed? : Json → Option (List Json)
  | .arr items => some items
  | .obj members => some (members.map fun p => .str p.1)
  | .str s => some (s.map fun u => .str [u])
  | _ => none

def topSlowRows (sections : Json) : Except Failure (List Row) :=
  match listed? sections with
  | some entries => entries.mapM topSlowRow
  | none => .error .wrongType

def cellAt (row : Row) (column : String) : Json := (Assoc.get? row column).getD .null

def CellType.Suits : CellType → Json → Prop
  | _, .null => True
  | .text, .str s => ∃ t : String, s = Utf16.ofString t
  | .int, .int _ => True
  | .flag, .bool _ => True
  | _, _ => False

structure Schema.Types (schema : Schema) (row : Row) : Prop where
  distinct : (schema.map Prod.fst).Nodup
  columns : row.map Prod.fst = schema.map Prod.fst
  cells : ∀ column ∈ schema, column.2.Suits (cellAt row column.1)

def cellNumber? : Json → Option Int
  | .int n => some n
  | _ => none

def rowNumbers (row : Row) : List Int := row.filterMap fun cell => cellNumber? cell.2

def fitsInt64 (n : Int) : Bool := -0x8000000000000000 ≤ n && n < 0x8000000000000000

def isScheme : List Char → Bool
  | c :: s => c.isAlpha && s.all fun c => c.isAlphanum || c = '+' || c = '-' || c = '.'
  | [] => false

/-- A path that cannot be read as an address, or as one in a home. -/
structure Path.Plain (path : Path) : Prop where
  scheme : ∀ scheme rest, path.text.toList = scheme ++ ':' :: rest → isScheme scheme = false
  home : path.text.toList.head? ≠ some '~'

structure TableLibrary where
  /-- The rows of the table that is made of some rows. -/
  table : Schema → List Row → Except Failure (List Row)
  store : Path → List Row → String → Work Unit
  Compresses : String → Prop

/-- What is relied on: a table is made of rows of the types of their columns, exactly if all numbers
fit into 64 bits, and before anything is stored. It holds these rows. At a plain path it is stored
wherever a file can be written there, by any compression that the library has; and whatever comes of
it, no other file is touched. -/
structure TableLibrary.Lawful (l : TableLibrary) : Prop where
  made : ∀ schema rows, (∀ row ∈ rows, schema.Types row) →
    (∀ n ∈ rows.flatMap rowNumbers, fitsInt64 n) → l.table schema rows = .ok rows
  refused : ∀ schema rows, (∀ row ∈ rows, schema.Types row) →
    (∃ n ∈ rows.flatMap rowNumbers, ¬ fitsInt64 n) → l.table schema rows = .error .outOfRange
  counted : ∀ schema rows table, l.table schema rows = .ok table → table.length = rows.length
  stored : ∀ (path : Path) table compression w files, path.Plain → l.Compresses compression →
    w.files.write path (.table table) = .ok files →
    (l.store path table compression).run.run w = (.ok (), { w with files })
  elsewhere : ∀ (path : Path) table compression w, path.Plain → ∃ files : FileTree,
    ((l.store path table compression).run.run w).2 = { w with files } ∧
    files.folders = w.files.folders ∧
    ∀ p, w.files.locate path ≠ .ok p → files.files.get? p = w.files.files.get? p

structure TableInfo where
  rowsWritten : Nat
  path : String

def writeTable (l : TableLibrary) (path : Path) (schema : Schema) (rows : List Row)
    (compression : String) : Work TableInfo := do
  Work.makeFolders path.parent
  let table ← Work.ofExcept (l.table schema rows)
  l.store path table compression
  return ⟨table.length, path.text⟩

structure Tabled where
  name : String
  folder : String
  schema : Schema
  rows : Json → Except Failure (List Row)

def Tabled.path (s : Tabled) (root : Path) : Path :=
  (root.child s.folder).child (s.name ++ ".parquet")

def tabled : List Tabled := reportedKinds.flatMap fun k =>
  [⟨k.rollup, "rollups", rollupSchema, rollupRows⟩,
    ⟨k.topSlow, "top_slow", topSlowSchema, topSlowRows⟩]

abbrev Sections := String → Except Failure (Option Json)

def exportTable (l : TableLibrary) (sections : Sections) (root : Path) (compression : String)
    (s : Tabled) : Work (List (String × TableInfo)) := do
  match ← Work.ofExcept (sections s.name) with
  | none => return []
  | some v =>
    let rows ← Work.ofExcept (s.rows v)
    let info ← writeTable l (s.path root) s.schema rows compression
    return [(s.name, info)]

def exportSections (l : TableLibrary) (sections : Sections) (root : Path) (compression : String) :
    Work (List (String × TableInfo)) := do
  return (← tabled.mapM (exportTable l sections root compression)).flatten

def exportTables (l : TableLibrary) (report : Report) :
    Path → String → Work (List (String × TableInfo)) :=
  exportSections l fun name => .ok (report.get? name)

/-- A value that is no object has no sections; where it holds the name of one, it is asked for
the section in vain. -/
def Json.section? (v : Json) (name : String) : Except Failure (Option Json) :=
  let key := Utf16.ofString name
  let held (found : Bool) : Except Failure (Option Json) :=
    if found then .error .wrongType else .ok none
  match v with
  | .obj members => .ok (Assoc.get? members key)
  | .str s => held (Utf16.occurs key s)
  | .arr items => held (items.any fun | .str s => s = key | _ => false)
  | _ => .error .wrongType

def exportDocument (l : TableLibrary) (v : Json) :
    Path → String → Work (List (String × TableInfo)) :=
  exportSections l v.section?

def TableInfo.json (i : TableInfo) : Json :=
  .ofPairs [("rows_written", .int i.rowsWritten), ("path", .text i.path)]

end QueryTelemetry
