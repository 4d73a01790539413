import QueryTelemetry.Payload

/-!
# Telemetry records

A query execution is known by the node it started on and its number there. Its completion,
page reads, processed rows and properties are reported by separate records. Durations are in
nanoseconds. Texts are sequences of Unicode scalar values, so none of them holds half of a surrogate
pair.
-/

set_option autoImplicit false

namespace QueryTelemetry

/-- Nodes named by text and by number are never the same node. -/
inductive NodeId where
  | named (s : String)
  | numbered (n : Int)
  /-- Known by a value of any other type: which one it is, and its text, if it has one. -/
  | other (key : Nat) (text : Option String)
  deriving DecidableEq

def NodeId.text? : NodeId → Option String
  | .named s => some s
  | .numbered n => Integer.text? n
  | .other _ text => text

structure Identity where
  node : NodeId
  id : Int
  deriving DecidableEq

structure Completion where
  kind : QueryKind
  text : String
  node : NodeId
  id : Int
  startTime : Int
  duration : Int
  success : Bool
  deriving DecidableEq

structure ReadsReport where
  reporter : NodeId
  kind : QueryKind
  origin : NodeId
  id : Int
  logical : Int
  physical : Int
  deriving DecidableEq

structure RowsReport where
  reporter : NodeId
  kind : QueryKind
  origin : NodeId
  id : Int
  action : String
  rows : Int
  deriving DecidableEq

structure PropertyReport where
  reporter : NodeId
  kind : QueryKind
  origin : NodeId
  id : Int
  name : String
  value : String
  deriving DecidableEq

inductive Record where
  | completion (c : Completion)
  | reads (r : ReadsReport)
  | rows (r : RowsReport)
  | property (r : PropertyReport)
  deriving DecidableEq

def Completion.identity (c : Completion) : Identity := ⟨c.node, c.id⟩
def ReadsReport.identity (r : ReadsReport) : Identity := ⟨r.origin, r.id⟩
def RowsReport.identity (r : RowsReport) : Identity := ⟨r.origin, r.id⟩
def PropertyReport.identity (r : PropertyReport) : Identity := ⟨r.origin, r.id⟩

namespace Record

def identity : Record → Identity
  | .completion c => c.identity
  | .reads r => r.identity
  | .rows r => r.identity
  | .property r => r.identity

def typeTag : Record → String
  | .completion _ => "query"
  | .reads _ => "queryReads"
  | .rows _ => "queryRows"
  | .property _ => "queryProperty"

/-- The fields of a record under their wire names. A node is written by its text, so a
numbered node comes back as a named one. -/
def fields? : Record → Option (List (String × Payload))
  | .completion c => do
    let node ← c.node.text?
    return [("type", .str "query"), ("kind", .str c.kind.name), ("text", .str c.text),
      ("nodeId", .str node), ("id", .int c.id), ("startTime", .int c.startTime),
      ("duration", .int c.duration), ("success", .bool c.success)]
  | .reads r => do
    let reporter ← r.reporter.text?
    let origin ← r.origin.text?
    return [("type", .str "queryReads"), ("nodeId", .str reporter), ("kind", .str r.kind.name),
      ("queryNodeId", .str origin), ("id", .int r.id), ("logicalReads", .int r.logical),
      ("physicalReads", .int r.physical)]
  | .rows r => do
    let reporter ← r.reporter.text?
    let origin ← r.origin.text?
    return [("type", .str "queryRows"), ("nodeId", .str reporter), ("kind", .str r.kind.name),
      ("queryNodeId", .str origin), ("id", .int r.id), ("action", .str r.action),
      ("rows", .int r.rows)]
  | .property r => do
    let reporter ← r.reporter.text?
    let origin ← r.origin.text?
    return [("type", .str "queryProperty"), ("nodeId", .str reporter),
      ("kind", .str r.kind.name), ("queryNodeId", .str origin), ("id", .int r.id),
      ("name", .str r.name), ("value", .str r.value)]

end Record

end QueryTelemetry
