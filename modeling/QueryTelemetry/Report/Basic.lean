import QueryTelemetry.Aggregator

/-!
# Reports

A report joins completions with the facts collected for their identities. The rollup of a kind
has one entry per text; the slowest queries of a kind are listed by ascending duration.
Durations are shown in whole milliseconds, rounded down once on the total. Only SQL field
queries show properties and rows, and only when there are some.
-/

set_option autoImplicit false

namespace QueryTelemetry

def nanosPerMilli : Int := 1000000

def nanosToMillis (n : Int) : Int := n.fdiv nanosPerMilli

abbrev PropertyBlock := Assoc String (String × Int)

def pairLe (a b : String × String) : Bool :=
  a.1 < b.1 || (a.1 = b.1 && a.2 ≤ b.2)

/-- The least pair with a name takes its place. -/
def PropertyCounts.block (m : PropertyCounts) : PropertyBlock :=
  (m.mergeSort fun a b => pairLe a.1 b.1).foldl
    (fun b p => if b.has p.1.1 then b else b ++ [(p.1.1, p.1.2, p.2)]) []

def RowCounts.block (m : RowCounts) : RowCounts := m.mergeSort fun a b => a.1 ≤ b.1

structure RollupEntry where
  count : Nat
  duration : Int
  logicalReads : Int
  physicalReads : Int
  failures : Nat
  properties : Option PropertyBlock
  rows : Option RowCounts

structure SlowEntry where
  text : String
  startTime : Int
  duration : Int
  node : NodeId
  success : Bool
  logicalReads : Int
  physicalReads : Int
  properties : Option PropertyBlock
  rows : Option RowCounts

namespace Correlator

def pull (c : Correlator Identity) (kind : QueryKind) (t : Totals) (i : Identity) : Totals :=
  let t := match c.reads? kind i with
    | some r => t.addReads r
    | none => t
  if kind = .sqlFields then
    (t.addProperties ((c.properties? kind i).getD [])).addRows ((c.rows? kind i).getD [])
  else t

def totals (c : Correlator Identity) (kind : QueryKind) (e : Entry) : Totals :=
  e.identities.toList.foldl (c.pull kind) e.totals

end Correlator

def Totals.entry (t : Totals) : RollupEntry where
  count := t.count
  duration := nanosToMillis t.duration
  logicalReads := t.logicalReads
  physicalReads := t.physicalReads
  failures := t.failures
  properties := if t.properties.isEmpty then none else some t.properties.block
  rows := if t.rows.isEmpty then none else some t.rows.block

namespace Aggregator

def rollup (a : Aggregator) (kind : QueryKind) : List (String × RollupEntry) :=
  (a.table.ofKind kind).map fun p => (p.1, (a.correlator.totals kind p.2).entry)

def slowEntry (a : Aggregator) (kind : QueryKind) (c : Completion) : SlowEntry :=
  let reads := (a.correlator.reads? kind c.identity).getD ⟨0, 0⟩
  let detailed := kind = .sqlFields
  { text := c.text
    startTime := c.startTime
    duration := nanosToMillis c.duration
    node := c.node
    success := c.success
    logicalReads := reads.logical
    physicalReads := reads.physical
    properties := if detailed then (a.correlator.properties? kind c.identity).map (·.block) else none
    rows := if detailed then (a.correlator.rows? kind c.identity).map (·.block) else none }

def topSlow (a : Aggregator) (kind : QueryKind) : List SlowEntry :=
  match a.slowest.get? kind with
  | some b => b.items.map (a.slowEntry kind)
  | none => []

end Aggregator

/-! ## Sections

Three kinds are reported, each in a rollup and in a list of its slowest queries. All rollups
come before all lists. -/

abbrev Report := Assoc String Json

structure ReportedKind where
  kind : QueryKind
  rollup : String
  topSlow : String

def reportedKinds : List ReportedKind := [
  ⟨.sqlFields, "sql", "topSlowSql"⟩,
  ⟨.scan, "scan", "topSlowScan"⟩,
  ⟨.index, "index", "topSlowIndex"⟩]

def RowCounts.json (m : RowCounts) : Json := .ofPairs (m.map fun p => (p.1, .int p.2))

def PropertyBlock.json (m : PropertyBlock) : Json :=
  .ofPairs (m.map fun p => (p.1, .ofPairs [("value", .text p.2.1), ("count", .int p.2.2)]))

def blockMembers (properties : Option PropertyBlock) (rows : Option RowCounts) :
    List (String × Json) :=
  (properties.map fun b => ("properties", PropertyBlock.json b)).toList ++
    (rows.map fun b => ("rows", RowCounts.json b)).toList

def RollupEntry.json (e : RollupEntry) : Json :=
  .ofPairs ([
    ("count", .int e.count),
    ("duration", .int e.duration),
    ("logicalReads", .int e.logicalReads),
    ("physicalReads", .int e.physicalReads),
    ("failures", .int e.failures)] ++ blockMembers e.properties e.rows)

def SlowEntry.json? (e : SlowEntry) : Option Json :=
  e.node.text?.map fun node => .ofPairs ([
    ("text", .text e.text),
    ("startTime", .int e.startTime),
    ("duration", .int e.duration),
    ("nodeId", .text node),
    ("success", .bool e.success),
    ("logicalReads", .int e.logicalReads),
    ("physicalReads", .int e.physicalReads)] ++ blockMembers e.properties e.rows)

namespace Aggregator

def rollupJson (a : Aggregator) (kind : QueryKind) : Json :=
  .ofPairs ((a.rollup kind).map fun p => (p.1, p.2.json))

def topSlowJson? (a : Aggregator) (kind : QueryKind) : Option Json :=
  ((a.topSlow kind).mapM SlowEntry.json?).map .arr

def report? (a : Aggregator) : Option Report :=
  (reportedKinds.mapM fun s => (a.topSlowJson? s.kind).map fun v => (s.topSlow, v)).map fun slow =>
    (reportedKinds.map fun s => (s.rollup, a.rollupJson s.kind)) ++ slow

end Aggregator

end QueryTelemetry
