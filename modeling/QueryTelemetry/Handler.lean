import QueryTelemetry.Report.Basic
import QueryTelemetry.Workspace

/-!
# Handlers

A handler has one callback for each sort of record and gives report sections at the end. Besides the
aggregator there are handlers of a caller's own, and a guard that admits one call at a time to the
handler inside it. What a handler of a caller's own keeps is its own affair. It is known by how it
answers: which of its callbacks fail, and its sections, after the calls that it got so far.
-/

set_option autoImplicit false

namespace QueryTelemetry

inductive Callback where
  | query (node : NodeId) (kind : QueryKind) (text : String) (id startTime duration : Int)
    (success : Bool)
  | queryReads (node : NodeId) (kind : QueryKind) (queryNode : NodeId) (id logical physical : Int)
  | queryRows (node : NodeId) (kind : QueryKind) (queryNode : NodeId) (id : Int) (action : String)
    (rows : Int)
  | queryProperty (node : NodeId) (kind : QueryKind) (queryNode : NodeId) (id : Int)
    (name value : String)
  deriving DecidableEq

def Record.callback : Record → Callback
  | .completion c => .query c.node c.kind c.text c.id c.startTime c.duration c.success
  | .reads r => .queryReads r.reporter r.kind r.origin r.id r.logical r.physical
  | .rows r => .queryRows r.reporter r.kind r.origin r.id r.action r.rows
  | .property r => .queryProperty r.reporter r.kind r.origin r.id r.name r.value

namespace NodeId

def json : NodeId → Json
  | .named s => .text s
  | .numbered n => .int n
  | .other _ text => (text.map Json.text).getD .null

end NodeId

namespace Callback

def json : Callback → Json
  | .query node kind text id startTime duration success => .arr [.text "query", node.json,
      .text kind.name, .text text, .int id, .int startTime, .int duration, .bool success]
  | .queryReads node kind queryNode id logical physical => .arr [.text "reads", node.json,
      .text kind.name, queryNode.json, .int id, .int logical, .int physical]
  | .queryRows node kind queryNode id action rows => .arr [.text "rows", node.json,
      .text kind.name, queryNode.json, .int id, .text action, .int rows]
  | .queryProperty node kind queryNode id name value => .arr [.text "property", node.json,
      .text kind.name, queryNode.json, .int id, .text name, .text value]

def record : Callback → Record
  | .query node kind text id startTime duration success =>
    .completion { kind, text, node, id, startTime, duration, success }
  | .queryReads reporter kind origin id logical physical =>
    .reads { reporter, kind, origin, id, logical, physical }
  | .queryRows reporter kind origin id action rows =>
    .rows { reporter, kind, origin, id, action, rows }
  | .queryProperty reporter kind origin id name value =>
    .property { reporter, kind, origin, id, name, value }

end Callback

structure Custom where
  /-- How a call fails, if it does, after the calls before it. -/
  fault? : List Callback → Callback → Option Failure
  sections : List Callback → Except Failure Report

/-- A handler that keeps a state of some type. A call that fails may have changed it. -/
def Custom.ofState {σ : Type} (start : σ) (fault? : σ → Callback → Option Failure)
    (call : σ → Callback → σ) (sections : σ → Except Failure Report) : Custom where
  fault? calls := fault? (calls.foldl call start)
  sections calls := sections (calls.foldl call start)

inductive Handler where
  | aggregator (a : Aggregator)
  | custom (c : Custom) (calls : List Callback)
  | guarded (inner : Handler)

namespace Handler

def fixed (sections : Report) : Handler := .custom ⟨fun _ _ => none, fun _ => .ok sections⟩ []

def silent : Handler := .fixed []

def recorder (calls : List Callback) : Handler :=
  .custom ⟨fun _ _ => none, fun calls => .ok [("calls", .arr (calls.map Callback.json))]⟩ calls

def fault? : Handler → Callback → Option Failure
  | .aggregator _, _ => none
  | .custom c calls, call => c.fault? calls call
  | .guarded h, call => h.fault? call

/-- What a handler is after a call, whether the call has failed or not. -/
def call : Handler → Callback → Handler
  | .aggregator a, call => .aggregator (a.step call.record)
  | .custom c calls, call => .custom c (calls ++ [call])
  | .guarded h, call => .guarded (h.call call)

def step (h : Handler) (r : Record) : Handler := h.call r.callback

def run (h : Handler) (rs : List Record) : Handler := rs.foldl step h

def buildMessage (texts : Nat) (duration : Binary64) : String :=
  "Built query report for " ++ toString texts ++ " distinct queries in " ++ duration.fixed 3 ++ "s"

def results : Handler → Work Report
  | .aggregator a =>
    Work.timed (fun d => Work.logLine .info "handlers.query" (buildMessage a.table.length d))
      (Work.ofOption .unwritable a.report?)
  | .custom c calls => Work.ofExcept (c.sections calls)
  | .guarded h => h.results

theorem run_append (h : Handler) (rs ss : List Record) :
    h.run (rs ++ ss) = (h.run rs).run ss :=
  List.foldl_append

theorem run_guarded (h : Handler) (rs : List Record) :
    (Handler.guarded h).run rs = .guarded (h.run rs) := by
  induction rs generalizing h with
  | nil => rfl
  | cons r rs ih => exact ih (h.step r)

end Handler

end QueryTelemetry
