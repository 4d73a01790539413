import Mathlib.Algebra.BigOperators.Group.List.Basic
import Mathlib.Algebra.Ring.Int.Defs
import QueryTelemetry.Proofs.Sorting
import QueryTelemetry.Report.Basic

/-!
# Histories

What a report should say can be read off the records themselves, without a table: by selecting
records and adding them up. This module says how, for the rollups and for the blocks of rows and
properties. A session of calls has the history of the records it delivered, whatever reports were
asked for in between.
-/

set_option autoImplicit false

namespace QueryTelemetry

abbrev History := List Record

namespace Record

def completion? : Record → Option Completion
  | .completion c => some c
  | _ => none

def reads? : Record → Option ReadsReport
  | .reads r => some r
  | _ => none

def rows? : Record → Option RowsReport
  | .rows r => some r
  | _ => none

def property? : Record → Option PropertyReport
  | .property r => some r
  | _ => none

end Record

namespace History

def completions (h : History) : List Completion := h.filterMap Record.completion?
def reads (h : History) : List ReadsReport := h.filterMap Record.reads?
def rows (h : History) : List RowsReport := h.filterMap Record.rows?
def properties (h : History) : List PropertyReport := h.filterMap Record.property?

def completed (h : History) (kind : QueryKind) : List Completion :=
  h.completions.filter (·.kind = kind)

def texts (h : History) (kind : QueryKind) : List String :=
  ((h.completed kind).map (·.text)).eraseDups

def executions (h : History) (kind : QueryKind) (text : String) : List Completion :=
  (h.completed kind).filter (·.text = text)

/-- The executions of a text as a set: only membership counts. -/
def identities (h : History) (kind : QueryKind) (text : String) : List Identity :=
  (h.executions kind text).map (·.identity)

def readsOf (h : History) (kind : QueryKind) (ids : List Identity) : List ReadsReport :=
  h.reads.filter fun r => r.kind = kind ∧ r.identity ∈ ids

def rowsOf (h : History) (byKind : Bool) (kind : QueryKind) (ids : List Identity) :
    List RowsReport :=
  h.rows.filter fun r => (byKind = true → r.kind = kind) ∧ r.identity ∈ ids

def propertiesOf (h : History) (byKind : Bool) (kind : QueryKind) (ids : List Identity) :
    List PropertyReport :=
  h.properties.filter fun r => (byKind = true → r.kind = kind) ∧ r.identity ∈ ids

end History

def rowsBlock (rs : List RowsReport) : Option RowCounts :=
  if rs = [] then none
  else some ((ascending (rs.map (·.action))).map fun a =>
    (a, ((rs.filter (·.action = a)).map (·.rows)).sum))

def propertyBlock (rs : List PropertyReport) : Option PropertyBlock :=
  if rs = [] then none
  else some ((ascending (rs.map (·.name))).map fun n =>
    let least := (((rs.filter (·.name = n)).map (·.value)).min?).getD ""
    (n, least, ((rs.filter fun r => r.name = n ∧ r.value = least).length : Int)))

/-- The entry of a text in the rollup of a kind. Reads count for an identity wherever they stand,
and once. -/
def History.rollupEntry (h : History) (byKind : Bool) (kind : QueryKind) (text : String) :
    RollupEntry :=
  let done := h.executions kind text
  let ids := h.identities kind text
  { count := done.length
    duration := (done.map (·.duration)).sum / 1000000
    logicalReads := ((h.readsOf kind ids).map (·.logical)).sum
    physicalReads := ((h.readsOf kind ids).map (·.physical)).sum
    failures := done.countP (!·.success)
    properties :=
      if kind = .sqlFields then propertyBlock (h.propertiesOf byKind kind ids) else none
    rows := if kind = .sqlFields then rowsBlock (h.rowsOf byKind kind ids) else none }

def History.offers (h : History) (kind : QueryKind) : List (Scored Completion) :=
  (h.completed kind).map fun c => ⟨c.duration, c⟩

def History.slowEntry (h : History) (byKind : Bool) (kind : QueryKind) (c : Completion) :
    SlowEntry :=
  let read := h.readsOf kind [c.identity]
  { text := c.text
    startTime := c.startTime
    duration := c.duration / 1000000
    node := c.node
    success := c.success
    logicalReads := (read.map (·.logical)).sum
    physicalReads := (read.map (·.physical)).sum
    properties :=
      if kind = .sqlFields then propertyBlock (h.propertiesOf byKind kind [c.identity]) else none
    rows := if kind = .sqlFields then rowsBlock (h.rowsOf byKind kind [c.identity]) else none }

inductive Call where
  | deliver (r : Record)
  | results
  deriving DecidableEq

def Call.record? : Call → Option Record
  | .deliver r => some r
  | .results => none

def history (calls : List Call) : History := calls.filterMap Call.record?

theorem history_deliver (h : History) : history (h.map .deliver) = h := by
  rw [history, List.filterMap_map]
  exact List.filterMap_some

structure Session where
  aggregator : Aggregator
  reports : List (Option Report)

namespace Session

def start (s : Settings) : Session := ⟨.start s, []⟩

def step (n : Session) : Call → Session
  | .deliver r => { n with aggregator := n.aggregator.step r }
  | .results => { n with reports := n.reports ++ [n.aggregator.report?] }

def run (n : Session) (calls : List Call) : Session := calls.foldl step n

/-- Asking for reports leaves no trace in the aggregator. -/
theorem run_aggregator (n : Session) (calls : List Call) :
    (n.run calls).aggregator = n.aggregator.run (history calls) := by
  induction calls generalizing n with
  | nil => rfl
  | cons c calls ih =>
    have hr : n.run (c :: calls) = (n.step c).run calls := rfl
    rw [hr, ih]
    cases c <;> rfl

theorem run_deliver (s : Settings) (h : History) :
    ((start s).run (h.map .deliver)).aggregator = (Aggregator.start s).run h := by
  rw [Session.run_aggregator, history_deliver]
  rfl

end Session

end QueryTelemetry
