import QueryTelemetry.Correlator
import QueryTelemetry.Record
import QueryTelemetry.Settings

/-!
# Running totals and their aggregator

The totals of all executions that share a kind and a text, with the set of their identities.
Reads, rows and properties are unknown while completions are merged; they are pulled in later
through the identities. A completion merged twice counts twice. A detached copy has totals of its
own and shares the identities, so a family of copies is a list of totals beside one set.

One pass over the records of a run fills the table, the correlator and a leaderboard per kind
of the completions that took longest. Nothing tells a repeated completion from a new one.
-/

set_option autoImplicit false

namespace QueryTelemetry

structure Totals where
  count : Nat
  duration : Int
  logicalReads : Int
  physicalReads : Int
  failures : Nat
  properties : PropertyCounts
  rows : RowCounts

namespace Totals

def empty : Totals := ⟨0, 0, 0, 0, 0, [], []⟩

def merge (t : Totals) (duration : Int) (success : Bool) : Totals :=
  { t with
    count := t.count + 1
    duration := t.duration + duration
    failures := if success then t.failures else t.failures + 1 }

def addReads (t : Totals) (r : Reads) : Totals :=
  { t with
    logicalReads := t.logicalReads + r.logical
    physicalReads := t.physicalReads + r.physical }

def addRows (t : Totals) (rows : RowCounts) : Totals :=
  { t with rows := rows.foldl (fun m p => m.add p.1 p.2) t.rows }

def addProperties (t : Totals) (properties : PropertyCounts) : Totals :=
  { t with properties := properties.foldl (fun m p => m.add p.1 p.2) t.properties }

end Totals

/-- Nodes in the order in which they were first seen, each with its ids ascending. -/
abbrev IdentitySet := Assoc NodeId (List Int)

namespace IdentitySet

def insertId (n : Int) : List Int → List Int
  | [] => [n]
  | x :: r => if n < x then n :: x :: r else if n = x then x :: r else x :: insertId n r

def insert (s : IdentitySet) (i : Identity) : IdentitySet :=
  s.update i.node fun old => insertId i.id (old.getD [])

def toList (s : IdentitySet) : List Identity :=
  s.flatMap fun p => p.2.map fun n => ⟨p.1, n⟩

theorem mem_insert_id (n x : Int) (xs : List Int) : x ∈ insertId n xs ↔ x = n ∨ x ∈ xs := by
  induction xs with
  | nil => simp [insertId]
  | cons y r ih =>
    unfold insertId
    split
    · simp
    · split
      · rename_i h; subst h; simp
      · simp only [List.mem_cons, ih, or_left_comm]

end IdentitySet

structure Entry where
  totals : Totals
  identities : IdentitySet

namespace Entry

def empty : Entry := ⟨.empty, []⟩

def merge (e : Entry) (i : Identity) (duration : Int) (success : Bool) : Entry :=
  ⟨e.totals.merge duration success, e.identities.insert i⟩

end Entry

abbrev Table := Assoc (QueryKind × String) Entry

namespace Table

def merge (t : Table) (kind : QueryKind) (text : String) (i : Identity) (duration : Int)
    (success : Bool) : Table :=
  t.update (kind, text) fun old => (old.getD .empty).merge i duration success

def ofKind (t : Table) (kind : QueryKind) : List (String × Entry) :=
  t.filterMap fun p => if p.1.1 = kind then some (p.1.2, p.2) else none

end Table

structure Family where
  slots : List Totals
  identities : IdentitySet

namespace Family

def start : Family := ⟨[.empty], []⟩

inductive Op where
  | merge (slot : Nat) (i : Identity) (duration : Int) (success : Bool)
  | detach (slot : Nat)
  | rows (slot : Nat) (rows : RowCounts)
  | properties (slot : Nat) (properties : PropertyCounts)
  | absorb (slot other : Nat)

def slot (f : Family) (n : Nat) : Totals := f.slots.getD n .empty

def step (f : Family) : Op → Family
  | .merge n i duration success =>
    ⟨f.slots.modify n (·.merge duration success), f.identities.insert i⟩
  | .detach n => { f with slots := f.slots ++ [f.slot n] }
  | .rows n rows => { f with slots := f.slots.modify n (·.addRows rows) }
  | .properties n ps => { f with slots := f.slots.modify n (·.addProperties ps) }
  | .absorb n m =>
    let other := f.slot m
    { f with slots := f.slots.modify n fun t =>
        (t.addProperties other.properties).addRows other.rows }

def run (f : Family) (ops : List Op) : Family := ops.foldl step f

theorem run_append (f : Family) (as bs : List Op) :
    f.run (as ++ bs) = (f.run as).run bs :=
  List.foldl_append

end Family

structure Aggregator where
  capacity : Capacity
  table : Table
  correlator : Correlator Identity
  slowest : Assoc QueryKind (Leaderboard Completion)

namespace Aggregator

def start (s : Settings) : Aggregator := ⟨s.topSlowSize, [], .empty s.rowsByKind, []⟩

def complete (a : Aggregator) (c : Completion) : Aggregator :=
  { a with
    table := a.table.merge c.kind c.text c.identity c.duration c.success
    slowest := a.slowest.update c.kind fun old =>
      (old.getD (.empty a.capacity)).put c.duration c }

def correlate (a : Aggregator) (f : Correlator Identity → Correlator Identity) : Aggregator :=
  { a with correlator := f a.correlator }

def step (a : Aggregator) : Record → Aggregator
  | .completion c => a.complete c
  | .reads r => a.correlate (·.recordReads r.kind r.identity ⟨r.logical, r.physical⟩)
  | .rows r => a.correlate (·.recordRows r.kind r.identity r.action r.rows)
  | .property r => a.correlate (·.recordProperty r.kind r.identity r.name r.value)

def run (a : Aggregator) (rs : List Record) : Aggregator := rs.foldl step a

theorem step_capacity (a : Aggregator) (r : Record) : (a.step r).capacity = a.capacity := by
  cases r <;> rfl

theorem run_capacity (a : Aggregator) (rs : List Record) : (a.run rs).capacity = a.capacity := by
  induction rs generalizing a with
  | nil => rfl
  | cons r rs ih => exact (ih (a.step r)).trans (step_capacity a r)

end Aggregator

end QueryTelemetry
