import QueryTelemetry.Assoc
import QueryTelemetry.Kind

/-!
# Correlating partial reports

Reads, rows and properties arrive apart from the completion they belong to, before it or after
it, and are summed under the identity of the execution until someone looks them up. Reads are
kept per kind. Rows and properties are kept per identity alone, unless the correlator tells
their kinds apart as well. A nested correlator finds a fact by its scope, then by the node, then
by the id; a correlator that keeps one key for all three finds the same.
-/

set_option autoImplicit false

namespace QueryTelemetry

structure Reads where
  logical : Int
  physical : Int
  deriving DecidableEq

def Reads.add (a b : Reads) : Reads := ⟨a.logical + b.logical, a.physical + b.physical⟩

abbrev RowCounts := Assoc String Int

abbrev PropertyCounts := Assoc (String × String) Int

def RowCounts.add (m : RowCounts) (action : String) (n : Int) : RowCounts :=
  m.update action fun old => old.getD 0 + n

def PropertyCounts.add (m : PropertyCounts) (pair : String × String) (n : Int) : PropertyCounts :=
  m.update pair fun
    | some old => old + n
    | none => n

abbrev Scope := Option QueryKind

structure Correlator (κ : Type) where
  byKind : Bool
  reads : Assoc (Scope × κ) Reads
  rows : Assoc (Scope × κ) RowCounts
  properties : Assoc (Scope × κ) PropertyCounts

namespace Correlator
variable {κ : Type} [DecidableEq κ]

def empty (byKind : Bool) : Correlator κ := ⟨byKind, [], [], []⟩

def key (c : Correlator κ) (kind : Scope) (id : κ) : Scope × κ :=
  (if c.byKind then kind else none, id)

def recordReads (c : Correlator κ) (kind : Scope) (id : κ) (r : Reads) : Correlator κ :=
  { c with reads := c.reads.update (kind, id) fun
      | some old => old.add r
      | none => r }

def recordRows (c : Correlator κ) (kind : Scope) (id : κ) (action : String) (n : Int) :
    Correlator κ :=
  { c with rows := c.rows.update (c.key kind id) fun old => (old.getD []).add action n }

def recordProperty (c : Correlator κ) (kind : Scope) (id : κ) (name value : String) :
    Correlator κ :=
  { c with properties := c.properties.update (c.key kind id) fun old =>
      (old.getD []).add (name, value) 1 }

def reads? (c : Correlator κ) (kind : Scope) (id : κ) : Option Reads := c.reads.get? (kind, id)

def rows? (c : Correlator κ) (kind : Scope) (id : κ) : Option RowCounts :=
  c.rows.get? (c.key kind id)

def properties? (c : Correlator κ) (kind : Scope) (id : κ) : Option PropertyCounts :=
  c.properties.get? (c.key kind id)

theorem reads_record_reads (c : Correlator κ) (k j : Scope) (a b : κ) (r : Reads) :
    (c.recordReads k a r).reads? j b =
      if (j, b) = (k, a) then some (((c.reads? k a).map (·.add r)).getD r) else c.reads? j b := by
  unfold reads? recordReads
  rw [Assoc.get_update]
  split
  · cases Assoc.get? c.reads (k, a) <;> rfl
  · rfl

theorem rows_record_rows (c : Correlator κ) (k j : Scope) (a b : κ) (action : String) (n : Int) :
    (c.recordRows k a action n).rows? j b =
      if c.key j b = c.key k a then some (((c.rows? k a).getD []).add action n)
      else c.rows? j b :=
  Assoc.get_update _ _ _ _

theorem properties_record_property (c : Correlator κ) (k j : Scope) (a b : κ)
    (name value : String) :
    (c.recordProperty k a name value).properties? j b =
      if c.key j b = c.key k a then some (((c.properties? k a).getD []).add (name, value) 1)
      else c.properties? j b :=
  Assoc.get_update _ _ _ _

end Correlator

structure PropertyCount where
  name : String
  value : String
  count : Int
  deriving DecidableEq

def PropertyCount.seen (name value : String) : Option PropertyCount → PropertyCount
  | some p => { p with count := p.count + 1 }
  | none => ⟨name, value, 1⟩

abbrev PropertyCount.Map := Assoc (String × String) PropertyCount

abbrev NestedTable (ν ι α : Type) := Assoc Scope (Assoc ν (Assoc ι α))

namespace NestedTable
variable {ν ι α : Type} [DecidableEq ν] [DecidableEq ι]

def fact? (t : NestedTable ν ι α) (scope : Scope) (node : ν) (id : ι) : Option α :=
  Assoc.get? ((Assoc.get? ((Assoc.get? t scope).getD []) node).getD []) id

def record (t : NestedTable ν ι α) (scope : Scope) (node : ν) (id : ι) (f : Option α → α) :
    NestedTable ν ι α :=
  Assoc.update t scope fun nodes =>
    Assoc.update (nodes.getD []) node fun ids => Assoc.update (ids.getD []) id f

theorem fact_record (t : NestedTable ν ι α) (s r : Scope) (n m : ν) (i j : ι)
    (f : Option α → α) :
    (t.record s n i f).fact? r m j =
      if (r, m, j) = (s, n, i) then some (f (t.fact? s n i)) else t.fact? r m j := by
  unfold fact? record
  rw [Assoc.get_update]
  by_cases hs : r = s
  · subst hs
    rw [if_pos rfl, Option.getD_some, Assoc.get_update]
    by_cases hn : m = n
    · subst hn
      rw [if_pos rfl, Option.getD_some, Assoc.get_update]
      simp
    · simp [hn]
  · simp [hs]

end NestedTable

structure NestedCorrelator (ν ι : Type) where
  byKind : Bool
  reads : NestedTable ν ι Reads
  rows : NestedTable ν ι RowCounts
  properties : NestedTable ν ι PropertyCount.Map

namespace NestedCorrelator
variable {ν ι : Type} [DecidableEq ν] [DecidableEq ι]

def empty (byKind : Bool) : NestedCorrelator ν ι := ⟨byKind, [], [], []⟩

def scope (c : NestedCorrelator ν ι) (kind : Scope) : Scope := if c.byKind then kind else none

def recordReads (c : NestedCorrelator ν ι) (kind : Scope) (node : ν) (id : ι) (r : Reads) :
    NestedCorrelator ν ι :=
  { c with reads := c.reads.record kind node id fun
      | some old => old.add r
      | none => r }

def recordRows (c : NestedCorrelator ν ι) (kind : Scope) (node : ν) (id : ι) (action : String)
    (n : Int) : NestedCorrelator ν ι :=
  { c with rows := c.rows.record (c.scope kind) node id fun old =>
      (old.getD []).add action n }

def recordProperty (c : NestedCorrelator ν ι) (kind : Scope) (node : ν) (id : ι)
    (name value : String) : NestedCorrelator ν ι :=
  { c with properties := c.properties.record (c.scope kind) node id fun old =>
      (old.getD []).update (name, value) (.seen name value) }

def reads? (c : NestedCorrelator ν ι) (kind : Scope) (node : ν) (id : ι) : Option Reads :=
  c.reads.fact? kind node id

def rows? (c : NestedCorrelator ν ι) (kind : Scope) (node : ν) (id : ι) : Option RowCounts :=
  c.rows.fact? (c.scope kind) node id

def properties? (c : NestedCorrelator ν ι) (kind : Scope) (node : ν) (id : ι) :
    Option PropertyCount.Map :=
  c.properties.fact? (c.scope kind) node id

end NestedCorrelator

end QueryTelemetry
