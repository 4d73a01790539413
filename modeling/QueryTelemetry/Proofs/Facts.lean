import QueryTelemetry.Proofs.History
import QueryTelemetry.Proofs.Tally

/-!
# What a run keeps

Each table of an aggregator is gathered from the records of its own sort and from no others. So
whatever is looked up after a run is a sum over the records of the history that have the right
kind and identity, wherever in the history they stood.
-/

set_option autoImplicit false

namespace QueryTelemetry

namespace Aggregator

theorem run_cons (a : Aggregator) (r : Record) (h : History) : a.run (r :: h) = (a.step r).run h :=
  rfl

theorem run_by_kind (a : Aggregator) (h : History) :
    (a.run h).correlator.byKind = a.correlator.byKind := by
  induction h generalizing a with
  | nil => rfl
  | cons r h ih => rw [run_cons, ih]; cases r <;> rfl

theorem run_reads (a : Aggregator) (h : History) :
    (a.run h).correlator.reads = Assoc.gather (fun r => (some r.kind, r.identity))
      (fun r old => (old.map (·.add ⟨r.logical, r.physical⟩)).getD ⟨r.logical, r.physical⟩)
      a.correlator.reads h.reads := by
  induction h generalizing a with
  | nil => rfl
  | cons r h ih =>
    rw [run_cons, ih]
    cases r with
    | reads r =>
      have hu : (a.step (.reads r)).correlator.reads = a.correlator.reads.update
          (some r.kind, r.identity)
          fun old => (old.map (·.add ⟨r.logical, r.physical⟩)).getD ⟨r.logical, r.physical⟩ := by
        simp only [step, correlate, Correlator.recordReads]
        congr 1
        funext old
        cases old <;> rfl
      rw [hu]
      rfl
    | completion c => rfl
    | rows r => rfl
    | property r => rfl

theorem run_rows (a : Aggregator) (h : History) :
    (a.run h).correlator.rows = Assoc.gather (fun r => a.correlator.key r.kind r.identity)
      (fun r old => RowCounts.add (old.getD []) r.action r.rows) a.correlator.rows h.rows := by
  induction h generalizing a with
  | nil => rfl
  | cons r h ih => rw [run_cons, ih]; cases r <;> rfl

theorem run_properties (a : Aggregator) (h : History) :
    (a.run h).correlator.properties = Assoc.gather (fun r => a.correlator.key r.kind r.identity)
      (fun r old => PropertyCounts.add (old.getD []) (r.name, r.value) 1) a.correlator.properties
      h.properties := by
  induction h generalizing a with
  | nil => rfl
  | cons r h ih => rw [run_cons, ih]; cases r <;> rfl

theorem run_table (a : Aggregator) (h : History) :
    (a.run h).table = Assoc.gather (fun c => (c.kind, c.text))
      (fun c old => (old.getD .empty).merge c.identity c.duration c.success) a.table
      h.completions := by
  induction h generalizing a with
  | nil => rfl
  | cons r h ih => rw [run_cons, ih]; cases r <;> rfl

theorem run_slowest (a : Aggregator) (h : History) :
    (a.run h).slowest = Assoc.gather (·.kind)
      (fun c old => (old.getD (.empty a.capacity)).put c.duration c) a.slowest h.completions := by
  induction h generalizing a with
  | nil => rfl
  | cons r h ih => rw [run_cons, ih]; cases r <;> rfl

end Aggregator

theorem fold_default {α β : Type} (g : β → α → β) (d : β) (xs : List α) (o : Option β) :
    xs.foldl (fun o x => some (g (o.getD d) x)) o =
      if xs = [] then o else some (xs.foldl g (o.getD d)) := by
  induction xs generalizing o with
  | nil => rfl
  | cons x xs ih => rw [List.foldl_cons, ih]; by_cases hx : xs = [] <;> simp [hx]

def totalReads (rs : List ReadsReport) : Reads :=
  ⟨(rs.map (·.logical)).sum, (rs.map (·.physical)).sum⟩

theorem fold_reads (rs : List ReadsReport) (o : Option Reads) :
    rs.foldl (fun o r =>
        some ((o.map (·.add ⟨r.logical, r.physical⟩)).getD ⟨r.logical, r.physical⟩)) o =
      if rs = [] then o else some ((o.getD ⟨0, 0⟩).add (totalReads rs)) := by
  induction rs generalizing o with
  | nil => rfl
  | cons r rs ih =>
    rw [List.foldl_cons, ih]
    cases o <;> by_cases hr : rs = [] <;> simp [hr, Reads.add, totalReads, add_assoc]

def rowIncrements (rs : List RowsReport) : List (String × Int) :=
  rs.map fun r => (r.action, r.rows)

def propertyIncrements (rs : List PropertyReport) : List ((String × String) × Int) :=
  rs.map fun r => ((r.name, r.value), 1)

def tallyRows (rs : List RowsReport) : RowCounts :=
  rs.foldl (fun m r => RowCounts.add m r.action r.rows) []

def tallyProperties (rs : List PropertyReport) : PropertyCounts :=
  rs.foldl (fun m r => PropertyCounts.add m (r.name, r.value) 1) []

theorem tally_rows (rs : List RowsReport) : Tallies (tallyRows rs) (rowIncrements rs) := by
  have h := Tallies.nil.writes (rowIncrements rs)
  rw [rowIncrements, List.foldl_map] at h
  exact h

theorem tally_properties (rs : List PropertyReport) :
    Tallies (tallyProperties rs) (propertyIncrements rs) := by
  have h := Tallies.nil.writes (propertyIncrements rs)
  rw [propertyIncrements, List.foldl_map] at h
  simp only [tallyProperties, PropertyCounts.add_eq_bump]
  exact h

/-- Two records share a key exactly if one is in the scope of the other. -/
theorem key_eq_iff (c : Correlator Identity) (j k : QueryKind) (a b : Identity) :
    c.key j a = c.key k b ↔ (c.byKind = true → j = k) ∧ a ∈ [b] := by
  cases hc : c.byKind <;> simp [Correlator.key, hc]

section Lookups
variable (s : Settings) (h : History) (kind : QueryKind) (i : Identity)

theorem reads_after_run : ((Aggregator.start s).run h).correlator.reads? kind i =
    if h.readsOf kind [i] = [] then none else some (totalReads (h.readsOf kind [i])) := by
  have hf : h.reads.filter (fun r => (some r.kind, r.identity) = (some kind, i)) =
      h.readsOf kind [i] := by
    simp [History.readsOf, Prod.mk.injEq]
  rw [Correlator.reads?, Aggregator.run_reads, Assoc.get_gather, hf, fold_reads]
  simp [Aggregator.start, Correlator.empty, Assoc.get?, Reads.add]

theorem total_reads_after_run :
    (((Aggregator.start s).run h).correlator.reads? kind i).getD ⟨0, 0⟩ =
      totalReads (h.readsOf kind [i]) := by
  rw [reads_after_run]
  split
  · rename_i hn
    rw [hn]
    rfl
  · rfl

theorem key_after_run : ((Aggregator.start s).run h).correlator.key kind i =
    (Aggregator.start s).correlator.key kind i := by
  rw [Correlator.key, Aggregator.run_by_kind]
  rfl

theorem rows_after_run : ((Aggregator.start s).run h).correlator.rows? kind i =
    if h.rowsOf s.rowsByKind kind [i] = [] then none
    else some (tallyRows (h.rowsOf s.rowsByKind kind [i])) := by
  rw [Correlator.rows?, key_after_run, Aggregator.run_rows, Assoc.get_gather,
    fold_default fun (m : RowCounts) (r : RowsReport) => m.add r.action r.rows]
  simp only [key_eq_iff]
  rfl

theorem properties_after_run : ((Aggregator.start s).run h).correlator.properties? kind i =
    if h.propertiesOf s.rowsByKind kind [i] = [] then none
    else some (tallyProperties (h.propertiesOf s.rowsByKind kind [i])) := by
  rw [Correlator.properties?, key_after_run, Aggregator.run_properties, Assoc.get_gather,
    fold_default fun (m : PropertyCounts) (r : PropertyReport) => m.add (r.name, r.value) 1]
  simp only [key_eq_iff]
  rfl

end Lookups

end QueryTelemetry
