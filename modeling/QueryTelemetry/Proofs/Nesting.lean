import QueryTelemetry.Proofs.Lookups

/-!
# Nested tables

A correlator may keep its facts in tables of tables, by scope, node and id, with the name and the
value of a pair beside its count. It finds the same facts as one that keeps them under a single
key: the nested tables show the flat ones, and no call changes that. So the pair that an entry
carries is its key, and a block may be read off either.
-/

set_option autoImplicit false

namespace QueryTelemetry

namespace PropertyCounts

def labelled (m : PropertyCounts) : PropertyCount.Map := m.map fun p => (p.1, ⟨p.1.1, p.1.2, p.2⟩)

theorem labelled_pair {m : PropertyCounts} {p : (String × String) × PropertyCount}
    (hp : p ∈ m.labelled) : (p.2.name, p.2.value) = p.1 := by
  obtain ⟨b, -, rfl⟩ := List.mem_map.mp hp
  rfl

theorem labelled_add (m : PropertyCounts) (name value : String) :
    m.labelled.update (name, value) (.seen name value) = (m.add (name, value) 1).labelled := by
  induction m with
  | nil => rfl
  | cons b m ih =>
    obtain ⟨pair, n⟩ := b
    unfold labelled add at ih ⊢
    by_cases hp : pair = (name, value)
    · simp [Assoc.update, PropertyCount.seen, hp]
    · simp only [List.map_cons, Assoc.update, hp, if_false, ih]

/-- A block read off the entries, with the names and values that they carry. -/
theorem labelled_block (m : PropertyCounts) :
    (m.labelled.mergeSort fun a b => pairLe a.1 b.1).foldl
      (fun (b : PropertyBlock) p =>
        if b.has p.2.name then b else b ++ [(p.2.name, p.2.value, p.2.count)]) [] = m.block := by
  have hsort : (m.labelled.mergeSort fun a b => pairLe a.1 b.1) =
      labelled (m.mergeSort fun a b => pairLe a.1 b.1) :=
    (List.map_mergeSort (f := fun p : (String × String) × Int =>
      (p.1, (⟨p.1.1, p.1.2, p.2⟩ : PropertyCount))) fun _ _ _ _ => rfl).symm
  rw [hsort, labelled, List.foldl_map]
  rfl

end PropertyCounts

def Record.call : Record → Option (Correlator.Call Identity)
  | .completion _ => none
  | .reads r => some (.recordReads r.kind r.identity ⟨r.logical, r.physical⟩)
  | .rows r => some (.recordRows r.kind r.identity r.action r.rows)
  | .property r => some (.recordProperty r.kind r.identity r.name r.value)

theorem Aggregator.run_calls (a : Aggregator) (h : List Record) :
    (a.run h).correlator = a.correlator.after (h.filterMap Record.call) := by
  induction h generalizing a with
  | nil => rfl
  | cons r h ih =>
    rw [Aggregator.run, List.foldl_cons, ← Aggregator.run, ih]
    cases r <;> rfl

namespace NestedCorrelator

def step (t : NestedCorrelator NodeId Int) : Correlator.Call Identity → NestedCorrelator NodeId Int
  | .recordReads kind i r => t.recordReads kind i.node i.id r
  | .recordRows kind i action n => t.recordRows kind i.node i.id action n
  | .recordProperty kind i name value => t.recordProperty kind i.node i.id name value
  | .reads _ _ | .rows _ _ | .properties _ _ => t

def after (t : NestedCorrelator NodeId Int) (calls : List (Correlator.Call Identity)) :
    NestedCorrelator NodeId Int :=
  calls.foldl step t

structure Shows (t : NestedCorrelator NodeId Int) (c : Correlator Identity) : Prop where
  byKind : t.byKind = c.byKind
  reads (scope : Scope) (i : Identity) : t.reads.fact? scope i.node i.id = c.reads.get? (scope, i)
  rows (scope : Scope) (i : Identity) : t.rows.fact? scope i.node i.id = c.rows.get? (scope, i)
  properties (scope : Scope) (i : Identity) : t.properties.fact? scope i.node i.id =
    (c.properties.get? (scope, i)).map PropertyCounts.labelled

theorem keys_iff (r s : Scope) (i j : Identity) :
    (r, j.node, j.id) = (s, i.node, i.id) ↔ (r, j) = (s, i) := by
  cases i
  cases j
  simp

namespace Shows
variable {t : NestedCorrelator NodeId Int} {c : Correlator Identity}

theorem scope (h : t.Shows c) (kind : Scope) (i : Identity) : c.key kind i = (t.scope kind, i) := by
  rw [Correlator.key, NestedCorrelator.scope, h.byKind]

theorem record_reads (h : t.Shows c) (kind : Scope) (i : Identity) (r : Reads) :
    (t.recordReads kind i.node i.id r).Shows (c.recordReads kind i r) where
  byKind := h.byKind
  rows := h.rows
  properties := h.properties
  reads s j := by
    unfold recordReads Correlator.recordReads
    simp only [NestedTable.fact_record, Assoc.get_update, keys_iff, h.reads]

theorem record_rows (h : t.Shows c) (kind : Scope) (i : Identity) (action : String) (n : Int) :
    (t.recordRows kind i.node i.id action n).Shows (c.recordRows kind i action n) where
  byKind := h.byKind
  reads := h.reads
  properties := h.properties
  rows s j := by
    unfold recordRows Correlator.recordRows
    simp only [NestedTable.fact_record, Assoc.get_update, keys_iff, h.scope, h.rows]

theorem record_property (h : t.Shows c) (kind : Scope) (i : Identity) (name value : String) :
    (t.recordProperty kind i.node i.id name value).Shows (c.recordProperty kind i name value) where
  byKind := h.byKind
  reads := h.reads
  rows := h.rows
  properties s j := by
    have hold (o : Option PropertyCounts) :
        (o.map PropertyCounts.labelled).getD [] = (o.getD []).labelled := by
      cases o <;> rfl
    unfold recordProperty Correlator.recordProperty
    simp only [NestedTable.fact_record, Assoc.get_update, keys_iff, h.scope, h.properties, hold,
      PropertyCounts.labelled_add]
    split <;> rfl

theorem step (h : t.Shows c) (call : Correlator.Call Identity) :
    (t.step call).Shows (c.step call) := by
  cases call with
  | recordReads kind i r => exact h.record_reads kind i r
  | recordRows kind i action n => exact h.record_rows kind i action n
  | recordProperty kind i name value => exact h.record_property kind i name value
  | reads _ _ | rows _ _ | properties _ _ => exact h

theorem after (h : t.Shows c) (calls : List (Correlator.Call Identity)) :
    (t.after calls).Shows (c.after calls) := by
  induction calls generalizing t c with
  | nil => exact h
  | cons call calls ih => exact ih (h.step call)

end Shows

theorem empty_shows (byKind : Bool) : (empty byKind).Shows (Correlator.empty byKind) :=
  ⟨rfl, fun _ _ => rfl, fun _ _ => rfl, fun _ _ => rfl⟩

/-- After any calls the nested tables find what the flat ones find. -/
theorem nested_lookups (byKind : Bool) (calls : List (Correlator.Call Identity)) (kind : Scope)
    (i : Identity) :
    let t := (empty byKind : NestedCorrelator NodeId Int).after calls
    let c := (Correlator.empty byKind : Correlator Identity).after calls
    t.reads? kind i.node i.id = c.reads? kind i ∧
      t.rows? kind i.node i.id = c.rows? kind i ∧
      t.properties? kind i.node i.id = (c.properties? kind i).map PropertyCounts.labelled := by
  intro t c
  have h : t.Shows c := (empty_shows byKind).after calls
  refine ⟨h.reads kind i, ?_, ?_⟩
  · rw [rows?, h.rows, Correlator.rows?, h.scope]
  · rw [properties?, h.properties, Correlator.properties?, h.scope]

theorem found_pairs (byKind : Bool) (calls : List (Correlator.Call Identity)) (kind : Scope)
    (i : Identity) {m : PropertyCount.Map}
    (hm : ((empty byKind).after calls).properties? kind i.node i.id = some m) :
    ∀ p ∈ m, (p.2.name, p.2.value) = p.1 := by
  rw [(nested_lookups byKind calls kind i).2.2] at hm
  obtain ⟨ps, -, rfl⟩ := Option.map_eq_some_iff.mp hm
  exact fun p hp => PropertyCounts.labelled_pair hp

/-- What an aggregator looks up after a run is what nested tables hold of the run. -/
theorem run_in_nested_tables (s : Settings) (h : List Record) (kind : QueryKind) (i : Identity) :
    let c := ((Aggregator.start s).run h).correlator
    let t := (empty s.rowsByKind).after (h.filterMap Record.call)
    c.reads? kind i = t.reads? kind i.node i.id ∧
      c.rows? kind i = t.rows? kind i.node i.id ∧
      (c.properties? kind i).map PropertyCounts.labelled = t.properties? kind i.node i.id := by
  intro c t
  obtain ⟨hreads, hrows, hproperties⟩ :=
    nested_lookups s.rowsByKind (h.filterMap Record.call) kind i
  have hc : c = (Correlator.empty s.rowsByKind).after (h.filterMap Record.call) :=
    Aggregator.run_calls _ h
  rw [hc]
  exact ⟨hreads.symm, hrows.symm, hproperties.symm⟩

end NestedCorrelator

end QueryTelemetry
