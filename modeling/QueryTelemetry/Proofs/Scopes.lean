import Mathlib.Data.List.ReduceOption
import QueryTelemetry.Proofs.Arrival
import QueryTelemetry.Proofs.Relevance

/-!
# Kinds apart and together

Rows and properties are kept per identity alone or per kind and identity. The first keeping is the
second one added up over the kinds: it finds something where one of the kinds does, and then the
sum. All else in an aggregator is the same, so the two report alike as long as the facts of SQL
field queries carry their kind.
-/

set_option autoImplicit false

namespace QueryTelemetry

section Totalled
variable {κ : Type} [DecidableEq κ]

def found (xs : List (κ × Int)) (k : κ) : Option Int :=
  if k ∈ xs.map Prod.fst then some (amount xs k) else none

def totalled (vs : List (Option Int)) : Option Int :=
  if vs.reduceOption = [] then none else some vs.reduceOption.sum

theorem found_perm {xs ys : List (κ × Int)} (h : xs.Perm ys) (k : κ) : found xs k = found ys k := by
  simp only [found, (h.map _).mem_iff, amount_perm h]

theorem found_append (xs ys : List (κ × Int)) (k : κ) :
    found (xs ++ ys) k = totalled [found xs k, found ys k] := by
  simp only [found, List.map_append, List.mem_append, amount_append]
  by_cases hx : k ∈ xs.map Prod.fst <;> by_cases hy : k ∈ ys.map Prod.fst <;>
    simp [hx, hy, amount_unseen, totalled, List.reduceOption]

theorem totalled_cons (v : Option Int) (vs : List (Option Int)) :
    totalled (v :: vs) = totalled [v, totalled vs] := by
  unfold totalled
  cases v with
  | none =>
    by_cases hn : vs.reduceOption = []
    · rw [List.reduceOption_cons_of_none, if_pos hn]
      rfl
    · rw [List.reduceOption_cons_of_none, if_neg hn]
      simp [List.reduceOption]
  | some n =>
    rw [List.reduceOption_cons_of_some]
    by_cases hn : vs.reduceOption = []
    · rw [if_pos hn, hn]
      rfl
    · rw [if_neg hn]
      simp [List.reduceOption]

theorem found_flat_map {α : Type} (f : α → List (κ × Int)) (js : List α) (k : κ) :
    found (js.flatMap f) k = totalled (js.map fun j => found (f j) k) := by
  induction js with
  | nil => rfl
  | cons j js ih => rw [List.flatMap_cons, found_append, ih, List.map_cons, ← totalled_cons]

theorem Tallies.get_found {m : Assoc κ Int} {xs : List (κ × Int)} (h : Tallies m xs) (k : κ) :
    m.get? k = found xs k := by
  have hs := h.sum k
  rw [found]
  cases hg : m.get? k with
  | none => rw [if_neg fun hk => (Assoc.get_none_iff m k).mp hg ((h.mem k).mpr hk)]
  | some v =>
    have hk : k ∈ m.keys := by
      rw [← Assoc.has_iff, Assoc.has, hg]
      rfl
    rw [hg] at hs
    rw [if_pos ((h.mem k).mp hk), ← hs]
    rfl

theorem Tallies.lookup_found {ρ : Type} {rs : List ρ} {f : ρ → κ × Int} {m : Assoc κ Int}
    (h : Tallies m (rs.map f)) (k : κ) :
    (if rs = [] then none else some m).bind (·.get? k) = found (rs.map f) k := by
  by_cases hr : rs = []
  · rw [if_pos hr, hr]
    rfl
  · rw [if_neg hr]
    exact h.get_found k

theorem empty_over_kinds {ρ : Type} {rs : List ρ} {rsOf : QueryKind → List ρ}
    (h : (QueryKind.all.flatMap rsOf).Perm rs) : rs = [] ↔ ∀ k, rsOf k = [] := by
  rw [← empty_perm h, List.flatMap_eq_nil_iff]
  exact ⟨fun hn k => hn k (QueryKind.mem_all k), fun hn k _ => hn k⟩

theorem found_over_kinds {ρ : Type} {rs : List ρ} {rsOf : QueryKind → List ρ}
    (h : (QueryKind.all.flatMap rsOf).Perm rs) (f : ρ → κ × Int) (k : κ) :
    found (rs.map f) k = totalled (QueryKind.all.map fun j => found ((rsOf j).map f) k) := by
  rw [← found_flat_map, ← found_perm (h.map f), List.map_flatMap]

end Totalled

namespace History
variable (h : History) (kind : QueryKind) (ids : List Identity)

theorem rows_over_kinds :
    (QueryKind.all.flatMap fun j => h.rowsOf true j ids).Perm (h.rowsOf false kind ids) := by
  have hkinds : QueryKind.all.Nodup := by decide
  have hp := filter_regroup (fun r : RowsReport => r.identity ∈ ids) RowsReport.kind h.rows hkinds
  simpa [rowsOf, QueryKind.mem_all, and_comm] using hp

theorem properties_over_kinds :
    (QueryKind.all.flatMap fun j => h.propertiesOf true j ids).Perm
      (h.propertiesOf false kind ids) := by
  have hkinds : QueryKind.all.Nodup := by decide
  have hp := filter_regroup (fun r : PropertyReport => r.identity ∈ ids) PropertyReport.kind
    h.properties hkinds
  simpa [propertiesOf, QueryKind.mem_all, and_comm] using hp

/-- The facts of executions that completed under a kind carry that kind. -/
structure Faithful (kind : QueryKind) : Prop where
  rows : ∀ r ∈ h.rows, r.identity ∈ h.known kind → r.kind = kind
  properties : ∀ r ∈ h.properties, r.identity ∈ h.known kind → r.kind = kind

variable {h kind ids}

theorem Faithful.rows_alike (hf : h.Faithful kind) (hi : ∀ i ∈ ids, i ∈ h.known kind) :
    h.rowsOf false kind ids = h.rowsOf true kind ids := by
  apply List.filter_congr
  intro r hr
  have hk (hm : r.identity ∈ ids) : r.kind = kind := hf.rows r hr (hi _ hm)
  by_cases hm : r.identity ∈ ids
  · simp [hm, hk hm]
  · simp [hm]

theorem Faithful.properties_alike (hf : h.Faithful kind) (hi : ∀ i ∈ ids, i ∈ h.known kind) :
    h.propertiesOf false kind ids = h.propertiesOf true kind ids := by
  apply List.filter_congr
  intro r hr
  have hk (hm : r.identity ∈ ids) : r.kind = kind := hf.properties r hr (hi _ hm)
  by_cases hm : r.identity ∈ ids
  · simp [hm, hk hm]
  · simp [hm]

theorem Faithful.rollup_alike (hf : h.Faithful .sqlFields) (kind : QueryKind) (text : String) :
    h.rollupEntry false kind text = h.rollupEntry true kind text := by
  by_cases hk : kind = .sqlFields
  · subst hk
    have hids := h.identities_known .sqlFields text
    simp only [rollupEntry, hf.rows_alike hids, hf.properties_alike hids]
  · simp only [rollupEntry, hk, if_false]

theorem Faithful.slow_alike (hf : h.Faithful .sqlFields) {c : Completion}
    (hc : c ∈ h.completed kind) : h.slowEntry false kind c = h.slowEntry true kind c := by
  by_cases hk : kind = .sqlFields
  · subst hk
    have hids : ∀ i ∈ [c.identity], i ∈ h.known .sqlFields := by
      intro i hi
      rw [List.mem_singleton.mp hi]
      exact List.mem_map_of_mem hc
    simp only [slowEntry, hf.rows_alike hids, hf.properties_alike hids]
  · simp only [slowEntry, hk, if_false]

end History

namespace Correlator
variable (c : Correlator Identity) (hc : c.byKind = false) (j k : Scope) (i : Identity)
include hc

/-- With the kinds together the kind that is asked for makes no difference. -/
theorem rows_any_scope : c.rows? j i = c.rows? k i := by
  simp [rows?, key, hc]

theorem properties_any_scope : c.properties? j i = c.properties? k i := by
  simp [properties?, key, hc]

end Correlator

def Settings.apart (s : Settings) (byKind : Bool) : Settings := { s with rowsByKind := byKind }

section TwoRuns
variable (s : Settings) (h : History)

theorem tables_alike (a b : Bool) :
    ((Aggregator.start (s.apart a)).run h).table = ((Aggregator.start (s.apart b)).run h).table ∧
    ((Aggregator.start (s.apart a)).run h).slowest =
      ((Aggregator.start (s.apart b)).run h).slowest ∧
    ((Aggregator.start (s.apart a)).run h).correlator.reads =
      ((Aggregator.start (s.apart b)).run h).correlator.reads := by
  refine ⟨?_, ?_, ?_⟩
  · rw [Aggregator.run_table, Aggregator.run_table]
    rfl
  · rw [Aggregator.run_slowest, Aggregator.run_slowest]
    rfl
  · rw [Aggregator.run_reads, Aggregator.run_reads]
    rfl

theorem rows_together (scope : Scope) (i : Identity) :
    ((Aggregator.start (s.apart false)).run h).correlator.rows? scope i =
      if h.rowsOf false .sql [i] = [] then none
      else some (tallyRows (h.rowsOf false .sql [i])) := by
  rw [Correlator.rows_any_scope _ (Aggregator.run_by_kind _ h) scope (some .sql), rows_after_run]
  rfl

theorem properties_together (scope : Scope) (i : Identity) :
    ((Aggregator.start (s.apart false)).run h).correlator.properties? scope i =
      if h.propertiesOf false .sql [i] = [] then none
      else some (tallyProperties (h.propertiesOf false .sql [i])) := by
  rw [Correlator.properties_any_scope _ (Aggregator.run_by_kind _ h) scope (some .sql),
    properties_after_run]
  rfl

theorem rows_absent (scope : Scope) (i : Identity) :
    ((Aggregator.start (s.apart false)).run h).correlator.rows? scope i = none ↔
      ∀ k : QueryKind, ((Aggregator.start (s.apart true)).run h).correlator.rows? k i = none := by
  simp only [rows_together, rows_after_run, ite_eq_left_iff, reduceCtorEq, imp_false, not_not]
  exact empty_over_kinds (h.rows_over_kinds .sql [i])

theorem properties_absent (scope : Scope) (i : Identity) :
    ((Aggregator.start (s.apart false)).run h).correlator.properties? scope i = none ↔
      ∀ k : QueryKind,
        ((Aggregator.start (s.apart true)).run h).correlator.properties? k i = none := by
  simp only [properties_together, properties_after_run, ite_eq_left_iff, reduceCtorEq, imp_false,
    not_not]
  exact empty_over_kinds (h.properties_over_kinds .sql [i])

theorem rows_totalled (scope : Scope) (i : Identity) (action : String) :
    (((Aggregator.start (s.apart false)).run h).correlator.rows? scope i).bind (·.get? action) =
      totalled (QueryKind.all.map fun k : QueryKind =>
        (((Aggregator.start (s.apart true)).run h).correlator.rows? k i).bind (·.get? action)) := by
  have hkind (k : QueryKind) :
      (((Aggregator.start (s.apart true)).run h).correlator.rows? k i).bind (·.get? action) =
        found (rowIncrements (h.rowsOf true k [i])) action := by
    rw [rows_after_run]
    exact (tally_rows _).lookup_found action
  rw [List.map_congr_left fun k _ => hkind k]
  rw [rows_together, (tally_rows _).lookup_found action]
  exact found_over_kinds (h.rows_over_kinds .sql [i]) (fun r => (r.action, r.rows)) action

theorem properties_totalled (scope : Scope) (i : Identity) (pair : String × String) :
    (((Aggregator.start (s.apart false)).run h).correlator.properties? scope i).bind (·.get? pair) =
      totalled (QueryKind.all.map fun k : QueryKind =>
        (((Aggregator.start (s.apart true)).run h).correlator.properties? k i).bind
          (·.get? pair)) := by
  have hkind (k : QueryKind) :
      (((Aggregator.start (s.apart true)).run h).correlator.properties? k i).bind (·.get? pair) =
        found (propertyIncrements (h.propertiesOf true k [i])) pair := by
    rw [properties_after_run]
    exact (tally_properties _).lookup_found pair
  rw [List.map_congr_left fun k _ => hkind k]
  rw [properties_together, (tally_properties _).lookup_found pair]
  exact found_over_kinds (h.properties_over_kinds .sql [i]) (fun r => ((r.name, r.value), 1)) pair

theorem rollup_alike (hf : h.Faithful .sqlFields) (kind : QueryKind) :
    ((Aggregator.start (s.apart false)).run h).rollup kind =
      ((Aggregator.start (s.apart true)).run h).rollup kind := by
  rw [rollup_after_run, rollup_after_run]
  apply List.map_congr_left
  intro t _
  exact congrArg (t, ·) (hf.rollup_alike kind t)

theorem top_slow_alike (hf : h.Faithful .sqlFields) (kind : QueryKind) :
    ((Aggregator.start (s.apart false)).run h).topSlow kind =
      ((Aggregator.start (s.apart true)).run h).topSlow kind := by
  rw [top_slow_after_run, top_slow_after_run]
  apply List.map_congr_left
  intro e he
  obtain ⟨c, hc, rfl⟩ := List.mem_map.mp (Leaderboard.mem_retained s.topSlowSize.2 he)
  exact hf.slow_alike hc

end TwoRuns

/-- Two sessions with the same calls, one that keeps the kinds together and one that keeps them
apart. A look-up of the first adds up what the seven look-ups of the second find, and finds nothing
only where none of them does. The reports agree if the facts of SQL field queries carry their
kind. -/
theorem together_totals_apart (s : Settings) (calls : List Call) :
    let h := history calls
    let joint := ((Session.start (s.apart false)).run calls).aggregator
    let apart := ((Session.start (s.apart true)).run calls).aggregator
    (joint.table = apart.table ∧ joint.slowest = apart.slowest ∧
      ∀ kind i, joint.correlator.reads? kind i = apart.correlator.reads? kind i) ∧
    (∀ scope i,
      (joint.correlator.rows? scope i = none ↔
        ∀ k : QueryKind, apart.correlator.rows? k i = none) ∧
      (joint.correlator.properties? scope i = none ↔
        ∀ k : QueryKind, apart.correlator.properties? k i = none) ∧
      (∀ action, (joint.correlator.rows? scope i).bind (·.get? action) =
        totalled (QueryKind.all.map fun k : QueryKind =>
          (apart.correlator.rows? k i).bind (·.get? action))) ∧
      (∀ pair, (joint.correlator.properties? scope i).bind (·.get? pair) =
        totalled (QueryKind.all.map fun k : QueryKind =>
          (apart.correlator.properties? k i).bind (·.get? pair)))) ∧
    ((∀ r ∈ h.rows, r.identity ∈ h.known .sqlFields → r.kind = .sqlFields) →
      (∀ r ∈ h.properties, r.identity ∈ h.known .sqlFields → r.kind = .sqlFields) →
      joint.report? = apart.report? ∧
      ∀ kind, joint.rollup kind = apart.rollup kind ∧ joint.topSlow kind = apart.topSlow kind) := by
  intro h joint apart
  have hjoint : joint = (Aggregator.start (s.apart false)).run h := Session.run_aggregator _ calls
  have hapart : apart = (Aggregator.start (s.apart true)).run h := Session.run_aggregator _ calls
  rw [hjoint, hapart]
  obtain ⟨htable, hslowest, hreads⟩ := tables_alike s h false true
  refine ⟨⟨htable, hslowest, ?_⟩, ?_, ?_⟩
  · intro kind i
    rw [Correlator.reads?, hreads, Correlator.reads?]
  · intro scope i
    exact ⟨rows_absent s h scope i, properties_absent s h scope i, rows_totalled s h scope i,
      properties_totalled s h scope i⟩
  · intro hrows hproperties
    have hf : h.Faithful .sqlFields := ⟨hrows, hproperties⟩
    constructor
    · exact report_congr (rollup_alike s h hf) (top_slow_alike s h hf)
    · exact fun kind => ⟨rollup_alike s h hf kind, top_slow_alike s h hf kind⟩

/-- Rows of another kind may be there, as long as they belong to no SQL field query. -/
theorem together_apart_of_faithful_rows :
    let done : Completion := ⟨.sqlFields, "q", .named "n", 1, 0, 5, true⟩
    let fetched : RowsReport := ⟨.named "m", .sqlFields, .named "n", 1, "fetched", 3⟩
    let scanned : RowsReport := ⟨.named "m", .scan, .named "n", 2, "scanned", 4⟩
    let seen : PropertyReport := ⟨.named "m", .sqlFields, .named "n", 1, "plan", "p"⟩
    let calls : List Call := [.deliver (.rows scanned), .deliver (.completion done), .results,
      .deliver (.rows fetched), .deliver (.property seen)]
    let h := history calls
    (∀ r ∈ h.rows, r.identity ∈ h.known .sqlFields → r.kind = .sqlFields) ∧
    (∀ r ∈ h.properties, r.identity ∈ h.known .sqlFields → r.kind = .sqlFields) ∧
    ((Session.start (Settings.default.apart false)).run calls).aggregator.report? =
      ((Session.start (Settings.default.apart true)).run calls).aggregator.report? := by
  intro done fetched scanned seen calls h
  have hrows : ∀ r ∈ h.rows, r.identity ∈ h.known .sqlFields → r.kind = .sqlFields := by decide
  have hproperties : ∀ r ∈ h.properties, r.identity ∈ h.known .sqlFields → r.kind = .sqlFields := by
    decide
  exact ⟨hrows, hproperties,
    ((together_totals_apart Settings.default calls).2.2 hrows hproperties).1⟩

end QueryTelemetry
