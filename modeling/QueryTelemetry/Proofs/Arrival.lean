import QueryTelemetry.Proofs.Rollup
import QueryTelemetry.Proofs.Slowest

/-!
# Order of arrival

Everything a report sums up is the same for any order of the records. What is left of the order
are the texts, which stand as they were first seen, and the choice among completions that took
equally long. Both only depend on the completions of one kind, so other records may be moved
anywhere.
-/

set_option autoImplicit false

namespace QueryTelemetry
open Leaderboard

theorem least_perm {xs ys : List String} (h : xs.Perm ys) : xs.min? = ys.min? := by
  ext a
  rw [List.min?_eq_some_iff, List.min?_eq_some_iff, h.mem_iff]
  simp only [h.mem_iff]

theorem empty_perm {α : Type} {xs ys : List α} (h : xs.Perm ys) : xs = [] ↔ ys = [] := by
  constructor
  · rintro rfl
    exact List.nil_perm.mp h
  · rintro rfl
    exact List.perm_nil.mp h

theorem rows_block_perm {rs ss : List RowsReport} (h : rs.Perm ss) :
    rowsBlock rs = rowsBlock ss := by
  by_cases hr : rs = []
  · rw [rowsBlock, rowsBlock, if_pos hr, if_pos ((empty_perm h).mp hr)]
  · have hs : ss ≠ [] := fun hs => hr ((empty_perm h).mpr hs)
    have hkeys : ascending (rs.map (·.action)) = ascending (ss.map (·.action)) :=
      ascending_congr fun a => (h.map _).mem_iff
    rw [rowsBlock, rowsBlock, if_neg hr, if_neg hs, hkeys]
    congr 2
    funext a
    rw [((h.filter _).map _).sum_eq]

theorem property_block_perm {rs ss : List PropertyReport} (h : rs.Perm ss) :
    propertyBlock rs = propertyBlock ss := by
  by_cases hr : rs = []
  · rw [propertyBlock, propertyBlock, if_pos hr, if_pos ((empty_perm h).mp hr)]
  · have hs : ss ≠ [] := fun hs => hr ((empty_perm h).mpr hs)
    have hkeys : ascending (rs.map (·.name)) = ascending (ss.map (·.name)) :=
      ascending_congr fun a => (h.map _).mem_iff
    rw [propertyBlock, propertyBlock, if_neg hr, if_neg hs, hkeys]
    congr 2
    funext n
    have hleast : ((rs.filter (·.name = n)).map (·.value)).min? =
        ((ss.filter (·.name = n)).map (·.value)).min? := least_perm ((h.filter _).map _)
    simp only [hleast, (h.filter _).length_eq]

namespace History
variable {h g : History} (hp : h.Perm g) (byKind : Bool) (kind : QueryKind)
include hp

theorem completed_perm : (h.completed kind).Perm (g.completed kind) := (hp.filterMap _).filter _

theorem texts_perm : (h.texts kind).Perm (g.texts kind) :=
  first_seen_perm ((completed_perm hp kind).map _)

theorem executions_perm (text : String) :
    (h.executions kind text).Perm (g.executions kind text) := (completed_perm hp kind).filter _

theorem mem_identities_perm (text : String) (i : Identity) :
    i ∈ h.identities kind text ↔ i ∈ g.identities kind text :=
  ((executions_perm hp kind text).map _).mem_iff

theorem reads_of_perm (ids : List Identity) : (h.readsOf kind ids).Perm (g.readsOf kind ids) :=
  (hp.filterMap _).filter _

theorem rows_of_perm (ids : List Identity) :
    (h.rowsOf byKind kind ids).Perm (g.rowsOf byKind kind ids) := (hp.filterMap _).filter _

theorem properties_of_perm (ids : List Identity) :
    (h.propertiesOf byKind kind ids).Perm (g.propertiesOf byKind kind ids) :=
  (hp.filterMap _).filter _

theorem rollup_entry_perm (text : String) :
    h.rollupEntry byKind kind text = g.rollupEntry byKind kind text := by
  have hdone := executions_perm hp kind text
  have hids := mem_identities_perm hp kind text
  have hread := reads_of_perm hp kind (h.identities kind text)
  have hrows := rows_of_perm hp byKind kind (h.identities kind text)
  have hproperties := properties_of_perm hp byKind kind (h.identities kind text)
  rw [g.reads_of_congr kind hids] at hread
  rw [g.rows_of_congr kind byKind hids] at hrows
  rw [g.properties_of_congr kind byKind hids] at hproperties
  simp only [rollupEntry, hdone.length_eq, (hdone.map _).sum_eq, hdone.countP_eq,
    (hread.map _).sum_eq, rows_block_perm hrows, property_block_perm hproperties]

theorem slow_entry_perm (c : Completion) :
    h.slowEntry byKind kind c = g.slowEntry byKind kind c := by
  have hread := reads_of_perm hp kind [c.identity]
  have hrows := rows_of_perm hp byKind kind [c.identity]
  have hproperties := properties_of_perm hp byKind kind [c.identity]
  simp only [slowEntry, (hread.map _).sum_eq, rows_block_perm hrows,
    property_block_perm hproperties]

end History

theorem history_perm {as bs : List Call} (hp : as.Perm bs) : (history as).Perm (history bs) :=
  hp.filterMap _

theorem report_congr {a b : Aggregator} (hr : ∀ kind, a.rollup kind = b.rollup kind)
    (ht : ∀ kind, a.topSlow kind = b.topSlow kind) : a.report? = b.report? := by
  simp only [Aggregator.report?, Aggregator.topSlowJson?, Aggregator.rollupJson, hr, ht]

section Sections
variable (s : Settings) {as bs : List Call} (hp : as.Perm bs) (kind : QueryKind)
include hp

theorem rollup_perm : (((Session.start s).run as).aggregator.rollup kind).Perm
    (((Session.start s).run bs).aggregator.rollup kind) := by
  have hentry (t : String) := History.rollup_entry_perm (history_perm hp) s.rowsByKind kind t
  rw [rollup_of_session, rollup_of_session]
  simp only [hentry]
  exact (History.texts_perm (history_perm hp) kind).map _

theorem rollup_in_order (hc : (history as).completed kind = (history bs).completed kind) :
    ((Session.start s).run as).aggregator.rollup kind =
      ((Session.start s).run bs).aggregator.rollup kind := by
  have hentry (t : String) := History.rollup_entry_perm (history_perm hp) s.rowsByKind kind t
  have htexts : (history as).texts kind = (history bs).texts kind := by
    rw [History.texts, History.texts, hc]
  rw [rollup_of_session, rollup_of_session, htexts]
  simp only [hentry]

theorem top_slow_of_retained
    (hr : retained s.topSlowSize.val ((history as).offers kind) =
      retained s.topSlowSize.val ((history bs).offers kind)) :
    ((Session.start s).run as).aggregator.topSlow kind =
      ((Session.start s).run bs).aggregator.topSlow kind := by
  have hentry (c : Completion) := History.slow_entry_perm (history_perm hp) s.rowsByKind kind c
  rw [top_slow_of_session, top_slow_of_session, hr]
  simp only [hentry]

theorem offers_perm : ((history as).offers kind).Perm ((history bs).offers kind) :=
  (History.completed_perm (history_perm hp) kind).map _

theorem top_slow_durations :
    (((Session.start s).run as).aggregator.topSlow kind).map (·.duration) =
      (((Session.start s).run bs).aggregator.topSlow kind).map (·.duration) := by
  have hduration (cs : List Call) :
      (((Session.start s).run cs).aggregator.topSlow kind).map (·.duration) =
        ((retained s.topSlowSize.val ((history cs).offers kind)).map Scored.score).map
          (· / 1000000) := by
    rw [top_slow_of_session, List.map_map, List.map_map]
    apply List.map_congr_left
    intro e he
    exact congrArg (· / 1000000) (offer_score (mem_retained s.topSlowSize.2 he))
  rw [hduration, hduration, retained_scores_perm s.topSlowSize.2 (offers_perm hp kind)]

theorem top_slow_distinct (hd : (((history as).completed kind).map (·.duration)).Nodup) :
    ((Session.start s).run as).aggregator.topSlow kind =
      ((Session.start s).run bs).aggregator.topSlow kind := by
  apply top_slow_of_retained s hp
  apply retained_distinct s.topSlowSize.2 (offers_perm hp kind)
  rw [History.offers, List.map_map]
  exact hd

end Sections

-- Aggregators that got records and were asked for nothing in between.
section Orders
variable (s : Settings) {h g : History} (hp : h.Perm g)
include hp

theorem report_in_order (hc : ∀ kind, h.completed kind = g.completed kind) :
    ((Aggregator.start s).run h).report? = ((Aggregator.start s).run g).report? := by
  have hcalls := hp.map Call.deliver
  rw [← Session.run_deliver, ← Session.run_deliver]
  apply report_congr
  · intro kind
    apply rollup_in_order s hcalls kind
    rw [history_deliver, history_deliver, hc]
  · intro kind
    apply top_slow_of_retained s hcalls
    rw [history_deliver, history_deliver, History.offers, History.offers, hc]

theorem rollup_any_order (kind : QueryKind) : (((Aggregator.start s).run h).rollup kind).Perm
    (((Aggregator.start s).run g).rollup kind) := by
  rw [← Session.run_deliver, ← Session.run_deliver]
  exact rollup_perm s (hp.map Call.deliver) kind

theorem durations_any_order (kind : QueryKind) :
    (((Aggregator.start s).run h).topSlow kind).map (·.duration) =
      (((Aggregator.start s).run g).topSlow kind).map (·.duration) := by
  rw [← Session.run_deliver, ← Session.run_deliver]
  exact top_slow_durations s (hp.map Call.deliver) kind

theorem table_length_perm :
    ((Aggregator.start s).run h).table.length = ((Aggregator.start s).run g).table.length := by
  have hkeys (h : History) := congrArg List.length (table_keys_after_run s h)
  simp only [Assoc.keys, List.length_map] at hkeys
  rw [hkeys, hkeys]
  exact (first_seen_perm ((hp.filterMap _).map _)).length_eq

end Orders

theorem rollup_keys_nodup (s : Settings) (h : History) (kind : QueryKind) :
    ((((Aggregator.start s).run h).rollup kind).map Prod.fst).Nodup := by
  rw [← Session.run_deliver, rollup_texts]
  exact first_seen_nodup _

/-- Two sessions with the same calls report the same, up to the order in which texts were first
seen and the choice among ties; and just the same if the completions of each kind come in the
same order. -/
theorem report_up_to_arrival (s : Settings) {as bs : List Call} (hp : as.Perm bs) :
    let a := ((Session.start s).run as).aggregator
    let b := ((Session.start s).run bs).aggregator
    ((∀ kind, (history as).completed kind = (history bs).completed kind) →
      a.report? = b.report?) ∧
    ∀ kind, (a.rollup kind).Perm (b.rollup kind) ∧ ((a.rollup kind).map Prod.fst).Nodup ∧
      (a.topSlow kind).map (·.duration) = (b.topSlow kind).map (·.duration) ∧
      ((((history as).completed kind).map (·.duration)).Nodup →
        a.topSlow kind = b.topSlow kind) := by
  intro a b
  constructor
  · intro hc
    apply report_congr
    · exact fun kind => rollup_in_order s hp kind (hc kind)
    · intro kind
      apply top_slow_of_retained s hp
      rw [History.offers, History.offers, hc kind]
  · intro kind
    refine ⟨rollup_perm s hp kind, ?_, top_slow_durations s hp kind, top_slow_distinct s hp kind⟩
    rw [rollup_texts]
    exact first_seen_nodup _

/-- Rows that come early instead of late, a report in between, and completions the other way
round. -/
theorem report_of_two_completions :
    let s := { Settings.default with topSlowSize := ⟨1, by decide⟩ }
    let quick : Completion := ⟨.sqlFields, "q", .named "n", 1, 0, 5, true⟩
    let slow : Completion := ⟨.sqlFields, "r", .numbered 2, 1, 0, 7, false⟩
    let scanned : RowsReport := ⟨.named "m", .scan, .named "n", 1, "scanned", 3⟩
    let late : List Call := [.deliver (.completion quick), .deliver (.completion slow),
      .deliver (.rows scanned), .results]
    let early : List Call := [.deliver (.rows scanned), .results, .deliver (.completion quick),
      .deliver (.completion slow)]
    let swapped : List Call := [.deliver (.completion slow), .deliver (.completion quick),
      .deliver (.rows scanned), .results]
    late.Perm early ∧ late.Perm swapped ∧
    (∀ kind, (history late).completed kind = (history early).completed kind) ∧
    (((history late).completed .sqlFields).map (·.duration)).Nodup ∧
    ((Session.start s).run late).aggregator.report? =
      ((Session.start s).run early).aggregator.report? ∧
    ((Session.start s).run late).aggregator.topSlow .sqlFields =
      ((Session.start s).run swapped).aggregator.topSlow .sqlFields := by
  intro s quick slow scanned late early swapped
  have hearly : late.Perm early := by decide
  have hswapped : late.Perm swapped := by decide
  have hc (kind : QueryKind) : (history late).completed kind = (history early).completed kind := rfl
  have hd : (((history late).completed .sqlFields).map (·.duration)).Nodup := by decide
  refine ⟨hearly, hswapped, hc, hd, ?_, ?_⟩
  · exact (report_up_to_arrival s hearly).1 hc
  · exact ((report_up_to_arrival s hswapped).2 .sqlFields).2.2.2 hd

end QueryTelemetry
