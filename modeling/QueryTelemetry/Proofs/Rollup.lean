import QueryTelemetry.Proofs.Join

/-!
# Rollups of whole runs

The rollup of a kind after any session is the one that can be read off the history: a text for
each that completed, in the order of first sight, with sums over the records that concern it.
Nothing depends on where reads, rows and properties stood among the completions, nor on how often
an identity completed or a report was asked for.
-/

set_option autoImplicit false

namespace QueryTelemetry

namespace History
variable (h : History) (kind : QueryKind) {ids : List Identity}

/-- Record by record, the reports of single identities are those of all of them. -/
theorem reads_regroup (hn : ids.Nodup) :
    (ids.flatMap fun i => h.readsOf kind [i]).Perm (h.readsOf kind ids) :=
  filter_regroup (fun r : ReadsReport => r.kind = kind) ReadsReport.identity h.reads hn

theorem rows_regroup (byKind : Bool) (hn : ids.Nodup) :
    (ids.flatMap fun i => h.rowsOf byKind kind [i]).Perm (h.rowsOf byKind kind ids) :=
  filter_regroup (fun r : RowsReport => byKind = true → r.kind = kind) RowsReport.identity h.rows hn

theorem properties_regroup (byKind : Bool) (hn : ids.Nodup) :
    (ids.flatMap fun i => h.propertiesOf byKind kind [i]).Perm
      (h.propertiesOf byKind kind ids) :=
  filter_regroup (fun r : PropertyReport => byKind = true → r.kind = kind) PropertyReport.identity
    h.properties hn

theorem reads_of_congr {js : List Identity} (hm : ∀ i, i ∈ ids ↔ i ∈ js) :
    h.readsOf kind ids = h.readsOf kind js := by
  simp only [readsOf, hm]

theorem rows_of_congr (byKind : Bool) {js : List Identity} (hm : ∀ i, i ∈ ids ↔ i ∈ js) :
    h.rowsOf byKind kind ids = h.rowsOf byKind kind js := by
  simp only [rowsOf, hm]

theorem properties_of_congr (byKind : Bool) {js : List Identity} (hm : ∀ i, i ∈ ids ↔ i ∈ js) :
    h.propertiesOf byKind kind ids = h.propertiesOf byKind kind js := by
  simp only [propertiesOf, hm]

end History

theorem total_reads_perm {rs ss : List ReadsReport} (h : rs.Perm ss) :
    totalReads rs = totalReads ss := by
  rw [totalReads, totalReads, (h.map _).sum_eq, (h.map _).sum_eq]

section AfterRun
variable (s : Settings) (h : History) (kind : QueryKind)

theorem rows_tally_after_run (i : Identity) :
    Tallies ((((Aggregator.start s).run h).correlator.rows? kind i).getD [])
      (rowIncrements (h.rowsOf s.rowsByKind kind [i])) := by
  rw [rows_after_run]
  exact (tally_rows _).lookup

theorem properties_tally_after_run (i : Identity) :
    Tallies ((((Aggregator.start s).run h).correlator.properties? kind i).getD [])
      (propertyIncrements (h.propertiesOf s.rowsByKind kind [i])) := by
  rw [properties_after_run]
  exact (tally_properties _).lookup

def joined (text : String) : Totals :=
  ((Aggregator.start s).run h).correlator.totals kind
    (Entry.ofExecutions (h.executions kind text))

theorem joined_eq (text : String) : joined s h kind text =
    ((Aggregator.start s).run h).correlator.pullAll kind
      (Entry.ofExecutions (h.executions kind text)).totals
      (Entry.ofExecutions (h.executions kind text)).identities.toList := rfl

theorem listed_nodup (text : String) :
    (Entry.ofExecutions (h.executions kind text)).identities.toList.Nodup :=
  IdentitySet.to_list_nodup (Entry.proper_of_executions _)

theorem mem_listed (text : String) (i : Identity) :
    i ∈ (Entry.ofExecutions (h.executions kind text)).identities.toList ↔
      i ∈ h.identities kind text :=
  Entry.mem_of_executions _ i

theorem joined_reads (text : String) :
    (⟨(joined s h kind text).logicalReads, (joined s h kind text).physicalReads⟩ : Reads) =
      totalReads (h.readsOf kind (h.identities kind text)) := by
  have hall := ((Aggregator.start s).run h).correlator.pull_all_reads kind
    (fun r : ReadsReport => ⟨r.logical, r.physical⟩) _ (total_reads_after_run s h kind)
    (Entry.ofExecutions (h.executions kind text)).totals
    (Entry.ofExecutions (h.executions kind text)).identities.toList
  rw [← joined_eq s h kind text, ← totalReads,
    total_reads_perm (h.reads_regroup kind (listed_nodup h kind text)),
    h.reads_of_congr kind (mem_listed h kind text), Entry.totals_of_executions] at hall
  rw [hall]
  simp [Reads.add]

theorem start_blocks (text : String) :
    (Entry.ofExecutions (h.executions kind text)).totals.rows = [] ∧
      (Entry.ofExecutions (h.executions kind text)).totals.properties = [] := by
  rw [Entry.totals_of_executions]
  exact ⟨rfl, rfl⟩

/-- What the listed identities were told one by one is what was told of all identities. -/
theorem tally_regroup {α κ : Type} [DecidableEq κ] {m : Assoc κ Int} {g : α → κ × Int}
    {told : List Identity → List α} {listed ids : List Identity}
    (hm : Tallies m (listed.flatMap fun i => (told [i]).map g))
    (hregroup : (listed.flatMap fun i => told [i]).Perm (told listed))
    (hset : told listed = told ids) : Tallies m ((told ids).map g) := by
  have hperm := hregroup.map g
  rw [List.map_flatMap, hset] at hperm
  exact hm.perm hperm

theorem joined_rows (text : String) :
    (if (joined s h kind text).rows.isEmpty then none
      else some (joined s h kind text).rows.block) =
    if kind = .sqlFields then
      rowsBlock (h.rowsOf s.rowsByKind kind (h.identities kind text)) else none := by
  by_cases hk : kind = .sqlFields
  · subst hk
    rw [if_pos rfl]
    have hstart : Tallies (Entry.ofExecutions (h.executions .sqlFields text)).totals.rows [] :=
      (start_blocks h .sqlFields text).1 ▸ Tallies.nil
    have hall := Correlator.pull_all_rows _ _ (rows_tally_after_run s h .sqlFields) hstart
      (Entry.ofExecutions (h.executions .sqlFields text)).identities.toList
    exact shown_rows (tally_regroup hall
      (h.rows_regroup .sqlFields s.rowsByKind (listed_nodup h .sqlFields text))
      (h.rows_of_congr .sqlFields s.rowsByKind (mem_listed h .sqlFields text)))
  · rw [if_neg hk, joined_eq, (Correlator.pull_all_blocks _ hk _ _).1, Entry.totals_of_executions]
    rfl

theorem joined_properties (text : String) :
    (if (joined s h kind text).properties.isEmpty then none
      else some (joined s h kind text).properties.block) =
    if kind = .sqlFields then
      propertyBlock (h.propertiesOf s.rowsByKind kind (h.identities kind text)) else none := by
  by_cases hk : kind = .sqlFields
  · subst hk
    rw [if_pos rfl]
    have hstart :
        Tallies (Entry.ofExecutions (h.executions .sqlFields text)).totals.properties [] :=
      (start_blocks h .sqlFields text).2 ▸ Tallies.nil
    have hall := Correlator.pull_all_properties _ _ (properties_tally_after_run s h .sqlFields)
      hstart (Entry.ofExecutions (h.executions .sqlFields text)).identities.toList
    exact shown_properties (tally_regroup hall
      (h.properties_regroup .sqlFields s.rowsByKind (listed_nodup h .sqlFields text))
      (h.properties_of_congr .sqlFields s.rowsByKind (mem_listed h .sqlFields text)))
  · rw [if_neg hk, joined_eq, (Correlator.pull_all_blocks _ hk _ _).2, Entry.totals_of_executions]
    rfl

theorem joined_entry (text : String) :
    (joined s h kind text).entry = h.rollupEntry s.rowsByKind kind text := by
  obtain ⟨hcount, hduration, hfailures⟩ :=
    ((Aggregator.start s).run h).correlator.pull_all_frame kind
      (Entry.ofExecutions (h.executions kind text)).totals
      (Entry.ofExecutions (h.executions kind text)).identities.toList
  rw [← joined_eq s h kind text, Entry.totals_of_executions] at hcount hduration hfailures
  obtain ⟨hlogical, hphysical⟩ := Reads.mk.inj (joined_reads s h kind text)
  rw [Totals.entry, joined_rows, joined_properties, hcount, hduration, hfailures, hlogical,
    hphysical, nanosToMillis, Int.fdiv_eq_ediv_of_nonneg _ (by decide)]
  rfl

theorem rollup_after_run : ((Aggregator.start s).run h).rollup kind =
    (h.texts kind).map fun t => (t, h.rollupEntry s.rowsByKind kind t) := by
  rw [Aggregator.rollup, entries_after_run, List.map_map]
  apply List.map_congr_left
  intro t ht
  exact congrArg (t, ·) (joined_entry s h kind t)

end AfterRun

theorem rollup_of_session (s : Settings) (calls : List Call) (kind : QueryKind) :
    ((Session.start s).run calls).aggregator.rollup kind =
      ((history calls).texts kind).map fun t =>
        (t, (history calls).rollupEntry s.rowsByKind kind t) := by
  rw [Session.run_aggregator]
  exact rollup_after_run s (history calls) kind

theorem rollup_texts (s : Settings) (calls : List Call) (kind : QueryKind) :
    (((Session.start s).run calls).aggregator.rollup kind).map Prod.fst =
      (history calls).texts kind := by
  rw [rollup_of_session, List.map_map]
  exact List.map_id _

/-- In any session every text that completed has one entry. Its numbers are sums over the
executions of the text and over the reads of all identities that executed it. -/
theorem rollup_totals_of_history (s : Settings) (calls : List Call) (kind : QueryKind) :
    let h := history calls
    let entries := ((Session.start s).run calls).aggregator.rollup kind
    let done t := h.executions kind t
    let read t := h.readsOf kind (h.identities kind t)
    entries.map (fun p => (p.1, p.2.count, p.2.failures, p.2.duration, p.2.logicalReads,
        p.2.physicalReads)) =
      (h.texts kind).map (fun t => (t, (done t).length, (done t).countP (!·.success),
        ((done t).map (·.duration)).sum / 1000000, ((read t).map (·.logical)).sum,
        ((read t).map (·.physical)).sum)) ∧
    (entries.map Prod.fst).Nodup := by
  intro h entries done read
  constructor
  · simp only [entries]
    rw [rollup_of_session, List.map_map]
    rfl
  · simp only [entries]
    rw [rollup_texts]
    exact first_seen_nodup _

theorem rows_block_ascends (rs : List RowsReport) :
    (((rowsBlock rs).getD []).map Prod.fst).Pairwise (· < ·) := by
  by_cases hr : rs = []
  · rw [rowsBlock, if_pos hr]
    exact List.Pairwise.nil
  · rw [rowsBlock, if_neg hr, Option.getD_some, List.map_map]
    simpa [Function.comp_def] using ascending_strict (rs.map (·.action))

theorem property_block_ascends (rs : List PropertyReport) :
    (((propertyBlock rs).getD []).map Prod.fst).Pairwise (· < ·) := by
  by_cases hr : rs = []
  · rw [propertyBlock, if_pos hr]
    exact List.Pairwise.nil
  · rw [propertyBlock, if_neg hr, Option.getD_some, List.map_map]
    simpa [Function.comp_def] using ascending_strict (rs.map (·.name))

/-- The blocks of SQL field queries sum up the rows and properties of all identities that executed
the text, of every kind unless kinds are told apart. -/
theorem rollup_blocks_of_history (s : Settings) (calls : List Call) :
    let h := history calls
    let rows t := h.rowsOf s.rowsByKind .sqlFields (h.identities .sqlFields t)
    let properties t := h.propertiesOf s.rowsByKind .sqlFields (h.identities .sqlFields t)
    (((Session.start s).run calls).aggregator.rollup .sqlFields).map
        (fun p => (p.1, p.2.rows, p.2.properties)) =
      (h.texts .sqlFields).map (fun t => (t, rowsBlock (rows t), propertyBlock (properties t))) ∧
    ∀ t, (((rowsBlock (rows t)).getD []).map Prod.fst).Pairwise (· < ·) ∧
      (((propertyBlock (properties t)).getD []).map Prod.fst).Pairwise (· < ·) := by
  intro h rows properties
  constructor
  · rw [rollup_of_session, List.map_map]
    rfl
  · intro t
    exact ⟨rows_block_ascends (rows t), property_block_ascends (properties t)⟩

end QueryTelemetry
