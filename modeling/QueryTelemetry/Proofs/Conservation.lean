import QueryTelemetry.Proofs.Relevance

/-!
# Reads and rows are conserved

As long as no execution of a kind completes under two texts, the texts split the executions that
completed among themselves. So do the facts of these executions: what a rollup shows of them under
all of its texts is what was reported, neither less nor twice.
-/

set_option autoImplicit false

namespace QueryTelemetry

namespace History
variable (h : History) (kind : QueryKind)

/-- No execution completes under two texts, however often it completes. -/
def OneText : Prop :=
  ∀ c ∈ h.completed kind, ∀ d ∈ h.completed kind, c.identity = d.identity → c.text = d.text

def owner (i : Identity) : Option String :=
  ((h.completed kind).find? (·.identity = i)).map (·.text)

variable {h kind}

theorem owner_eq_some_iff (hone : h.OneText kind) (i : Identity) (text : String) :
    h.owner kind i = some text ↔ i ∈ h.identities kind text := by
  rw [owner, Option.map_eq_some_iff]
  constructor
  · rintro ⟨c, hc, rfl⟩
    have hi : c.identity = i := of_decide_eq_true (List.find?_some hc :)
    have hexecuted : c ∈ h.executions kind c.text :=
      List.mem_filter.mpr ⟨List.mem_of_find?_eq_some hc, decide_eq_true rfl⟩
    exact List.mem_map.mpr ⟨c, hexecuted, hi⟩
  · intro hi
    obtain ⟨d, hd, rfl⟩ := List.mem_map.mp hi
    obtain ⟨hdone, htext⟩ := List.mem_filter.mp hd
    cases hc : (h.completed kind).find? (·.identity = d.identity) with
    | none => exact absurd (decide_eq_true rfl) (List.find?_eq_none.mp hc d hdone)
    | some c =>
      have hi : c.identity = d.identity := of_decide_eq_true (List.find?_some hc :)
      exact ⟨c, rfl, (hone c (List.mem_of_find?_eq_some hc) d hdone hi).trans
        (of_decide_eq_true htext)⟩

theorem mem_known_iff (hone : h.OneText kind) (i : Identity) :
    i ∈ h.known kind ↔ h.owner kind i ∈ (h.texts kind).map some := by
  constructor
  · intro hi
    obtain ⟨c, hc, rfl⟩ := List.mem_map.mp hi
    have hexecuted : c ∈ h.executions kind c.text :=
      List.mem_filter.mpr ⟨hc, decide_eq_true rfl⟩
    rw [(owner_eq_some_iff hone c.identity c.text).mpr (List.mem_map_of_mem hexecuted)]
    exact List.mem_map_of_mem (List.mem_eraseDups.mpr (List.mem_map_of_mem hc))
  · intro hi
    obtain ⟨text, _, htext⟩ := List.mem_map.mp hi
    exact h.identities_known kind text i ((owner_eq_some_iff hone i text).mp htext.symm)

/-- What is selected for the executions of text after text is selected for all executions that
completed. -/
theorem text_regroup {α : Type} (hone : h.OneText kind) (p : α → Prop) [DecidablePred p]
    (identity : α → Identity) (xs : List α) :
    ((h.texts kind).flatMap fun t => xs.filter fun x => p x ∧ identity x ∈ h.identities kind t).Perm
      (xs.filter fun x => p x ∧ identity x ∈ h.known kind) := by
  have hnodup : ((h.texts kind).map some).Nodup :=
    (first_seen_nodup _).map (Option.some_injective String)
  have hsplit := filter_regroup p (fun x => h.owner kind (identity x)) xs hnodup
  simpa only [List.flatMap_map, List.mem_singleton, owner_eq_some_iff hone, ← mem_known_iff hone]
    using hsplit

theorem reads_by_text (hone : h.OneText kind) :
    ((h.texts kind).flatMap fun t => h.readsOf kind (h.identities kind t)).Perm
      (h.readsOf kind (h.known kind)) :=
  text_regroup hone (fun r : ReadsReport => r.kind = kind) ReadsReport.identity h.reads

theorem rows_by_text (hone : h.OneText kind) (byKind : Bool) :
    ((h.texts kind).flatMap fun t => h.rowsOf byKind kind (h.identities kind t)).Perm
      (h.rowsOf byKind kind (h.known kind)) :=
  text_regroup hone (fun r : RowsReport => byKind = true → r.kind = kind) RowsReport.identity h.rows

theorem reads_of_all {ids : List Identity}
    (hall : ∀ r ∈ h.reads, r.kind = kind → r.identity ∈ ids) :
    h.readsOf kind ids = h.reads.filter (·.kind = kind) :=
  List.filter_congr fun r hr => decide_eq_decide.mpr ⟨And.left, fun hk => ⟨hk, hall r hr hk⟩⟩

theorem rows_of_all {byKind : Bool} {ids : List Identity}
    (hall : ∀ r ∈ h.rows, (byKind = true → r.kind = kind) → r.identity ∈ ids) :
    h.rowsOf byKind kind ids = h.rows.filter fun r => byKind = true → r.kind = kind :=
  List.filter_congr fun r hr => decide_eq_decide.mpr ⟨And.left, fun hk => ⟨hk, hall r hr hk⟩⟩

end History

theorem sum_by_text {α β : Type} {ts : List α} {f : α → List β} {xs : List β}
    (h : (ts.flatMap f).Perm xs) (n : β → Int) :
    (ts.map fun t => ((f t).map n).sum).sum = (xs.map n).sum := by
  rw [← (h.map n).sum_eq, List.map_flatMap, List.flatMap, List.sum_flatten, List.map_map]
  rfl

def RollupEntry.rowCount (e : RollupEntry) (action : String) : Int :=
  (e.rows.bind (·.get? action)).getD 0

theorem rows_block_count (rs : List RowsReport) (action : String) :
    ((rowsBlock rs).bind (·.get? action)).getD 0 =
      ((rs.filter (·.action = action)).map (·.rows)).sum := by
  have hmem : action ∈ ascending (rs.map (·.action)) ↔ action ∈ rs.map (·.action) := by
    rw [ascending, (sort_by_perm id _).mem_iff, List.mem_eraseDups]
  rw [rowsBlock]
  split
  · rename_i hnone
    rw [hnone]
    rfl
  · rw [Option.bind_some, Assoc.get_map_keys]
    split
    · rfl
    · rename_i haction
      rw [filter_unseen fun hseen => haction (hmem.mpr hseen)]
      rfl

section AfterRun
variable {s : Settings} {calls : List Call} {kind : QueryKind}

theorem reads_of_rollup (hone : (history calls).OneText kind) :
    let h := history calls
    let entries := ((Session.start s).run calls).aggregator.rollup kind
    (entries.map (·.2.logicalReads)).sum =
        ((h.readsOf kind (h.known kind)).map (·.logical)).sum ∧
      (entries.map (·.2.physicalReads)).sum =
        ((h.readsOf kind (h.known kind)).map (·.physical)).sum := by
  intro h entries
  simp only [entries]
  rw [rollup_of_session, List.map_map, List.map_map]
  exact ⟨sum_by_text (h.reads_by_text hone) (·.logical),
    sum_by_text (h.reads_by_text hone) (·.physical)⟩

theorem rows_of_rollup (hone : (history calls).OneText .sqlFields) (action : String) :
    let h := history calls
    let entries := ((Session.start s).run calls).aggregator.rollup .sqlFields
    (entries.map (·.2.rowCount action)).sum =
      (((h.rowsOf s.rowsByKind .sqlFields (h.known .sqlFields)).filter
        (·.action = action)).map (·.rows)).sum := by
  intro h entries
  have hsplit := (h.rows_by_text hone s.rowsByKind).filter (·.action = action)
  rw [List.filter_flatMap] at hsplit
  rw [← sum_by_text hsplit]
  simp only [entries]
  rw [rollup_of_session, List.map_map]
  congr 1
  apply List.map_congr_left
  intro text _
  exact rows_block_count _ action

end AfterRun

/-- No read and no row is lost or counted twice, and nothing else is counted. -/
theorem rollup_conserves_facts (s : Settings) (calls : List Call) (kind : QueryKind)
    (hone : (history calls).OneText kind) :
    let h := history calls
    let entries := ((Session.start s).run calls).aggregator.rollup kind
    let read := h.readsOf kind (h.known kind)
    let rows := h.rowsOf s.rowsByKind kind (h.known kind)
    ((entries.map (·.2.logicalReads)).sum = (read.map (·.logical)).sum ∧
      (entries.map (·.2.physicalReads)).sum = (read.map (·.physical)).sum) ∧
    (kind = .sqlFields → ∀ action,
      (entries.map (·.2.rowCount action)).sum =
        ((rows.filter (·.action = action)).map (·.rows)).sum) ∧
    ((∀ r ∈ h.reads, r.kind = kind → r.identity ∈ h.known kind) →
      (entries.map (·.2.logicalReads)).sum =
        ((h.reads.filter (·.kind = kind)).map (·.logical)).sum ∧
      (entries.map (·.2.physicalReads)).sum =
        ((h.reads.filter (·.kind = kind)).map (·.physical)).sum) ∧
    (kind = .sqlFields →
      (∀ r ∈ h.rows, (s.rowsByKind = true → r.kind = kind) → r.identity ∈ h.known kind) →
      ∀ action, (entries.map (·.2.rowCount action)).sum =
        ((h.rows.filter fun r => (s.rowsByKind = true → r.kind = kind) ∧
          r.action = action).map (·.rows)).sum) := by
  intro h entries read rows
  have hreads := reads_of_rollup (s := s) hone
  refine ⟨hreads, ?_, ?_, ?_⟩
  · rintro rfl action
    exact rows_of_rollup hone action
  · intro hall
    rw [← History.reads_of_all hall]
    exact hreads
  · rintro rfl hall action
    have hselected : (h.rows.filter fun r => (s.rowsByKind = true → r.kind = .sqlFields) ∧
        r.action = action) = rows.filter (·.action = action) := by
      simp only [rows, History.rows_of_all hall, List.filter_filter, Bool.decide_and, Bool.and_comm]
    rw [hselected]
    exact rows_of_rollup hone action

/-- A query that completes twice under its text, next to another text: three reads of four, and all
rows of "get", were reported of the two. -/
theorem facts_of_repeated_completion :
    let call : List Call := [
      .deliver (.completion ⟨.sqlFields, "q1", .named "n", 1, 0, 10, true⟩),
      .deliver (.reads ⟨.named "n", .sqlFields, .named "n", 1, 3, 1⟩),
      .deliver (.completion ⟨.sqlFields, "q2", .numbered 4, 1, 0, 10, true⟩),
      .deliver (.reads ⟨.named "n", .sqlFields, .numbered 4, 1, 5, 2⟩),
      .deliver (.rows ⟨.named "n", .sql, .named "n", 1, "get", 6⟩),
      .results,
      .deliver (.completion ⟨.sqlFields, "q1", .named "n", 1, 0, 10, true⟩),
      .deliver (.reads ⟨.named "n", .sqlFields, .named "n", 1, 7, 0⟩),
      .deliver (.reads ⟨.named "n", .sqlFields, .named "n", 2, 100, 100⟩),
      .deliver (.rows ⟨.named "n", .sqlFields, .numbered 4, 1, "get", 8⟩)]
    let entries := ((Session.start .default).run call).aggregator.rollup .sqlFields
    (entries.map (·.2.logicalReads)).sum = 15 ∧ (entries.map (·.2.physicalReads)).sum = 3 ∧
      (entries.map (·.2.rowCount "get")).sum = 14 := by
  intro calls entries
  have hone : (history calls).OneText .sqlFields := by
    unfold History.OneText
    decide
  have hall : ∀ r ∈ (history calls).rows,
      (Settings.default.rowsByKind = true → r.kind = .sqlFields) →
      r.identity ∈ (history calls).known .sqlFields := by decide
  obtain ⟨⟨hlogical, hphysical⟩, -, -, hallrows⟩ :=
    rollup_conserves_facts .default calls .sqlFields hone
  exact ⟨hlogical.trans (by decide), hphysical.trans (by decide),
    (hallrows rfl hall "get").trans (by decide)⟩

end QueryTelemetry
