import QueryTelemetry.Proofs.Columnar
import QueryTelemetry.Proofs.Outcomes
import QueryTelemetry.Proofs.Tables

/-!
# Exports and their counts

A table that was written counts its rows, which are as many as the section has entries; and the run
that wrote it enters the same number into the manifest as the size of the section. All that this
takes of the library that makes the tables is that a table has the rows it is made of.
-/

set_option autoImplicit false

namespace QueryTelemetry
open Json
open Payload (AllShort)

/-! ## Rows and sizes -/

theorem rollup_rows_size {v : Json} {rows : List Row} (h : rollupRows v = .ok rows) :
    v.size? = some rows.length := by
  cases v with
  | obj members => rw [size?, (map_ok_iff.mp h).length_eq]
  | null | bool _ | int _ | float _ | str _ | arr _ => cases h

/-- Keys and characters make no rows. -/
theorem no_row_of_text (s : Utf16) : topSlowRow (.str s) = .error .wrongType := rfl

theorem no_rows_of_texts {α : Type} {f : α → Utf16} {xs : List α} {rows : List Row}
    (h : (xs.map fun x => Json.str (f x)).mapM topSlowRow = .ok rows) : xs = [] ∧ rows = [] := by
  cases xs with
  | nil => exact ⟨rfl, (Except.ok.inj h).symm⟩
  | cons x xs =>
    rw [List.map_cons, List.mapM_cons, no_row_of_text] at h
    cases h

theorem top_slow_rows_size {v : Json} {rows : List Row} (h : topSlowRows v = .ok rows) :
    v.size? = some rows.length := by
  cases v with
  | arr items => rw [size?, (map_ok_iff.mp h).length_eq]
  | obj members =>
    obtain ⟨rfl, rfl⟩ := no_rows_of_texts (f := Prod.fst) h
    rfl
  | str s =>
    obtain ⟨rfl, rfl⟩ := no_rows_of_texts (f := fun u => [u]) h
    rfl
  | null | bool _ | int _ | float _ => cases h

/-- A table has as many rows as its section has members or items. -/
theorem size_of_rows {t : Tabled} (ht : t ∈ tabled) {v : Json} {rows : List Row}
    (h : t.rows v = .ok rows) : v.size? = some rows.length := by
  obtain ⟨k, -, ht⟩ := List.mem_flatMap.mp ht
  rcases List.mem_pair.mp ht with rfl | rfl
  · exact rollup_rows_size h
  · exact top_slow_rows_size h

/-! ## Sizes in the manifest -/

theorem get_size {report : Report} (h : ∀ p ∈ report, p.2.size?.isSome) (name : String) :
    Assoc.get? (sizesOf report) name =
      (report.get? name).bind fun v => v.size?.map fun n : Nat => .int n := by
  induction report with
  | nil => rfl
  | cons p r ih =>
    obtain ⟨hp, hr⟩ := List.forall_mem_cons.mp h
    obtain ⟨n, hn⟩ := Option.isSome_iff_exists.mp hp
    have hentry : sizeMember? p = some (p.1, .int n) := by
      rw [sizeMember?, hn]
      rfl
    rw [sizesOf, List.filterMap_cons_some hentry, ← sizesOf, Assoc.get?, Assoc.get?, ih hr]
    split
    · rw [Option.bind_some, hn]
      rfl
    · rfl

section Sizes
variable {w v : Workspace}

namespace Manifest

def EndsWith (path : Path) (runId : Nat) (sizes : List (String × Json)) (files : FileTree) : Prop :=
  ∃ m earlier run, files.read path = .ok (.bytes (obj m).pretty.text.toUTF8) ∧
    (obj m).pretty.complete = true ∧ runs m = .ok (earlier ++ [run]) ∧
    run.member? "run_id" = .ok (.int runId) ∧ run.member? "section_sizes" = .ok (.ofPairs sizes)

theorem extend_ok {m n : Members} {e : ManifestEntry} {now : String} {runId : Nat}
    (h : extend m e now = .ok (n, runId)) :
    ∃ earlier, runs n = .ok (earlier ++ [runEntry e runId now]) := by
  obtain ⟨rs, -, h⟩ := bind_ok_iff.mp h
  cases h
  refine ⟨rs, ?_⟩
  rw [runs, Assoc.get_put, if_pos rfl]

theorem write_document_ok {path : Path} {d : Json}
    (h : (writeDocument path d).run.run w = (.ok (), v)) :
    v.files.read path = .ok (.bytes d.pretty.text.toUTF8) ∧ d.pretty.complete = true := by
  rw [run_write_document] at h
  dsimp only at h
  split at h
  · cases h
  · split at h
    · cases h
    · rename_i u hwrite
      split at h
      · rename_i hcomplete
        cases h
        exact ⟨FileTree.read_write hwrite, hcomplete⟩
      · cases h

theorem append_ok {path : Path} {e : ManifestEntry} {sizes : List (String × Json)}
    (hsizes : e.sectionSizes = .ofPairs sizes) {info : ManifestInfo}
    (h : (append path e).run.run w = (.ok info, v)) : EndsWith path info.runId sizes v.files := by
  obtain ⟨_, _, -, h⟩ := Work.bind_ok h
  obtain ⟨now, _, -, h⟩ := Work.bind_ok h
  obtain ⟨_, _, -, h⟩ := Work.bind_ok h
  obtain ⟨⟨m, runId⟩, _, hextend, h⟩ := Work.bind_ok h
  obtain ⟨_, u, hwrite, h⟩ := Work.bind_ok h
  cases h
  obtain ⟨earlier, hruns⟩ := extend_ok (congrArg Prod.fst hextend)
  obtain ⟨hread, hcomplete⟩ := write_document_ok hwrite
  exact ⟨m, earlier, _, hread, hcomplete, hruns, member_of_pairs rfl,
    hsizes ▸ member_of_pairs rfl⟩

end Manifest

end Sizes

/-! ## Reports of sessions -/

theorem default_report {q : RunRequest} (h : q.handlers = none) :
    q.report? = ((Aggregator.start q.settings).run (deliveries q.events)).report? := by
  rw [RunRequest.report?, RunRequest.active, h, Option.getD_none, List.map_singleton,
    Handler.run_aggregator]
  cases hr : ((Aggregator.start q.settings).run (deliveries q.events)).report? with
  | none =>
    rw [List.mapM_cons, Handler.sections?, hr]
    rfl
  | some report =>
    obtain ⟨_, _, _, -, -, -, rfl⟩ := report_sections hr
    rw [List.mapM_cons, Handler.sections?, hr]
    rfl

structure Counted (report : Report) (tables : List (String × TableInfo)) : Prop where
  names : tables.map Prod.fst = tabled.map Tabled.name
  rows : ∀ p ∈ tables, ∃ v, report.get? p.1 = some v ∧ p.2.rowsWritten = (entriesOf v).length

structure Recorded (q : RunRequest) (report : Report) (tables : List (String × TableInfo))
    (runId : Nat) (files : FileTree) (sizes : List (String × Json)) : Prop where
  manifest : Manifest.EndsWith q.manifestPath runId sizes files
  sections : ∀ t ∈ tabled, ∃ v, report.get? t.name = some v ∧
    Assoc.get? sizes t.name = some (.int (entriesOf v).length)
  counted : q.settings.writeTables = true → Counted report tables
  tables : ∀ p ∈ tables, Assoc.get? sizes p.1 = some (.int p.2.rowsWritten)

section Sessions
variable {l : TableLibrary} (hl : l.Lawful) {s : Settings} {h : History} {report : Report}
  (hr : ((Aggregator.start s).run h).report? = some report)
include hl hr

/-- The table of a section has as many rows as the section has entries. -/
theorem exported_counted {root : Path} {t : Tabled} (ht : t ∈ tabled) {p : String × TableInfo}
    (h : t.Exported l report root [p]) : t.name = p.1 ∧
      ∃ v, report.get? p.1 = some v ∧ p.2.rowsWritten = (entriesOf v).length := by
  cases h with
  | @written v rows table hget hrows htable =>
    obtain ⟨_, _, hsection, hks⟩ := report_outlined hr t ht
    cases hget.symm.trans hsection
    have hsize := (size_of_rows ht hrows).symm.trans hks.sized
    exact ⟨rfl, v, hget, (hl.counted _ _ _ htable).trans (Option.some.inj hsize)⟩

theorem exports_counted {root : Path} {compression : String} {tables : List (String × TableInfo)}
    {w v : Workspace}
    (hrun : (exportTables l report root compression).run.run w = (.ok tables, v)) :
    Counted report tables := by
  obtain ⟨parts, rfl, hall⟩ := export_tables_ok hrun
  constructor
  · have hpaths := congrArg (List.map Prod.fst) (exported_paths hall)
    have hpresent : ∀ t ∈ tabled, report.has t.name = true := by
      intro t ht
      obtain ⟨_, _, hget, -⟩ := report_outlined hr t ht
      rw [Assoc.has, hget]
      rfl
    rw [tablePaths, List.filter_eq_self.mpr hpresent, List.map_map, List.map_map] at hpaths
    exact hpaths
  · intro p hp
    obtain ⟨t, ht, -, hexported⟩ := exported_at hall p hp
    exact (exported_counted hl hr ht hexported).2

theorem kept_recorded {q : RunRequest} {summary : Summary} {kept : Persisted} {files : FileTree}
    (hkept : q.Kept l summary report kept files) :
    ∃ sizes, Recorded q report kept.tables kept.manifest.runId files sizes := by
  obtain ⟨_, v, hrun, rfl⟩ := hkept.manifest
  have hsized (t : Tabled) (ht : t ∈ tabled) : ∃ v, report.get? t.name = some v ∧
      Assoc.get? (sizesOf report) t.name = some (.int (entriesOf v).length) := by
    obtain ⟨v, _, hget, hks⟩ := report_outlined hr t ht
    refine ⟨v, hget, ?_⟩
    rw [get_size hkept.sizes, hget, Option.bind_some, hks.sized]
    rfl
  have htables := hkept.tables
  refine ⟨_, Manifest.append_ok rfl hrun, hsized, fun hwrite => ?_, fun p hp => ?_⟩
  · rw [if_pos hwrite] at htables
    obtain ⟨_, _, hexport⟩ := htables
    exact exports_counted hl hr hexport
  · split at htables
    · obtain ⟨_, _, hexport⟩ := htables
      obtain ⟨parts, hparts, hall⟩ := export_tables_ok hexport
      obtain ⟨t, ht, -, hexported⟩ := exported_at hall p (hparts ▸ hp)
      obtain ⟨hname, v, hget, hrows⟩ := exported_counted hl hr ht hexported
      obtain ⟨_, hsection, hsize⟩ := hsized t ht
      rw [hname] at hsection hsize
      cases hget.symm.trans hsection
      rw [hsize, hrows]
    · rw [htables] at hp
      cases hp

end Sessions

/-- The tables of a report tell what the report does. Each section has one row per entry, in its
order, unless an integer in a block of it is too long to be printed: then the section has no rows
at all. Sections with the same rows are the same, and so are reports. Tables that are exported have
as many rows as their sections have entries, and so it stands in the manifest. -/
theorem tables_tell_report {l : TableLibrary} (hl : l.Lawful) (s : Settings) (calls : List Call)
    {report : Report}
    (hr : ((Session.start s).run calls).aggregator.report? = some report) :
    (∀ t ∈ tabled, ∃ v, report.get? t.name = some v ∧
      (BlocksShort v → ∃ rows, t.rows v = .ok rows ∧
        List.Forall₂ (Carries t.schema) (entriesOf v) rows) ∧
      (¬ BlocksShort v → t.rows v = .error .unwritable)) ∧
    (∀ u others other, ((Session.start u).run others).aggregator.report? = some other →
      (∀ t ∈ tabled, ∀ v w rows, report.get? t.name = some v → other.get? t.name = some w →
        t.rows v = .ok rows → t.rows w = .ok rows → v = w) ∧
      ∀ rows, tableRows report = .ok rows → tableRows other = .ok rows → report = other) ∧
    (∀ root compression w tables v,
      (exportTables l report root compression).run.run w = (.ok tables, v) →
        Counted report tables) ∧
    ∀ (q : RunRequest) w t v, (q.run l).run.run w = (.ok t, v) →
      (q.handlers = none → q.settings = s → deliveries q.events = history calls →
        t.report = report) ∧
      (t.report = report →
        ∃ sizes, Recorded q report t.tables t.manifest.runId v.files sizes) := by
  have haggregated (u : Settings) (others : List Call) :
      ((Session.start u).run others).aggregator = (Aggregator.start u).run (history others) :=
    Session.run_aggregator _ others
  rw [haggregated] at hr
  refine ⟨fun t ht => ?_, fun u others other ho => ?_, ?_, fun q w t v hrun => ?_⟩
  · obtain ⟨v, ks, hget, hks⟩ := report_outlined hr t ht
    have hapart := tabled_apart t ht
    refine ⟨v, hget, fun hshort => ?_, hks.rows_of_long hapart⟩
    obtain ⟨rows, hrows⟩ := hks.rows_of_short hapart hshort
    exact ⟨rows, hrows, hks.rows_carry hapart hrows⟩
  · rw [haggregated] at ho
    exact ⟨fun t ht v w rows hv hw => section_of_rows hr ho ht hv hw,
      fun rows => report_of_rows hr ho⟩
  · exact fun root compression w tables v hrun => exports_counted hl hr hrun
  · obtain ⟨-, hreport, hkept⟩ := RunRequest.run_ok hrun
    constructor
    · intro hnone hs hh
      rw [default_report hnone, hs, hh, hr] at hreport
      exact (Option.some.inj hreport).symm
    · rintro rfl
      exact kept_recorded hl hr hkept

namespace DefaultRun

def calls : List Call := [
  .deliver (.completion ⟨.sqlFields, "q", .named "n", 1, 0, 5000000, true⟩),
  .results,
  .deliver (.rows ⟨.named "n", .sqlFields, .named "n", 1, "fetch\n", 3⟩)]

def request : RunRequest where
  events := [
    .payload (.mapping [("type", .str "query"), ("kind", .str "SQL_FIELDS"), ("text", .str "q"),
      ("nodeId", .str "n"), ("id", .int 1), ("startTime", .int 0), ("duration", .int 5000000),
      ("success", .bool true)]),
    .payload (.mapping [("type", .str "queryRows"), ("nodeId", .str "n"),
      ("kind", .str "SQL_FIELDS"), ("queryNodeId", .str "n"), ("id", .int 1),
      ("action", .str "fetch\n"), ("rows", .int 3)])]
  outputRoot := some (Path.ofText "out")
  settings := .default
  handlers := none

theorem delivered : deliveries request.events = history calls := by decide +kernel

theorem succeeds : ∃ t w,
    (request.run (.columnar [])).run.run (.start .usual []) = (.ok t, w) := by
  have hsome : ((request.run (.columnar [])).run.run (.start .usual [])).1.toOption.isSome := by
    decide +kernel
  cases hrun : (request.run (.columnar [])).run.run (.start .usual []) with
  | mk r w =>
    rw [hrun] at hsome
    cases r with
    | error e => cases hsome
    | ok t => exact ⟨t, w, rfl⟩

theorem section_shown : ∃ report v,
    ((Session.start .default).run calls).aggregator.report? = some report ∧
    report.get? "sql" = some v ∧ (entriesOf v).length = 1 ∧ BlocksShort v := by
  have hshown : (((Session.start .default).run calls).aggregator.report?.bind fun report =>
      (report.get? "sql").map fun v => ((entriesOf v).length, blockIntegers v)) =
        some (1, [3]) := by
    decide +kernel
  have hthree : ∀ n ∈ [3], Int.natAbs n < Integer.ceiling := by decide +kernel
  obtain ⟨report, hreport, hshown⟩ := Option.bind_eq_some_iff.mp hshown
  obtain ⟨v, hv, hshown⟩ := Option.map_eq_some_iff.mp hshown
  obtain ⟨hone, hintegers⟩ := Prod.mk.inj hshown
  exact ⟨report, v, hreport, hv, hone, by rw [BlocksShort, hintegers]; exact hthree⟩

end DefaultRun

/-- A run over two events, and the session that it amounts to. -/
theorem tables_of_default_run :
    let a := ((Session.start .default).run DefaultRun.calls).aggregator
    let l := TableLibrary.columnar []
    let q := DefaultRun.request
    l.Lawful ∧ ∃ report v rows, a.report? = some report ∧ report.get? "sql" = some v ∧
      rollupRows v = .ok rows ∧ rows.length = 1 ∧
      List.Forall₂ (Carries rollupSchema) (entriesOf v) rows ∧
      ∃ t w, (q.run l).run.run (.start .usual []) = (.ok t, w) ∧ t.report = report ∧
        Counted report t.tables ∧ ∃ sizes,
          Recorded q report t.tables t.manifest.runId w.files sizes ∧
          Assoc.get? sizes "sql" = some (.int 1) := by
  intro a l q
  have hl : l.Lawful := columnar_lawful []
  have hsql : (⟨"sql", "rollups", rollupSchema, rollupRows⟩ : Tabled) ∈ tabled :=
    List.mem_cons_self
  obtain ⟨report, v, hreport, hv, hone, hshort⟩ := DefaultRun.section_shown
  obtain ⟨hsections, -, -, hruns⟩ := tables_tell_report hl .default DefaultRun.calls hreport
  obtain ⟨_, hget, hmade, -⟩ := hsections _ hsql
  cases hv.symm.trans hget
  obtain ⟨rows, hrows, hcarried⟩ := hmade hshort
  obtain ⟨t, w, hrun⟩ := DefaultRun.succeeds
  obtain ⟨hsame, hkept⟩ := hruns q (.start .usual []) t w hrun
  have hsame := hsame rfl rfl DefaultRun.delivered
  obtain ⟨sizes, hrecorded⟩ := hkept hsame
  obtain ⟨_, hget, hsize⟩ := hrecorded.sections _ hsql
  cases hv.symm.trans hget
  rw [hone] at hsize
  exact ⟨hl, report, v, rows, hreport, hv, hrows, hcarried.length_eq.symm.trans hone, hcarried,
    t, w, hrun, hsame, hrecorded.counted rfl, sizes, hrecorded, hsize⟩

theorem long_rows {e : RollupEntry} {action : String} {n : Int}
    (hrows : e.rows = some [(action, n)]) (hn : Integer.ceiling ≤ n.natAbs) (text : String) :
    ¬ BlocksShort (.ofPairs [(text, e.json)]) := by
  intro hshort
  have hblock : (e.sketch text).entry.get? (Utf16.ofString "rows") = e.rows.map RowCounts.json := by
    rw [Sketch.entry_get, ← get_rows e.properties e.rows]
    rfl
  rw [hrows] at hblock
  have hbelow := (blocks_short_iff _).mp hshort (e.sketch text).entry List.mem_cons_self "rows"
    (by decide) _ hblock n List.mem_cons_self
  exact absurd hn (Nat.not_le.mpr hbelow)

/-- Rows that can be printed one by one, but not their sum. -/
theorem table_of_long_sum :
    let seen : RowsReport := ⟨.named "n", .sqlFields, .named "n", 1, "a", Integer.ceiling - 1⟩
    let done : Completion := ⟨.sqlFields, "q", .named "n", 1, 0, 5000000, true⟩
    let calls : List Call :=
      [.deliver (.rows seen), .deliver (.rows seen), .deliver (.completion done)]
    let a := ((Session.start .default).run calls).aggregator
    (∀ r ∈ history calls, r.Printable) ∧
    ∃ report v, a.report? = some report ∧ report.get? "sql" = some v ∧
      (entriesOf v).length = 1 ∧ rollupRows v = .error .unwritable := by
  intro seen done calls a
  have hcalls : ∀ r ∈ history calls, r.Printable := printable_of_small (by decide +kernel)
  have hshown (n : Int) : ∃ report e,
      ((Session.start .default).run [.deliver (.rows { seen with rows := n }),
        .deliver (.rows { seen with rows := n }),
        .deliver (.completion done)]).aggregator.report? = some report ∧
      report.get? "sql" = some (.ofPairs [("q", RollupEntry.json e)]) ∧
      e.rows = some (RowCounts.block [("a", 0 + (0 + n + n))]) :=
    ⟨_, _, rfl, rfl, rfl⟩
  obtain ⟨report, e, hreport, hsql, hrows⟩ := hshown (Integer.ceiling - 1)
  rw [RowCounts.block, List.mergeSort_singleton] at hrows
  have hlong : ¬ BlocksShort (.ofPairs [("q", e.json)]) := by
    have hone : 1 < Integer.ceiling := by decide +kernel
    exact long_rows hrows (by omega) "q"
  have htabled : (⟨"sql", "rollups", rollupSchema, rollupRows⟩ : Tabled) ∈ tabled :=
    List.mem_cons_self
  have hafter : ((Aggregator.start .default).run (history calls)).report? = some report := hreport
  obtain ⟨_, _, hget, hks⟩ := report_outlined hafter _ htabled
  cases hsql.symm.trans hget
  exact ⟨hcalls, report, _, hreport, hsql, rfl, hks.rows_of_long (tabled_apart _ htabled) hlong⟩

end QueryTelemetry
