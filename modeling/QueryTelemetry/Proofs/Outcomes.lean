import QueryTelemetry.Proofs.Callbacks
import QueryTelemetry.Proofs.Documents
import QueryTelemetry.Run

/-!
# What a run has done that succeeds

A run that succeeds got past each of its stages. It has delivered all records to handlers that took
them, merged what these had to say, written this as the report, made a table of each section that
has one, sized all sections, and was entered into the manifest with what it wrote.
-/

set_option autoImplicit false

namespace QueryTelemetry

def Handler.sections? : Handler → Option Report
  | .aggregator a => a.report?
  | .custom c calls => (c.sections calls).toOption
  | .guarded h => h.sections?

def RunRequest.report? (q : RunRequest) : Option Report :=
  ((q.active.map (·.run (deliveries q.events))).mapM Handler.sections?).map
    (·.foldl mergeSections [])

namespace Work
variable {α β : Type} {w v : Workspace}

theorem bind_ok {x : Work α} {f : α → Work β} {b : β} (h : (x >>= f).run.run w = (.ok b, v)) :
    ∃ a u, x.run.run w = (.ok a, u) ∧ (f a).run.run u = (.ok b, v) := by
  rw [run_bind] at h
  cases hrun : x.run.run w with
  | mk r u =>
    rw [hrun] at h
    cases r with
    | error e => cases h
    | ok a => exact ⟨a, u, rfl, h⟩

theorem map_ok {f : α → Work β} {xs : List α} {ys : List β}
    (h : (xs.mapM f).run.run w = (.ok ys, v)) :
    List.Forall₂ (fun x y => ∃ u t, (f x).run.run u = (.ok y, t)) xs ys := by
  induction xs generalizing ys w with
  | nil =>
    cases h
    exact .nil
  | cons x xs ih =>
    rw [List.mapM_cons] at h
    obtain ⟨y, u, hy, h⟩ := bind_ok h
    obtain ⟨ys, t, hys, h⟩ := bind_ok h
    cases h
    exact .cons ⟨w, u, hy⟩ (ih hys)

/-- Timing a piece of work changes no file and takes no stamp of its own. -/
theorem run_timed (name : String) (x : Work α) (w : Workspace) :
    ∃ u v, u.files = w.files ∧ u.stamps = w.stamps ∧ u.limits = w.limits ∧
      v.files = (x.run.run u).2.files ∧
      (timed (recordTiming name) x).run.run w = ((x.run.run u).1, v) := by
  let u : Workspace := { w with clock := w.clock.tick.2 }
  let t := (x.run.run u).2
  let duration := t.clock.tick.1.sub w.clock.tick.1
  exact ⟨u, { t with clock := t.clock.tick.2, timings := t.timings.record name duration },
    rfl, rfl, rfl, rfl, rfl⟩

theorem timed_ok {sink : Binary64 → Work Unit} {x : Work α} {a : α}
    (h : (timed sink x).run.run w = (.ok a, v)) : ∃ u t, x.run.run u = (.ok a, t) := by
  obtain ⟨start, u, -, h⟩ := bind_ok h
  obtain ⟨r, t, hr, h⟩ := bind_ok h
  obtain ⟨stop, _, -, h⟩ := bind_ok h
  obtain ⟨_, _, -, h⟩ := bind_ok h
  rw [run_of_except] at h
  rw [run_outcome] at hr
  cases h
  exact ⟨u, t, Prod.ext (Except.ok.inj (Prod.mk.inj hr).1) (Prod.mk.inj hr).2⟩

end Work

section Collecting
variable {w v : Workspace}

theorem results_ok {h : Handler} {sections : Report}
    (hrun : h.results.run.run w = (.ok sections, v)) : h.sections? = some sections := by
  induction h with
  | aggregator a =>
    obtain ⟨u, t, hrun⟩ := Work.timed_ok hrun
    cases ha : a.report? with
    | none => rw [ha] at hrun; cases hrun
    | some report => rw [ha] at hrun; cases hrun; exact ha
  | custom c calls =>
    have hs : c.sections calls = .ok sections := congrArg Prod.fst hrun
    rw [Handler.sections?, hs]
    rfl
  | guarded h ih => exact ih hrun

theorem collect_from_ok {hs : List Handler} {report result : Report}
    (hrun : (collectFrom report hs).run.run w = (.ok result, v)) :
    ∃ parts, hs.mapM Handler.sections? = some parts ∧
      result = parts.foldl mergeSections report := by
  induction hs generalizing report w with
  | nil => cases hrun; exact ⟨[], rfl, rfl⟩
  | cons h hs ih =>
    obtain ⟨sections, _, hresults, hrun⟩ := Work.bind_ok hrun
    obtain ⟨_, _, -, hrun⟩ := Work.bind_ok hrun
    obtain ⟨parts, hparts, rfl⟩ := ih hrun
    refine ⟨sections :: parts, ?_, rfl⟩
    rw [List.mapM_cons, results_ok hresults, hparts]
    rfl

theorem replay_ok {es : List Event} {hs : List Handler} {p : Replay}
    (hrun : (replay es hs).run.run w = (.ok p, v)) : (∀ e ∈ es, e.Settles) ∧ ∃ duration,
      p = ⟨hs.map (·.run (deliveries es)), { Summary.empty.after 1 es with duration }⟩ := by
  obtain ⟨_, _, -, hrun⟩ := Work.bind_ok hrun
  obtain ⟨q, _, hq, hrun⟩ := Work.bind_ok hrun
  have hq : Replay.run hs es = .ok q := congrArg Prod.fst hq
  obtain ⟨hsettles, haccepts⟩ := Replay.run_ok hq
  rw [Replay.run_settled hsettles haccepts] at hq
  obtain ⟨_, _, -, hrun⟩ := Work.bind_ok hrun
  obtain ⟨_, _, -, hrun⟩ := Work.bind_ok hrun
  cases hq
  cases hrun
  exact ⟨hsettles, _, rfl⟩

end Collecting

section Exporting
variable {l : TableLibrary} {w v : Workspace} {report : Report} {root : Path} {compression : String}

theorem write_table_ok {path : Path} {schema : Schema} {rows : List Row} {info : TableInfo}
    (h : (writeTable l path schema rows compression).run.run w = (.ok info, v)) :
    ∃ table, l.table schema rows = .ok table ∧ info = ⟨table.length, path.text⟩ := by
  obtain ⟨_, _, -, h⟩ := Work.bind_ok h
  obtain ⟨table, _, htable, h⟩ := Work.bind_ok h
  obtain ⟨_, _, -, h⟩ := Work.bind_ok h
  cases h
  exact ⟨table, congrArg Prod.fst htable, rfl⟩

/-- What comes of one section: nothing if the report has it not. -/
inductive Tabled.Exported (l : TableLibrary) (report : Report) (root : Path) (t : Tabled) :
    List (String × TableInfo) → Prop
  | absent (h : report.get? t.name = none) : Exported l report root t []
  | written {v : Json} {rows table : List Row} (h : report.get? t.name = some v)
      (hr : t.rows v = .ok rows) (ht : l.table t.schema rows = .ok table) :
      Exported l report root t [(t.name, ⟨table.length, (t.path root).text⟩)]

theorem export_table_ok {t : Tabled} {tables : List (String × TableInfo)}
    (h : (exportTable l (fun name => .ok (report.get? name)) root compression t).run.run w =
      (.ok tables, v)) : t.Exported l report root tables := by
  obtain ⟨found, _, hfound, h⟩ := Work.bind_ok h
  cases hfound
  cases hget : report.get? t.name with
  | none =>
    rw [hget] at h
    cases h
    exact .absent hget
  | some v =>
    rw [hget] at h
    obtain ⟨rows, _, hrows, h⟩ := Work.bind_ok h
    obtain ⟨info, _, hinfo, h⟩ := Work.bind_ok h
    obtain ⟨table, htable, rfl⟩ := write_table_ok hinfo
    cases h
    exact .written hget (congrArg Prod.fst hrows) htable

theorem export_tables_ok {tables : List (String × TableInfo)}
    (h : (exportTables l report root compression).run.run w = (.ok tables, v)) :
    ∃ parts, tables = parts.flatten ∧
      List.Forall₂ (Tabled.Exported l report root) tabled parts := by
  obtain ⟨parts, _, hparts, h⟩ := Work.bind_ok h
  cases h
  exact ⟨parts, rfl, (Work.map_ok hparts).imp fun _ _ ⟨_, _, hpart⟩ => export_table_ok hpart⟩

def tablePaths (report : Report) (root : Path) (ts : List Tabled) : List (String × String) :=
  (ts.filter fun t => report.has t.name).map fun t => (t.name, (t.path root).text)

theorem exported_paths {ts : List Tabled} {parts : List (List (String × TableInfo))}
    (h : List.Forall₂ (Tabled.Exported l report root) ts parts) :
    parts.flatten.map (fun p => (p.1, p.2.path)) = tablePaths report root ts := by
  induction h with
  | nil => rfl
  | @cons t part ts parts hpart _ ih =>
    rw [List.flatten_cons, List.map_append, ih, tablePaths, tablePaths, List.filter_cons, Assoc.has]
    cases hpart with
    | absent hget => rw [hget]; rfl
    | written hget _ _ => rw [hget]; rfl

theorem exported_at {ts : List Tabled} {parts : List (List (String × TableInfo))}
    (h : List.Forall₂ (Tabled.Exported l report root) ts parts) :
    ∀ p ∈ parts.flatten, ∃ t ∈ ts, t.name = p.1 ∧ t.Exported l report root [p] := by
  induction h with
  | nil => exact List.forall_mem_nil _
  | @cons t part ts parts hpart _ ih =>
    rw [List.flatten_cons]
    intro p hp
    rcases List.mem_append.mp hp with hp | hp
    · refine ⟨t, List.mem_cons_self, ?_⟩
      cases hpart with
      | absent _ => cases hp
      | written hget hr ht =>
        obtain rfl := List.mem_singleton.mp hp
        exact ⟨rfl, .written hget hr ht⟩
    · obtain ⟨s, hs, hfound⟩ := ih p hp
      exact ⟨s, List.mem_cons_of_mem t hs, hfound⟩

end Exporting

/-! ## What is entered -/

def sizeMember? (p : String × Json) : Option (String × Json) :=
  p.2.size?.map fun n : Nat => (p.1, .int n)

def sizesOf (report : Report) : List (String × Json) := report.filterMap sizeMember?

theorem section_sizes_ok {report : Report} {sizes : List (String × Json)}
    (h : sectionSizes report = .ok sizes) :
    sizes = sizesOf report ∧ ∀ p ∈ report, p.2.size?.isSome := by
  induction report generalizing sizes with
  | nil => cases h; exact ⟨rfl, List.forall_mem_nil _⟩
  | cons p r ih =>
    rw [sectionSizes, List.mapM_cons] at h
    cases hp : p.2.size? with
    | none => rw [hp] at h; cases h
    | some n =>
      rw [hp] at h
      cases hr : sectionSizes r with
      | error e => rw [← sectionSizes, hr] at h; cases h
      | ok rest =>
        rw [← sectionSizes, hr] at h
        cases h
        obtain ⟨hrest, hsized⟩ := ih hr
        have hentry : sizeMember? p = some (p.1, .int n) := by rw [sizeMember?, hp]; rfl
        refine ⟨?_, List.forall_mem_cons.mpr ⟨by rw [hp]; rfl, hsized⟩⟩
        rw [sizesOf, List.filterMap_cons_some hentry, hrest]
        rfl

/-- No table has the name of the report or of another table. -/
theorem artifacts_distinct {document : Written} {tables : List (String × TableInfo)}
    (h : ("report" :: tables.map Prod.fst).Nodup) : artifacts document tables =
      ("report", .text document.path) :: tables.map fun t => (t.1, .text t.2.path) := by
  have hkeys : Assoc.keys (("report", Json.text document.path) ::
      tables.map fun t => (t.1, Json.text t.2.path)) = "report" :: tables.map Prod.fst := by
    rw [Assoc.keys, List.map_cons, List.map_map]
    rfl
  have hmade := Assoc.of_pairs_nodup (hkeys ▸ h)
  rw [Assoc.ofPairs, List.foldl_cons, List.foldl_map] at hmade
  exact hmade

namespace RunRequest

def manifestPath (q : RunRequest) : Path := q.root.child "manifest.json"

def entry (q : RunRequest) (s : Summary) (report : Report) (document : Written)
    (tables : List (String × TableInfo)) : ManifestEntry where
  reportVersion := q.settings.reportVersion
  eventCounts := .ofPairs s.members
  sectionSizes := .ofPairs (sizesOf report)
  artifacts := .ofPairs (artifacts document tables)
  settings := .ofPairs q.settings.members

def enter (q : RunRequest) (s : Summary) (report : Report) (document : Written)
    (tables : List (String × TableInfo)) : Work Persisted := do
  let sizes ← Work.ofExcept (sectionSizes report)
  let manifest ← Manifest.append q.manifestPath {
    reportVersion := q.settings.reportVersion
    eventCounts := .ofPairs s.members
    sectionSizes := .ofPairs sizes
    artifacts := .ofPairs (artifacts document tables)
    settings := .ofPairs q.settings.members }
  return ⟨document, tables, manifest⟩

structure Kept (l : TableLibrary) (q : RunRequest) (s : Summary) (report : Report)
    (kept : Persisted) (files : FileTree) : Prop where
  document : kept.document = ⟨(q.root.child "report.json").text, report.length⟩
  tables : if q.settings.writeTables then
      ∃ w v, (exportTables l report q.root q.settings.compression).run.run w = (.ok kept.tables, v)
    else kept.tables = []
  sizes : ∀ p ∈ report, p.2.size?.isSome
  manifest : ∃ w v, (Manifest.append q.manifestPath
    (q.entry s report kept.document kept.tables)).run.run w = (.ok kept.manifest, v) ∧
      v.files = files

section Runs
variable {l : TableLibrary} {q : RunRequest} {s : Summary} {report : Report} {kept : Persisted}
  {w v : Workspace}

theorem write_report_ok {path : Path} {document : Written}
    (h : (writeReport path (.ofPairs report)).run.run w = (.ok document, v)) :
    document = ⟨path.text, report.length⟩ := by
  obtain ⟨_, _, -, h⟩ := Work.bind_ok h
  obtain ⟨n, _, hn, h⟩ := Work.bind_ok h
  obtain ⟨_, _, -, h⟩ := Work.bind_ok h
  rw [Json.ofPairs, Json.size?, List.length_map] at hn
  cases hn
  cases h
  rfl

theorem enter_ok {document : Written} {tables : List (String × TableInfo)}
    (h : (q.enter s report document tables).run.run w = (.ok kept, v)) :
    kept.document = document ∧ kept.tables = tables ∧ (∀ p ∈ report, p.2.size?.isSome) ∧
      ∃ u x, (Manifest.append q.manifestPath (q.entry s report document tables)).run.run u =
        (.ok kept.manifest, x) ∧ x.files = v.files := by
  obtain ⟨sizes, u, hsizes, h⟩ := Work.bind_ok h
  obtain ⟨manifest, x, hmanifest, h⟩ := Work.bind_ok h
  cases h
  obtain ⟨rfl, hsized⟩ := section_sizes_ok (congrArg Prod.fst hsizes)
  exact ⟨rfl, rfl, hsized, _, _, hmanifest, rfl⟩

theorem persist_ok (h : (persist l q s report).run.run w = (.ok kept, v)) :
    Kept l q s report kept v.files := by
  obtain ⟨document, _, hdocument, h⟩ := Work.bind_ok h
  obtain rfl := write_report_ok hdocument
  split at h
  · rename_i hwrite
    obtain ⟨tables, _, htables, h⟩ := Work.bind_ok h
    obtain ⟨hd, ht, hsized, hmanifest⟩ := enter_ok h
    subst ht
    exact ⟨hd, by rw [if_pos hwrite]; exact ⟨_, _, htables⟩, hsized, hd ▸ hmanifest⟩
  · rename_i hwrite
    obtain ⟨tables, _, htables, h⟩ := Work.bind_ok h
    obtain ⟨hd, ht, hsized, hmanifest⟩ := enter_ok h
    cases htables
    exact ⟨hd, by rw [if_neg hwrite]; exact ht, hsized, hd ▸ ht ▸ hmanifest⟩

theorem work_ok (h : (q.work l).run.run w = (.ok (s, report, kept), v)) :
    (∃ duration, s = { Summary.empty.after 1 q.events with duration }) ∧
    q.report? = some report ∧ Kept l q s report kept v.files := by
  obtain ⟨p, _, hreplay, h⟩ := Work.bind_ok h
  obtain ⟨made, u, hcollect, h⟩ := Work.bind_ok h
  obtain ⟨done, t, hpersist, h⟩ := Work.bind_ok h
  cases h
  obtain ⟨_, _, hreplay⟩ := Work.timed_ok hreplay
  obtain ⟨-, duration, rfl⟩ := replay_ok hreplay
  obtain ⟨_, _, hcollect⟩ := Work.timed_ok hcollect
  obtain ⟨parts, hparts, hmerged⟩ := collect_from_ok hcollect
  obtain ⟨x, y, -, -, -, hfiles, hrun⟩ :=
    Work.run_timed "write_seconds" (persist l q _ report) u
  obtain ⟨hdone, rfl⟩ := Prod.mk.inj (hrun.symm.trans hpersist)
  refine ⟨⟨duration, rfl⟩, ?_, hfiles ▸ persist_ok (Prod.ext hdone rfl)⟩
  rw [report?, hparts, hmerged]
  rfl

/-- What is kept stays as it is until the run has told of it. -/
theorem run_ok {t : Telemetry} (h : (q.run l).run.run w = (.ok t, v)) :
    (∃ duration, t.summary = { Summary.empty.after 1 q.events with duration }) ∧
    q.report? = some t.report ∧
    Kept l q t.summary t.report ⟨t.document, t.tables, t.manifest⟩ v.files := by
  obtain ⟨_, _, -, h⟩ := Work.bind_ok h
  obtain ⟨_, _, -, h⟩ := Work.bind_ok h
  obtain ⟨_, _, -, h⟩ := Work.bind_ok h
  obtain ⟨r, u, hwork, h⟩ := Work.bind_ok h
  rw [Work.run_outcome] at hwork
  obtain ⟨hdone, rfl⟩ := Prod.mk.inj hwork
  rcases r with e | ⟨s, report, kept⟩
  · obtain ⟨_, _, -, h⟩ := Work.bind_ok h
    cases h
  · cases h
    have hkept := work_ok (Prod.ext (Except.ok.inj hdone) rfl)
    exact hkept

end Runs

section Parts
variable {l : TableLibrary} {q : RunRequest} {s : Summary} {report : Report} {kept : Persisted}
  {files : FileTree}

theorem Kept.paths (h : Kept l q s report kept files) :
    kept.tables.map (fun p => (p.1, p.2.path)) =
      if q.settings.writeTables then tablePaths report q.root tabled else [] := by
  have htables := h.tables
  split at htables
  · rename_i hwrite
    obtain ⟨_, _, hrun⟩ := htables
    obtain ⟨parts, hparts, hall⟩ := export_tables_ok hrun
    rw [if_pos hwrite, hparts, exported_paths hall]
  · rename_i hwrite
    rw [if_neg hwrite, htables]
    rfl

theorem Kept.artifacts (h : Kept l q s report kept files) :
    artifacts kept.document kept.tables = ("report", .text (q.root.child "report.json").text) ::
      (if q.settings.writeTables then tablePaths report q.root tabled else []).map fun t =>
        (t.1, .text t.2) := by
  have hnames : ("report" :: tabled.map Tabled.name).Nodup := by decide
  have hsome : (kept.tables.map Prod.fst).Sublist (tabled.map Tabled.name) := by
    have hfirst : kept.tables.map Prod.fst =
        (kept.tables.map fun p => (p.1, p.2.path)).map Prod.fst := by
      rw [List.map_map]
      rfl
    rw [hfirst, h.paths]
    split
    · rw [tablePaths, List.map_map]
      exact List.filter_sublist.map Tabled.name
    · exact List.nil_sublist _
  rw [artifacts_distinct (hnames.sublist (hsome.cons_cons "report")), h.document, ← h.paths,
    List.map_map]
  rfl

end Parts

end RunRequest

end QueryTelemetry
