import QueryTelemetry.Manifest
import QueryTelemetry.Replay
import QueryTelemetry.Report.Columns

/-!
# Runs

A run replays a stream into fresh handlers, merges their sections into one report, writes the
report and its tables, and enters itself into the manifest last, so a run that fails is not
in it.
-/

set_option autoImplicit false

namespace QueryTelemetry

def warnClashes (report sections : Report) : Work Unit :=
  sections.forM fun p =>
    if report.has p.1 then
      Work.logLine .warning "report.pipeline"
        ("Section " ++ p.1 ++ " produced by several handlers")
    else pure ()

def mergeSections (report sections : Report) : Report :=
  sections.foldl (fun m p => m.put p.1 p.2) report

def collectFrom (report : Report) : List Handler → Work Report
  | [] => return report
  | h :: hs => do
    let sections ← h.results
    warnClashes report sections
    collectFrom (mergeSections report sections) hs

def collect (handlers : List Handler) : Work Report := collectFrom [] handlers

structure RunRequest where
  events : List Event
  outputRoot : Option Path
  settings : Settings
  handlers : Option (List Handler)

structure Telemetry where
  report : Report
  summary : Summary
  document : Written
  tables : List (String × TableInfo)
  manifest : ManifestInfo
  timings : Timings
  duration : Binary64

namespace RunRequest

def root (q : RunRequest) : Path := q.outputRoot.getD q.settings.outputRoot

def active (q : RunRequest) : List Handler :=
  q.handlers.getD [.aggregator (.start q.settings)]

end RunRequest

def sectionSizes (report : Report) : Except Failure (List (String × Json)) :=
  report.mapM fun p =>
    match p.2.size? with
    | some n => .ok (p.1, .int n)
    | none => .error .wrongType

def artifacts (document : Written) (tables : List (String × TableInfo)) : List (String × Json) :=
  tables.foldl (fun m p => Assoc.put m p.1 (.text p.2.path)) [("report", .text document.path)]

structure Persisted where
  document : Written
  tables : List (String × TableInfo)
  manifest : ManifestInfo

def persist (l : TableLibrary) (q : RunRequest) (s : Summary) (report : Report) :
    Work Persisted := do
  let document ← writeReport (q.root.child "report.json") (.ofPairs report)
  let tables ←
    if q.settings.writeTables then exportTables l report q.root q.settings.compression
    else pure []
  let sizes ← Work.ofExcept (sectionSizes report)
  let manifest ← Manifest.append (q.root.child "manifest.json") {
    reportVersion := q.settings.reportVersion
    eventCounts := .ofPairs s.members
    sectionSizes := .ofPairs sizes
    artifacts := .ofPairs (artifacts document tables)
    settings := .ofPairs q.settings.members }
  return ⟨document, tables, manifest⟩

def completeMessage (s : Summary) (sections : Nat) (duration : Binary64) (t : Timings) : String :=
  "Report complete: events=" ++ toString s.delivered ++ " skipped=" ++ toString s.skipped ++
    " sections=" ++ toString sections ++ " in " ++ duration.fixed 2 ++
    "s (replay " ++ (t.total "replay_seconds").fixed 2 ++
    "s, build " ++ (t.total "build_seconds").fixed 2 ++
    "s, write " ++ (t.total "write_seconds").fixed 2 ++ "s)"

def RunRequest.work (l : TableLibrary) (q : RunRequest) : Work (Summary × Report × Persisted) := do
  let p ← Work.timed (Work.recordTiming "replay_seconds") (replay q.events q.active)
  let report ← Work.timed (Work.recordTiming "build_seconds") (collect p.handlers)
  let kept ← Work.timed (Work.recordTiming "write_seconds") (persist l q p.summary report)
  return (p.summary, report, kept)

def RunRequest.run (l : TableLibrary) (q : RunRequest) : Work Telemetry := do
  modify fun w => { w with timings := [] }
  Work.logLine .info "report.pipeline"
    ("Starting report run into " ++ q.root.text ++ " (" ++ toString q.active.length ++ " handlers)")
  let start ← Work.tick
  match ← Work.outcome (q.work l) with
  | .error e =>
    Work.logLine .error "report.pipeline" ("Report run into " ++ q.root.text ++ " failed")
    throw e
  | .ok (summary, report, kept) =>
    let duration := (← Work.tick).sub start
    let timings := (← get).timings
    Work.logLine .info "report.pipeline" (completeMessage summary report.length duration timings)
    return ⟨report, summary, kept.document, kept.tables, kept.manifest, timings, duration⟩

def Telemetry.members (t : Telemetry) : List (String × Json) := [
  ("report", .ofPairs t.report),
  ("events", .ofPairs t.summary.members),
  ("json", .ofPairs [("path", .text t.document.path), ("sections", .int t.document.size)]),
  ("parquet", .ofPairs (t.tables.map fun p => (p.1, p.2.json))),
  ("manifest", .ofPairs [("path", .text t.manifest.path), ("run_id", .int t.manifest.runId)]),
  ("timings", .ofPairs (t.timings.map fun p => (p.1, .float p.2))),
  ("duration_seconds", .float t.duration)]

end QueryTelemetry
