import QueryTelemetry.Json.Parser
import QueryTelemetry.Workspace

/-!
# Documents on file

A document is written to a file whose folders are made first. The file is emptied before the
first character is printed, so a value that cannot be printed to its end leaves the front of
the text behind. A manifest lists the runs into one folder. Text that is no document, and a null
document, count as no manifest at all. A new run is checked against the document step by step before
the file is written, so a document of another form is refused and stays as it was.
-/

set_option autoImplicit false

namespace QueryTelemetry

structure Written where
  path : String
  size : Nat

def writeText (path : Path) (text : String) : Work Unit :=
  Work.changeFiles (·.write path (.bytes text.toUTF8))

def writeDocument (path : Path) (v : Json) : Work Unit := do
  Work.makeFolders path.parent
  let printed := v.pretty
  writeText path printed.text
  if printed.complete then return () else throw .unwritable

theorem run_write_document (path : Path) (v : Json) (w : Workspace) :
    (writeDocument path v).run.run w =
      let made := w.files.makeFolders w.limits.folders path.parent
      match made.1 with
      | .error e => (.error (.file e), { w with files := made.2 })
      | .ok _ =>
        match made.2.write path (.bytes v.pretty.text.toUTF8) with
        | .error e => (.error (.file e), { w with files := made.2 })
        | .ok u => (if v.pretty.complete then .ok () else .error .unwritable,
            { w with files := u }) := by
  unfold writeDocument
  rw [Work.run_bind, Work.run_make_folders]
  dsimp only
  rcases w.files.makeFolders w.limits.folders path.parent with ⟨_ | _, t⟩
  · rfl
  · change (writeText path v.pretty.text >>= fun _ =>
      if v.pretty.complete then return () else throw .unwritable).run.run { w with files := t } = _
    unfold writeText
    rw [Work.run_bind, Work.run_change_files]
    dsimp only
    cases t.write path (.bytes v.pretty.text.toUTF8) with
    | error e => rfl
    | ok u =>
      cases v.pretty.complete <;> rfl

def writeReport (path : Path) (v : Json) : Work Written := do
  writeDocument path v
  let n ← Work.ofOption .wrongType v.size?
  Work.logLine .info "report.writer"
    ("Wrote report with " ++ toString n ++ " sections to " ++ path.text)
  return ⟨path.text, n⟩

structure ManifestEntry where
  reportVersion : Int
  eventCounts : Json
  sectionSizes : Json
  artifacts : Json
  settings : Json

structure ManifestInfo where
  path : String
  runId : Nat

namespace Manifest

def contentText : Content → Except Failure String
  | .bytes b =>
    match String.fromUTF8? b with
    | some s => .ok s
    | none => .error .invalidUtf8
  | .table _ => .error .invalidUtf8

theorem content_text (s : String) : contentText (.bytes s.toUTF8) = .ok s := by
  have h : String.fromUTF8? s.toUTF8 = some s := dif_pos s.isValidUTF8
  rw [contentText, h]

def load? (path : Path) : Work (Option Json) := do
  if !(← Work.askFiles (·.present path)) then return none
  let content ← Work.askFiles (·.read path)
  let text ← Work.ofExcept (contentText content)
  match Json.parse (← get).limits.nesting text with
  | .ok .null => return none
  | .ok v => return some v
  | .error (.longInteger n) => throw (.longInteger n)
  | .error .tooDeep => throw .tooDeep
  | .error .corrupt => do
    Work.logLine .warning "report.manifest"
      ("Manifest at " ++ path.text ++ " is corrupt; starting fresh")
    return none

abbrev Members := Assoc Utf16 Json

def key (s : String) : Utf16 := Utf16.ofString s

def fresh (version : Int) (now : String) : Members :=
  [(key "report_version", .int version), (key "created_at", .text now), (key "runs", .arr [])]

def runEntry (e : ManifestEntry) (runId : Nat) (now : String) : Json :=
  .ofPairs [
    ("run_id", .int runId),
    ("created_at", .text now),
    ("event_counts", e.eventCounts),
    ("section_sizes", e.sectionSizes),
    ("settings", e.settings),
    ("artifacts", e.artifacts)]

def runs (m : Members) : Except Failure (List Json) :=
  match m.get? (key "runs") with
  | none => .error (.missingKey "runs")
  | some (.arr rs) => .ok rs
  | some v => if v.size?.isSome then .error .unsupported else .error .wrongType

def extend (m : Members) (e : ManifestEntry) (now : String) : Except Failure (Members × Nat) := do
  let m := (m.put (key "report_version") (.int e.reportVersion)).put (key "updated_at") (.text now)
  let rs ← runs m
  let runId := rs.length + 1
  return (m.put (key "runs") (.arr (rs ++ [runEntry e runId now])), runId)

def membersOf (e : ManifestEntry) (now : String) : Option Json → Except Failure Members
  | none => .ok (fresh e.reportVersion now)
  | some (.obj m) => .ok m
  | some _ => .error .wrongType

def append (path : Path) (e : ManifestEntry) : Work ManifestInfo := do
  let document ← load? path
  let now ← Work.stamp
  let m ← Work.ofExcept (membersOf e now document)
  let (m, runId) ← Work.ofExcept (extend m e now)
  writeDocument path (.obj m)
  Work.logLine .info "report.manifest"
    ("Updated manifest at " ++ path.text ++ " with run #" ++ toString runId)
  return ⟨path.text, runId⟩

end Manifest

end QueryTelemetry
