import QueryTelemetry.Proofs.Columnar
import QueryTelemetry.Proofs.RunEntries

/-!
# The manifest as a history

Runs into one folder, one after the other, each from the workspace that the run before it left,
whether that run failed or not. In the end the manifest lists the runs that succeeded, all of them
and no others, in their order. Between two runs nobody else writes. A table whose path is taken for
the address of the manifest can break the list, and it does so even where the table cannot be
stored; so can a number that is too long to be printed.
-/

set_option autoImplicit false

namespace QueryTelemetry

/-! ## What a run that succeeded is listed with -/

namespace Telemetry

def counts (t : Telemetry) : List (String × Json) := [
  ("queries", .int t.summary.queries),
  ("reads", .int t.summary.reads),
  ("rows", .int t.summary.rows),
  ("properties", .int t.summary.properties),
  ("skipped", .int t.summary.skipped),
  ("delivered",
    .int (t.summary.queries + t.summary.reads + t.summary.rows + t.summary.properties)),
  ("duration_seconds", .float t.summary.duration)]

def sizes (t : Telemetry) : List (String × Json) := t.report.filterMap fun p =>
  match p.2 with
  | .obj members => some (p.1, .int members.length)
  | .arr items => some (p.1, .int items.length)
  | .str s => some (p.1, .int (Utf16.codePoints s).length)
  | _ => none

end Telemetry

def tableFolders : List (String × String) := [("sql", "rollups"), ("topSlowSql", "top_slow"),
  ("scan", "rollups"), ("topSlowScan", "top_slow"), ("index", "rollups"),
  ("topSlowIndex", "top_slow")]

namespace RunRequest

def written (q : RunRequest) (t : Telemetry) : List (String × Json) :=
  let tables := if q.settings.writeTables then
      tableFolders.filter fun f => (t.report.map Prod.fst).contains f.1
    else []
  ("report", .text (q.root.child "report.json").text) :: tables.map fun f =>
    (f.1, .text ((q.root.child f.2).child (f.1 ++ ".parquet")).text)

def listed (q : RunRequest) (t : Telemetry) (runId : Nat) (time : String) : Json := .ofPairs [
  ("run_id", .int runId),
  ("created_at", .text time),
  ("event_counts", .ofPairs t.counts),
  ("section_sizes", .ofPairs t.sizes),
  ("settings", .ofPairs [
    ("top_slow_size", .int q.settings.topSlowSize.val),
    ("scope_rows_by_kind", .bool q.settings.rowsByKind),
    ("output_root", .text q.settings.outputRoot.text),
    ("parquet_compression", .text q.settings.compression),
    ("write_parquet", .bool q.settings.writeTables),
    ("report_version", .int q.settings.reportVersion)]),
  ("artifacts", .ofPairs (q.written t))]

section Listing
variable {l : TableLibrary} {q : RunRequest} {t : Telemetry} {w v : Workspace}

theorem sizes_of_report (t : Telemetry) : sizesOf t.report = t.sizes := by
  refine congrArg (List.filterMap · t.report) (funext fun p => ?_)
  obtain ⟨name, value⟩ := p
  cases value <;> rfl

theorem table_paths_folders (report : Report) (root : Path) :
    tablePaths report root tabled =
      (tableFolders.filter fun f => (report.map Prod.fst).contains f.1).map fun f =>
        (f.1, ((root.child f.2).child (f.1 ++ ".parquet")).text) := by
  have hfolders : tableFolders = tabled.map fun s => (s.name, s.folder) := rfl
  have hhas (s : Tabled) : report.has s.name = (report.map Prod.fst).contains s.name := by
    rw [Bool.eq_iff_iff, Assoc.has_iff, List.contains_iff_mem]
    rfl
  rw [tablePaths, hfolders, List.filter_map, List.map_map]
  simp only [hhas]
  rfl

/-- A run is entered with what it returned. -/
theorem entry_listed (h : (q.run l).run.run w = (.ok t, v)) (runId : Nat) (time : String) :
    Manifest.runEntry (q.entered w t).entry runId time = q.listed t runId time := by
  obtain ⟨-, -, hkept⟩ := run_ok h
  have hwritten : artifacts t.document t.tables = q.written t := by
    refine hkept.artifacts.trans ?_
    rw [written]
    split
    · rw [table_paths_folders, List.map_map]
      rfl
    · rfl
  rw [Manifest.runEntry, entered, entry, sizes_of_report, hwritten]
  rfl

end Listing

end RunRequest

/-! ## Runs one after the other -/

structure Attempt where
  request : RunRequest
  before : Workspace
  result : Except Failure Telemetry
  after : Workspace

namespace Attempt

def make (l : TableLibrary) (q : RunRequest) (w : Workspace) : Attempt :=
  ⟨q, w, ((q.run l).run.run w).1, ((q.run l).run.run w).2⟩

def time (a : Attempt) : String := "T" ++ toString (a.before.stamps + 1)

def success? (a : Attempt) : Option (Attempt × Telemetry) :=
  match a.result with
  | .ok t => some (a, t)
  | .error _ => none

def entered? (a : Attempt) : Option Entered :=
  a.success?.map fun p => p.1.request.entered p.1.before p.2

end Attempt

section Attempts
variable (l : TableLibrary)

def attempts : Workspace → List RunRequest → List Attempt
  | _, [] => []
  | w, q :: qs => .make l q w :: attempts (Attempt.make l q w).after qs

def runAll (w : Workspace) (qs : List RunRequest) : Workspace :=
  qs.foldl (fun w q => (Attempt.make l q w).after) w

def successes (w : Workspace) (qs : List RunRequest) : List (Attempt × Telemetry) :=
  (attempts l w qs).filterMap Attempt.success?

def enteredBy (w : Workspace) (qs : List RunRequest) : List Entered :=
  (attempts l w qs).filterMap Attempt.entered?

theorem entered_by_cons (w : Workspace) (q : RunRequest) (qs : List RunRequest) :
    enteredBy l w (q :: qs) =
      (Attempt.make l q w).entered?.toList ++ enteredBy l (Attempt.make l q w).after qs := by
  rw [enteredBy, attempts, List.filterMap_cons]
  cases (Attempt.make l q w).entered? <;> rfl

theorem attempts_requests (w : Workspace) (qs : List RunRequest) :
    (attempts l w qs).map Attempt.request = qs := by
  induction qs generalizing w with
  | nil => rfl
  | cons q qs ih =>
    rw [attempts, List.map_cons, ih]
    rfl

theorem entered_by_length (w : Workspace) (qs : List RunRequest) :
    (enteredBy l w qs).length ≤ qs.length := by
  have hlength := congrArg List.length (attempts_requests l w qs)
  rw [List.length_map] at hlength
  exact (List.length_filterMap_le _ _).trans hlength.le

theorem entered_by_successes (w : Workspace) (qs : List RunRequest) :
    enteredBy l w qs = (successes l w qs).map fun p => p.1.request.entered p.1.before p.2 := by
  rw [successes, List.map_filterMap]
  rfl

theorem attempts_made (w : Workspace) (qs : List RunRequest) : ∀ a ∈ attempts l w qs,
    (a.request.run l).run.run a.before = (a.result, a.after) := by
  induction qs generalizing w with
  | nil => exact List.forall_mem_nil _
  | cons q qs ih => exact List.forall_mem_cons.mpr ⟨rfl, ih _⟩

theorem success_made {w : Workspace} {qs : List RunRequest} {p : Attempt × Telemetry}
    (h : p ∈ successes l w qs) : p.1.request ∈ qs ∧
      (p.1.request.run l).run.run p.1.before = (.ok p.2, p.1.after) := by
  obtain ⟨a, ha, hp⟩ := List.mem_filterMap.mp h
  have hrun := attempts_made l w qs a ha
  rw [Attempt.success?] at hp
  split at hp
  · rename_i t ht
    cases hp
    refine ⟨?_, by rw [hrun, ht]⟩
    rw [← attempts_requests l w qs]
    exact List.mem_map_of_mem ha
  · cases hp

theorem numbered_successes (w : Workspace) (qs : List RunRequest) :
    Manifest.numbered (enteredBy l w qs) =
      ((successes l w qs).zipIdx 1).map fun p => p.1.1.request.listed p.1.2 p.2 p.1.1.time := by
  rw [Manifest.numbered, entered_by_successes, List.zipIdx_map, List.map_map]
  refine List.map_congr_left fun p hp => ?_
  exact RunRequest.entry_listed (success_made l (List.fst_mem_of_mem_zipIdx hp)).2 p.2 p.1.1.time

end Attempts

/-- One run adds at most one entry, and a run that fails changes nothing. -/
structure Advances (path : Path) (es : List Entered) (a : Attempt) : Prop where
  failed : ∀ e, a.result = .error e → a.before.files.Keeps path a.after.files
  sound : ∀ x ∈ a.entered?, x.entry.Sound
  told : Manifest.Tells path (es ++ a.entered?.toList) a.after.files

section Histories
variable {l : TableLibrary} (hl : l.Lawful)
include hl

theorem attempt_advances {q : RunRequest} (haside : q.Aside) (hq : q.Printable) {w : Workspace}
    {es : List Entered} (ht : Manifest.Tells q.manifestPath es w.files)
    (hs : ∀ x ∈ es, x.entry.Sound) (hn : es.length + 1 < Integer.ceiling) :
    Advances q.manifestPath es (.make l q w) := by
  have hrun := RunRequest.run_tells hl haside hq ht hs hn
  unfold Work.Leaves at hrun
  unfold Attempt.make
  cases hr : (q.run l).run.run w with
  | mk r v =>
    rw [hr] at hrun
    cases r with
    | error e =>
      refine ⟨fun _ _ => hrun, fun x hx => (by cases hx), ?_⟩
      exact (List.append_nil es).symm ▸ ht.kept hrun
    | ok t =>
      refine ⟨fun e he => (by cases he), fun x hx => ?_, hrun.2⟩
      cases hx
      exact hrun.1

theorem attempts_advance {root : Path} {qs : List RunRequest} (hroot : ∀ q ∈ qs, q.root = root)
    (haside : ∀ q ∈ qs, q.Aside) (hq : ∀ q ∈ qs, q.Printable) {w : Workspace} {es : List Entered}
    (ht : Manifest.Tells (root.child "manifest.json") es w.files) (hs : ∀ x ∈ es, x.entry.Sound)
    (hn : es.length + qs.length < Integer.ceiling) :
    (∀ a ∈ attempts l w qs, ∀ e, a.result = .error e →
      a.before.files.Keeps (root.child "manifest.json") a.after.files) ∧
    (∀ x ∈ enteredBy l w qs, x.entry.Sound) ∧
    Manifest.Tells (root.child "manifest.json") (es ++ enteredBy l w qs) (runAll l w qs).files := by
  induction qs generalizing w es with
  | nil =>
    have hnone : enteredBy l w [] = [] := rfl
    rw [hnone, List.append_nil]
    exact ⟨fun _ ha => absurd ha List.not_mem_nil, fun _ hx => absurd hx List.not_mem_nil, ht⟩
  | cons q qs ih =>
    -- the later runs start from the workspace and the entries that the first one leaves
    have hfirst : q ∈ q :: qs := List.mem_cons_self
    have hlater : ∀ r ∈ qs, r ∈ q :: qs := fun r hr => List.mem_cons_of_mem q hr
    rw [List.length_cons] at hn
    obtain rfl := hroot q hfirst
    have hstep := attempt_advances hl (haside q hfirst) (hq q hfirst) ht hs (by omega)
    have hsofar : ∀ x ∈ es ++ (Attempt.make l q w).entered?.toList, x.entry.Sound := by
      intro x hx
      rcases List.mem_append.mp hx with hx | hx
      · exact hs x hx
      · exact hstep.sound x (Option.mem_toList.mp hx)
    have hlength : (es ++ (Attempt.make l q w).entered?.toList).length + qs.length <
        Integer.ceiling := by
      have hone := Option.length_toList_le (o := (Attempt.make l q w).entered?)
      rw [List.length_append]
      omega
    obtain ⟨hfailed, hsound, htold⟩ := ih (fun r hr => hroot r (hlater r hr))
      (fun r hr => haside r (hlater r hr)) (fun r hr => hq r (hlater r hr)) hstep.told hsofar
      hlength
    rw [entered_by_cons, ← List.append_assoc]
    refine ⟨?_, ?_, htold⟩
    · intro a ha
      rcases List.mem_cons.mp ha with rfl | ha
      · exact hstep.failed
      · exact hfailed a ha
    · intro x hx
      rcases List.mem_append.mp hx with hx | hx
      · exact hstep.sound x (Option.mem_toList.mp hx)
      · exact hsound x hx

/-- Runs into one folder that holds no document yet, or a null one, whatever the files, the handlers
and the tables do to them. A run that fails leaves the manifest as it was, for whoever could read
it. If any run succeeds, what is loaded in the end lists the runs that succeeded by their numbers,
with the version and the time of the last of them and the time of the first. -/
theorem manifest_lists_successes (root : Path) (w : Workspace) (qs : List RunRequest)
    (hroot : ∀ q ∈ qs, q.root = root)
    (hstart : Manifest.Blank (root.child "manifest.json") w.files)
    (haside : ∀ q ∈ qs, q.Aside) (hshort : ∀ q ∈ qs, q.Printable)
    (hfew : qs.length < Integer.ceiling) :
    let path := root.child "manifest.json"
    (∀ a ∈ attempts l w qs, ∀ e, a.result = .error e →
      a.after.files.contentAt? path = a.before.files.contentAt? path ∧
      ∀ c, a.before.files.read path = .ok c → a.after.files.read path = .ok c) ∧
    ∀ first last, (successes l w qs).head? = some first → (successes l w qs).getLast? = some last →
      (Manifest.load? path).run.run (runAll l w qs) = (.ok (some (.ofPairs [
        ("report_version", .int last.1.request.settings.reportVersion),
        ("created_at", .text first.1.time),
        ("runs", .arr (((successes l w qs).zipIdx 1).map fun p =>
          p.1.1.request.listed p.1.2 p.2 p.1.1.time)),
        ("updated_at", .text last.1.time)])), runAll l w qs) := by
  intro path
  have hnone : Manifest.Tells path [] w.files := hstart
  obtain ⟨hfailed, hsound, htold⟩ := attempts_advance hl hroot haside hshort hnone
    (fun _ hx => absurd hx List.not_mem_nil) (by simpa using hfew)
  constructor
  · intro a ha e he
    have hkeeps := hfailed a ha e he
    exact ⟨hkeeps.content, fun c hc => hkeeps.read hc⟩
  · intro first last hfirst hlast
    have hlength := (entered_by_length l w qs).trans_lt hfew
    have hdocument : Manifest.document (enteredBy l w qs) = some (.ofPairs [
        ("report_version", .int last.1.request.settings.reportVersion),
        ("created_at", .text first.1.time),
        ("runs", .arr (Manifest.numbered (enteredBy l w qs))),
        ("updated_at", .text last.1.time)]) := by
      rw [Manifest.document, entered_by_successes, List.head?_map, List.getLast?_map, hfirst, hlast]
      rfl
    rw [List.nil_append, Manifest.Tells, hdocument] at htold
    have hroom : 4 ≤ (runAll l w qs).limits.nesting := le_trans (by decide) (Limits.enough _)
    have hwithin : ∀ x ∈ enteredBy l w qs, x.entry.Within 1 := fun x hx => (hsound x hx).within
    have hdoc := (Manifest.sound_document hwithin hlength _ hdocument).mono hroom
    rw [← numbered_successes]
    exact Manifest.load_document hdoc (fun h => by cases h) htold

end Histories

/-! ## Runs that fail around one that succeeds -/

namespace FailingRuns

def root : Path := Path.ofText "out"

def completed : Event := .payload (.mapping [("type", .str "query"),
  ("kind", .str "SQL_FIELDS"), ("text", .str "q"), ("nodeId", .str "n"), ("id", .int 1),
  ("startTime", .int 0), ("duration", .int 5000000), ("success", .bool true)])

/-- Takes one call. -/
def full : Custom := .ofState (0 : Nat)
  (fun seen _ => if seen = 1 then some (.raised "full") else none) (fun seen _ => seen + 1)
  fun seen => .ok [("seen", .arr [.int seen])]

def unsized : RunRequest := ⟨[], some root, .default, some [.fixed [("calls", .int 5)]]⟩

def done : RunRequest := ⟨[completed, .payload (.list [])], some root, .default, none⟩

def raising : RunRequest := ⟨[completed, completed], some root, .default, some [.custom full []]⟩

def refused : RunRequest := ⟨[], none, { Settings.default with compression := "nope" },
  some [.fixed [("sql", .obj [])]]⟩

def all : List RunRequest := [unsized, done, raising, refused]

def library : TableLibrary := .columnar []

def start : Workspace := .start .usual []

theorem common_root : ∀ q ∈ all, q.root = root := by decide +kernel

theorem aside : ∀ q ∈ all, q.Aside := by
  have hfree : ∀ s ∈ tabled, ':' ∉ (s.path root).text.toList ∧
      (s.path root).text.toList.head? ≠ some '~' := by decide
  intro q hq _ s hs
  rw [common_root q hq]
  exact Path.plain_of_free (hfree s hs).1 (hfree s hs).2

theorem printable : ∀ q ∈ all, q.Printable := by
  simp only [all, List.forall_mem_cons]
  refine ⟨?_, ?_, ?_, ?_, by simp⟩ <;> apply RunRequest.printable_of_sizes <;> decide +kernel

theorem results : (attempts library start all).map (fun a => a.result.toOption.isSome) =
    [false, true, false, false] := by
  decide +kernel

theorem only_default {q : RunRequest} (hq : q ∈ all) (h : q.handlers.isNone = true) :
    q = done := by
  simp only [all, List.mem_cons, List.not_mem_nil, or_false] at hq
  rcases hq with rfl | rfl | rfl | rfl
  · cases h
  · rfl
  · cases h
  · cases h

theorem only_done : ∃ a t, successes library start all = [(a, t)] ∧ a.request = done ∧
    a.time = "T1" ∧ t.summary.queries = 1 ∧ t.summary.skipped = 1 := by
  have hfields : (successes library start all).map (fun p => (p.1.time,
      p.1.request.handlers.isNone, p.2.summary.queries, p.2.summary.skipped)) =
        [("T1", true, 1, 1)] := by
    decide +kernel
  obtain ⟨⟨a, t⟩, hone, hfields⟩ := List.map_eq_singleton_iff.mp hfields
  simp only [Prod.mk.injEq] at hfields
  obtain ⟨htime, hdefault, hqueries, hskipped⟩ := hfields
  have hmem := (success_made library (hone ▸ List.mem_singleton_self (a, t))).1
  exact ⟨a, t, hone, only_default hmem hdefault, htime, hqueries, hskipped⟩

end FailingRuns

/-- One run that succeeds, among one whose sections cannot be sized, one whose handler fails at the
second event, and one whose tables cannot be stored. -/
theorem history_around_failures :
    let path := FailingRuns.root.child "manifest.json"
    let qs := FailingRuns.all
    let w := FailingRuns.start
    let l := FailingRuns.library
    l.Lawful ∧ (∀ q ∈ qs, q.root = FailingRuns.root) ∧ Manifest.Blank path w.files ∧
    (∀ q ∈ qs, q.Aside) ∧ (∀ q ∈ qs, q.Printable) ∧ qs.length < Integer.ceiling ∧
    (attempts l w qs).map (fun a => a.result.toOption.isSome) = [false, true, false, false] ∧
    (∀ a ∈ attempts l w qs, ∀ e, a.result = .error e →
      a.after.files.contentAt? path = a.before.files.contentAt? path) ∧
    ∃ t, t.summary.queries = 1 ∧ t.summary.skipped = 1 ∧
      (Manifest.load? path).run.run (runAll l w qs) =
        (.ok (some (.ofPairs [("report_version", .int 1), ("created_at", .text "T1"),
          ("runs", .arr [FailingRuns.done.listed t 1 "T1"]), ("updated_at", .text "T1")])),
          runAll l w qs) := by
  intro path qs w l
  have hl : l.Lawful := columnar_lawful []
  have hstart : Manifest.Blank path w.files := fun c text room v hc => by cases hc
  have hfew : qs.length < Integer.ceiling := by decide +kernel
  obtain ⟨hkept, hloaded⟩ := manifest_lists_successes hl FailingRuns.root w qs
    FailingRuns.common_root hstart FailingRuns.aside FailingRuns.printable hfew
  obtain ⟨a, t, hone, hrequest, htime, hqueries, hskipped⟩ := FailingRuns.only_done
  refine ⟨hl, FailingRuns.common_root, hstart, FailingRuns.aside, FailingRuns.printable, hfew,
    FailingRuns.results, fun a ha e he => (hkept a ha e he).1, t, hqueries, hskipped, ?_⟩
  have hload := hloaded (a, t) (a, t) (by rw [hone]; rfl) (by rw [hone]; rfl)
  rw [hone, List.zipIdx_singleton, List.map_singleton] at hload
  dsimp only at hload
  rw [htime, hrequest] at hload
  exact hload

/-- A table whose address leads to the manifest empties it before it turns out that the table
cannot be stored. The history of the run before is lost, and where there was no manifest there is
one now. -/
theorem history_lost_to_address :
    let root := Path.ofText "local:m%2Fmanifest.json?q/../m"
    let path := root.child "manifest.json"
    let done : RunRequest :=
      ⟨[], some root, { Settings.default with writeTables := false }, some []⟩
    let refused : RunRequest :=
      ⟨[], some root, { Settings.default with compression := "nope" },
        some [.fixed [("sql", .obj [])]]⟩
    let w := Workspace.start .usual []
    let l := TableLibrary.columnar []
    let v := runAll l w [done, refused]
    l.Lawful ∧ Manifest.Blank path w.files ∧ (∀ q ∈ [done, refused], q.root = root ∧ q.Printable) ∧
    ((refused.run l).run.run w).1.toOption.isNone ∧ (w.files.contentAt? path).isNone ∧
    (((refused.run l).run.run w).2.files.contentAt? path).isSome ∧
    (successes l w [done, refused]).length = 1 ∧
    ((Manifest.load? path).run.run v).1.toOption.map (·.isSome) = some false := by
  intro root path done refused w l v
  have hshort : ∀ q ∈ [done, refused], q.root = root ∧ q.Printable := by
    simp only [List.forall_mem_cons]
    refine ⟨⟨rfl, ?_⟩, ⟨rfl, ?_⟩, by simp⟩ <;> apply RunRequest.printable_of_sizes <;>
      decide +kernel
  refine ⟨columnar_lawful [], fun c text room v hc => (by cases hc), hshort, ?_⟩
  decide +kernel

end QueryTelemetry
