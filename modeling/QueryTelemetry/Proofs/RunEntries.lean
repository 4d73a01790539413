import QueryTelemetry.Proofs.Manifests
import QueryTelemetry.Proofs.Outcomes

/-!
# Runs and what they enter

The report of a run depends on its events and its handlers alone. Replaying, collecting, writing the
report and the tables leave the manifest alone, so whatever fails there fails before the manifest is
touched, and a run that gets past them enters what it did behind the runs before it.
-/

set_option autoImplicit false

namespace QueryTelemetry
open Json
open Workspace (Spared)

namespace Work
variable {α : Type} {w : Workspace}

/-- Only what is said of the files goes through, since the clock moves on. -/
theorem Leaves.timed (name : String) (x : Work α) (done : α → FileTree → Prop)
    (failed : FileTree → Prop) (hx : ∀ u, u.files = w.files → u.stamps = w.stamps →
      u.limits = w.limits → x.Leaves u (fun a v => done a v.files) (fun v => failed v.files)) :
    (Work.timed (recordTiming name) x).Leaves w (fun a v => done a v.files)
      (fun v => failed v.files) := by
  obtain ⟨u, v, hfiles, hstamps, hlimits, hv, hrun⟩ := run_timed name x w
  have hu := hx u hfiles hstamps hlimits
  unfold Leaves at hu ⊢
  rw [hrun]
  cases hr : x.run.run u with
  | mk r t =>
    rw [hr] at hu hv
    cases r with
    | error e => exact Eq.mpr (congrArg failed hv) hu
    | ok a => exact Eq.mpr (congrArg (done a) hv) hu

end Work

/-! What a run enters can be printed and read again. -/

section Soundness

theorem sound_settings (s : Settings) (hsize : s.topSlowSize.val < Integer.ceiling)
    (hversion : s.reportVersion.natAbs < Integer.ceiling) :
    (Json.ofPairs s.members).Sound 1 := by
  have hkeys : ["top_slow_size", "scope_rows_by_kind", "output_root", "parquet_compression",
      "write_parquet", "report_version"].Nodup := by decide
  apply sound_of_pairs
  · exact hkeys
  · simp only [Settings.members, List.forall_mem_cons]
    exact ⟨sound_nat hsize 0, sound_bool _ 0, sound_text _ 0, sound_text _ 0, sound_bool _ 0,
      sound_int hversion 0, by simp⟩

theorem sound_counts {es : List Event} (h : ∀ e ∈ es, e.Settles)
    (hn : es.length < Integer.ceiling) (duration : Binary64) :
    (Json.ofPairs { Summary.empty.after 1 es with duration }.members).Sound 1 := by
  have hkeys : ["queries", "reads", "rows", "properties", "skipped", "delivered",
      "duration_seconds"].Nodup := by decide
  have hsorts := (deliveries es).length_sorts
  have hall := deliveries_add_rejections h 1
  have hcount (n : Int) (hlow : 0 ≤ n) (hhigh : n ≤ es.length) : (Json.int n).Sound 0 :=
    sound_int (by omega) 0
  apply sound_of_pairs
  · exact hkeys
  · simp only [Summary.members, Summary.delivered, Summary.after, Summary.empty,
      List.forall_mem_cons]
    refine ⟨hcount _ ?_ ?_, hcount _ ?_ ?_, hcount _ ?_ ?_, hcount _ ?_ ?_, hcount _ ?_ ?_,
      hcount _ ?_ ?_, sound_float duration 0, by simp⟩ <;> omega

theorem merge_keys {report : Report} (h : report.keys.Nodup) (parts : List Report) :
    (Assoc.keys (parts.foldl mergeSections report)).Nodup := by
  induction parts generalizing report with
  | nil => exact h
  | cons sections parts ih => exact ih (Assoc.put_all_nodup Prod.fst Prod.snd sections h)

theorem sound_sizes {report : Report} (h : report.keys.Nodup)
    (hs : ∀ p ∈ report, ∀ n, p.2.size? = some n → n < Integer.ceiling) :
    (Json.ofPairs (sizesOf report)).Sound 1 := by
  apply sound_of_pairs
  · apply List.pairwise_map.mpr
    apply (List.pairwise_map.mp h).filterMap
    intro p q hpq a ha b hb
    obtain ⟨m, -, rfl⟩ := Option.map_eq_some_iff.mp ha
    obtain ⟨n, -, rfl⟩ := Option.map_eq_some_iff.mp hb
    exact hpq
  · intro s hmem
    obtain ⟨p, hp, hsize⟩ := List.mem_filterMap.mp hmem
    obtain ⟨n, hn, rfl⟩ := Option.map_eq_some_iff.mp hsize
    exact sound_nat (hs p hp n hn) 0

theorem sound_artifacts (document : Written) (tables : List (String × TableInfo)) :
    (Json.ofPairs (artifacts document tables)).Sound 1 := by
  have hfirst : Assoc.keys [("report", Json.text document.path)] = ["report"] := rfl
  apply sound_of_pairs
  · apply Assoc.put_all_nodup Prod.fst fun t : String × TableInfo => Json.text t.2.path
    rw [hfirst]
    exact List.nodup_singleton "report"
  · have hall : ∀ m : Assoc String Json, (∀ p ∈ m, p.2.Sound 0) → ∀ p ∈ tables.foldl
        (fun m t => Assoc.put m t.1 (.text t.2.path)) m, p.2.Sound 0 := by
      induction tables with
      | nil => exact fun m hm => hm
      | cons t tables ih =>
        intro m hm
        refine ih _ fun p hp => ?_
        rcases Assoc.mem_put hp with hp | rfl
        · exact hm p hp
        · exact sound_text _ 0
    apply hall
    intro p hp
    rw [List.mem_singleton.mp hp]
    exact sound_text _ 0

end Soundness

namespace RunRequest

structure Printable (q : RunRequest) : Prop where
  size : q.settings.topSlowSize.val < Integer.ceiling
  version : q.settings.reportVersion.natAbs < Integer.ceiling
  events : q.events.length < Integer.ceiling
  sections : ∀ report, q.report? = some report →
    ∀ p ∈ report, ∀ n, p.2.size? = some n → n < Integer.ceiling

theorem printable_of_sizes {q : RunRequest}
    (hsize : q.settings.topSlowSize.val < Integer.ceiling)
    (hversion : q.settings.reportVersion.natAbs < Integer.ceiling)
    (hevents : q.events.length < Integer.ceiling)
    (hsections : ∀ n ∈ (q.report?.map fun r => r.filterMap (·.2.size?)).getD [],
      n < Integer.ceiling) : q.Printable where
  size := hsize
  version := hversion
  events := hevents
  sections := by
    intro report hr p hp n hn
    rw [hr] at hsections
    exact hsections n (List.mem_filterMap.mpr ⟨p, hp, hn⟩)

def entered (q : RunRequest) (w : Workspace) (t : Telemetry) : Entered where
  entry := q.entry t.summary t.report t.document t.tables
  time := "T" ++ toString (w.stamps + 1)

def Aside (q : RunRequest) : Prop :=
  q.settings.writeTables = true → ∀ s ∈ tabled, (s.path q.root).Plain

variable {q : RunRequest} {w : Workspace}

theorem report_apart (q : RunRequest) : q.manifestPath.Apart (q.root.child "report.json") :=
  Path.children_apart (by decide) (by decide) (by decide)

theorem tables_apart (q : RunRequest) {s : Tabled} (hs : s ∈ tabled) :
    q.manifestPath.Apart (s.path q.root) := by
  have hnames : ∀ s ∈ tabled, "manifest.json" ≠ s.name ++ ".parquet" ∧
      s.name ++ ".parquet" ≠ ".." ∧ s.name ++ ".parquet" ≠ "." := by decide
  obtain ⟨hne, hproper⟩ := hnames s hs
  exact Path.children_apart hne (by decide) hproper

theorem sound_entry (hq : q.Printable) (he : ∀ e ∈ q.events, e.Settles) {report : Report}
    (hr : q.report? = some report) (duration : Binary64) (document : Written)
    (tables : List (String × TableInfo)) :
    (q.entry { Summary.empty.after 1 q.events with duration } report document tables).Sound where
  version := hq.version
  counts := sound_counts he hq.events duration
  sizes := by
    obtain ⟨parts, -, rfl⟩ := Option.map_eq_some_iff.mp hr
    have hnone : Assoc.keys ([] : Report) = [] := rfl
    exact sound_sizes (merge_keys (hnone ▸ List.nodup_nil) parts) (hq.sections _ hr)
  settings := sound_settings q.settings hq.size hq.version
  artifacts := sound_artifacts document tables

abbrev Told (q : RunRequest) (es : List Entered) (e : ManifestEntry) (w : Workspace)
    (t : FileTree) : Prop :=
  Manifest.Tells q.manifestPath (es ++ [⟨e, "T" ++ toString (w.stamps + 1)⟩]) t

section Telling
variable {l : TableLibrary} {es : List Entered} {s : Summary} {report : Report}

theorem enter_tells {u : Workspace} (hu : Spared q.manifestPath w u)
    (ht : Manifest.Tells q.manifestPath es w.files) (hs : ∀ x ∈ es, x.entry.Sound)
    (hn : es.length + 1 < Integer.ceiling) (document : Written) (tables : List (String × TableInfo))
    (hentry : (q.entry s report document tables).Sound) :
    (q.enter s report document tables).Leaves u
      (fun kept v => q.Told es (q.entry s report kept.document kept.tables) w v.files)
      (fun v => w.files.Keeps q.manifestPath v.files) := by
  refine (Work.spares_of_except _).stage hu fun sizes v hsizes hv => ?_
  obtain ⟨rfl, -⟩ := section_sizes_ok (congrArg Prod.fst hsizes)
  apply Work.Leaves.bind
  have happend := Manifest.append_tells (ht.kept hv.files) hs hentry hn
  rw [hv.stamps] at happend
  apply happend.mono
  · exact fun _ x hx => hx
  · exact fun x hx => hv.files.trans hx

theorem persist_tells (hl : l.Lawful) (haside : q.Aside)
    (ht : Manifest.Tells q.manifestPath es w.files) (hs : ∀ x ∈ es, x.entry.Sound)
    (hn : es.length + 1 < Integer.ceiling)
    (hentry : ∀ document tables, (q.entry s report document tables).Sound) :
    (persist l q s report).Leaves w
      (fun kept v => q.Told es (q.entry s report kept.document kept.tables) w v.files)
      (fun v => w.files.Keeps q.manifestPath v.files) := by
  unfold persist
  refine (spares_write_report q.report_apart _).stage (.refl _ w) fun document u _ hu => ?_
  split
  · rename_i hwrite
    have htables := spares_export_tables hl report q.settings.compression
      (fun s hs => q.tables_apart hs) (haside hwrite)
    exact htables.stage hu fun tables v _ hv =>
      enter_tells hv ht hs hn document tables (hentry document tables)
  · exact (Work.spares_pure _).stage hu fun tables v _ hv =>
      enter_tells hv ht hs hn document tables (hentry document tables)

theorem timed_persist_tells (hl : l.Lawful) (haside : q.Aside) {v : Workspace}
    (hv : Spared q.manifestPath w v) (ht : Manifest.Tells q.manifestPath es w.files)
    (hs : ∀ x ∈ es, x.entry.Sound) (hn : es.length + 1 < Integer.ceiling)
    (hentry : ∀ document tables, (q.entry s report document tables).Sound) :
    (Work.timed (Work.recordTiming "write_seconds") (persist l q s report)).Leaves v
      (fun kept x => q.Told es (q.entry s report kept.document kept.tables) w x.files)
      (fun x => w.files.Keeps q.manifestPath x.files) := by
  apply Work.Leaves.timed "write_seconds" (persist l q s report)
    (fun kept t => q.Told es (q.entry s report kept.document kept.tables) w t)
    (fun t => w.files.Keeps q.manifestPath t)
  intro x hfiles hstamps hlimits
  have hx : Spared q.manifestPath w x :=
    ⟨hfiles ▸ hv.files, hstamps.trans hv.stamps, hlimits.trans hv.limits⟩
  apply (persist_tells hl haside (ht.kept hx.files) hs hn hentry).mono
  · intro kept y hy
    rw [Told, hx.stamps] at hy
    exact hy
  · exact fun y hy => hx.files.trans hy

theorem work_tells (hl : l.Lawful) (haside : q.Aside) (hq : q.Printable)
    (ht : Manifest.Tells q.manifestPath es w.files) (hs : ∀ x ∈ es, x.entry.Sound)
    (hn : es.length + 1 < Integer.ceiling) :
    (q.work l).Leaves w
      (fun r v => (q.entry r.1 r.2.1 r.2.2.document r.2.2.tables).Sound ∧
        q.Told es (q.entry r.1 r.2.1 r.2.2.document r.2.2.tables) w v.files)
      (fun v => w.files.Keeps q.manifestPath v.files) := by
  have hreplay : (Work.timed (Work.recordTiming "replay_seconds")
      (replay q.events q.active)).Spares q.manifestPath :=
    .timed (fun _ => Work.spares_record_timing _ _) (spares_replay _ _)
  have hcollect (hs : List Handler) : (Work.timed (Work.recordTiming "build_seconds")
      (collect hs)).Spares q.manifestPath :=
    .timed (fun _ => Work.spares_record_timing _ _) (spares_collect_from _ _)
  unfold work
  refine hreplay.stage (.refl _ w) fun p u hp hu => ?_
  obtain ⟨_, _, hp⟩ := Work.timed_ok hp
  obtain ⟨he, duration, rfl⟩ := replay_ok hp
  refine (hcollect _).stage hu fun report v hr hv => ?_
  obtain ⟨_, _, hr⟩ := Work.timed_ok hr
  obtain ⟨parts, hparts, rfl⟩ := collect_from_ok hr
  have hreport : q.report? = some (parts.foldl mergeSections []) := by
    rw [report?, hparts]
    rfl
  have hentry := sound_entry hq he hreport duration
  apply Work.Leaves.bind
  apply (timed_persist_tells hl haside hv ht hs hn hentry).mono
  · exact fun kept x hx => ⟨hentry kept.document kept.tables, hx⟩
  · exact fun x hx => hx

/-- A run that succeeds has entered itself behind the runs so far; one that fails has left the
manifest alone, wherever it failed. -/
theorem run_tells (hl : l.Lawful) (haside : q.Aside) (hq : q.Printable)
    (ht : Manifest.Tells q.manifestPath es w.files) (hs : ∀ x ∈ es, x.entry.Sound)
    (hn : es.length + 1 < Integer.ceiling) :
    (q.run l).Leaves w
      (fun t v => (q.entered w t).entry.Sound ∧
        Manifest.Tells q.manifestPath (es ++ [q.entered w t]) v.files)
      (fun v => w.files.Keeps q.manifestPath v.files) := by
  have hreset : (modify fun w => { w with timings := [] } : Work Unit).Spares q.manifestPath :=
    Work.spares_quiet (fun _ => rfl) (fun _ => rfl) (fun _ => rfl)
  unfold run
  refine hreset.stage (.refl _ w) fun _ u _ hu => ?_
  refine (Work.spares_log_line _ _ _).stage hu fun _ u _ hu => ?_
  refine Work.spares_tick.stage hu fun start u _ hu => ?_
  have hwork := work_tells hl haside hq (ht.kept hu.files) hs hn
  apply Work.Leaves.after (Work.run_outcome (q.work l) u)
  unfold Work.Leaves at hwork
  cases hrun : (q.work l).run.run u with
  | mk r v =>
    rw [hrun] at hwork
    cases r with
    | error e => exact hu.files.trans hwork
    | ok r =>
      obtain ⟨hsound, htold⟩ := hwork
      rw [Told, hu.stamps] at htold
      exact ⟨hsound, htold⟩

end Telling

end RunRequest

end QueryTelemetry
