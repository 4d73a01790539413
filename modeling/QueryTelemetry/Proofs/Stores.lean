import QueryTelemetry.Proofs.Folders
import QueryTelemetry.Proofs.Legible

/-!
# Tables stored one after the other

Whether rows make a table is known before the file is touched, so an export ends at the first
section whose rows make none. The files of the sections before it hold their tables by then. Its
own file and those behind it were not opened yet, though the folders on the way to it may be new.
-/

set_option autoImplicit false

namespace QueryTelemetry

def Tabled.made (l : TableLibrary) (t : Tabled) (v : Json) : Except Failure (List Row) := do
  let rows ← t.rows v
  l.table t.schema rows

/-! ## One table -/

section Tables
variable {l : TableLibrary} {w : Workspace} {path : Path} {schema : Schema} {rows : List Row}
  {compression : String}

/-- Rows that make no table are refused before the file is touched. -/
theorem write_table_refused (compression : String)
    (htakes : w.files.Writable w.limits.folders path) {f : Failure}
    (hnone : l.table schema rows = .error f) :
    ∃ u, (writeTable l path schema rows compression).run.run w = (.error f, u) ∧
      ∀ other, w.files.Keeps other u.files := by
  refine ⟨{ w with files := (w.files.makeFolders w.limits.folders path.parent).2 }, ?_,
    fun other => FileTree.keeps_make_folders _ _ _⟩
  rw [writeTable, Work.run_bind, Work.run_make_folders, htakes.1]
  dsimp only [Except.mapError]
  rw [Work.run_bind, Work.run_of_except, hnone]

theorem write_table_stored (hl : l.Lawful) (hplain : path.Plain) (hknown : l.Compresses compression)
    (htakes : w.files.Writable w.limits.folders path) {table : List Row}
    (htable : l.table schema rows = .ok table) :
    ∃ info t, (writeTable l path schema rows compression).run.run w =
        (.ok info, { w with files := t }) ∧
      (w.files.makeFolders w.limits.folders path.parent).2.write path (.table table) = .ok t := by
  obtain ⟨hmade, _, _, hfirst⟩ := htakes
  obtain ⟨t, ht⟩ := FileTree.write_content (d := .table table) hfirst
  have hstore := hl.stored path table compression
    { w with files := (w.files.makeFolders w.limits.folders path.parent).2 } t hplain hknown ht
  refine ⟨⟨table.length, path.text⟩, t, ?_, ht⟩
  rw [writeTable, Work.run_bind, Work.run_make_folders, hmade]
  dsimp only [Except.mapError]
  rw [Work.run_bind, Work.run_of_except, htable]
  dsimp only
  rw [Work.run_bind, hstore]
  rfl

end Tables

/-! ## All tables -/

def Tabled.Stores (l : TableLibrary) (report : Report) (root : Path) (files : FileTree)
    (t : Tabled) : Prop :=
  ∃ v table, report.get? t.name = some v ∧ t.made l v = .ok table ∧
    files.read (t.path root) = .ok (.table table)

def OnWay (root : Path) (q : Place) : Prop := ∃ t ∈ tabled, q ∈ (t.path root).parent.visits

def IsTarget (root : Path) (q : Place) : Prop := ∃ t ∈ tabled, (t.path root).place = .ok q

theorem table_names : ∀ s ∈ tabled, ∀ t ∈ tabled,
    s.name ++ ".parquet" ≠ t.folder ∧ s.name ++ ".parquet" ≠ ".." ∧ s.name ++ ".parquet" ≠ "." ∧
    t.folder ≠ ".." ∧ t.folder ≠ "." ∧
    (s.name ≠ t.name → s.name ++ ".parquet" ≠ t.name ++ ".parquet") := by
  decide

section Targets
variable {root : Path} {room : Nat} {files : FileTree}

theorem target_last {t : Tabled} (ht : t ∈ tabled) {p : Place} (hp : (t.path root).place = .ok p) :
    p.getLast? = some (t.name ++ ".parquet") := by
  obtain ⟨-, hup, hdot, -⟩ := table_names t ht t ht
  exact Path.place_child hup hdot hp

theorem targets_apart {s t : Tabled} (hs : s ∈ tabled) (ht : t ∈ tabled) (hne : s.name ≠ t.name) :
    (s.path root).Apart (t.path root) := by
  intro p hp ho
  have hlast := target_last ht ho
  rw [target_last hs hp] at hlast
  obtain ⟨-, -, -, -, -, hnames⟩ := table_names s hs t ht
  exact hnames hne (Option.some.inj hlast)

/-- A place where a table can be stored is no folder on the way to any. -/
theorem target_off_way {t : Tabled} (ht : t ∈ tabled) (htakes : files.Writable room (t.path root))
    {p : Place} (hp : (t.path root).place = .ok p) : ¬ OnWay root p := by
  rintro ⟨s, hs, hway⟩
  have hparent (x : Tabled) : (x.path root).parent = root.child x.folder := Path.parent_child _ _
  have hown := htakes.place_off_way hp
  obtain ⟨hfolder, -, -, hup, hdot, -⟩ := table_names t ht s hs
  rw [hparent] at hway hown
  rcases Place.visits_concat hup hdot hway with hroot | hlast
  · exact hown (Place.visits_longer hroot _)
  · rw [target_last ht hp] at hlast
    exact hfolder (Option.some.inj hlast)

/-- A table has room wherever it had room before the others were stored. -/
theorem takes_after {start : FileTree} (htakes : ∀ t ∈ tabled, start.Writable room (t.path root))
    (hgrown : start.Grows (OnWay root) (IsTarget root) files) {t : Tabled} (ht : t ∈ tabled) :
    files.Writable room (t.path root) := by
  refine (htakes t ht).grown hgrown (fun q hq ⟨s, hs, hplace⟩ => ?_) fun p hp => ?_
  · exact target_off_way hs (htakes s hs) hplace ⟨t, ht, hq⟩
  · exact ⟨target_off_way ht (htakes t ht) hp, (htakes t ht).place_off_way hp⟩

end Targets

section Exports
variable {l : TableLibrary} {report : Report} {root : Path} {compression : String} {w : Workspace}

abbrev exporting (l : TableLibrary) (report : Report) (root : Path) (compression : String)
    (t : Tabled) : Work (List (String × TableInfo)) :=
  exportTable l (fun name => .ok (report.get? name)) root compression t

theorem exporting_run (l : TableLibrary) {t : Tabled} {v : Json}
    (hget : report.get? t.name = some v) :
    (exporting l report root compression t).run.run w = match t.rows v with
      | .error f => (.error f, w)
      | .ok rows =>
        match (writeTable l (t.path root) t.schema rows compression).run.run w with
        | (.error f, u) => (.error f, u)
        | (.ok info, u) => (.ok [(t.name, info)], u) := by
  rw [exporting, exportTable, Work.run_bind, Work.run_of_except]
  dsimp only
  rw [hget]
  dsimp only
  rw [Work.run_bind, Work.run_of_except]
  cases t.rows v with
  | error f => rfl
  | ok rows =>
    dsimp only
    rw [Work.run_bind]
    rcases (writeTable l (t.path root) t.schema rows compression).run.run w with ⟨_ | _, _⟩ <;> rfl

theorem export_stops (compression : String) {t : Tabled} {v : Json} {f : Failure}
    (hget : report.get? t.name = some v) (hnone : t.made l v = .error f)
    (htakes : w.files.Writable w.limits.folders (t.path root)) :
    ∃ u, (exporting l report root compression t).run.run w = (.error f, u) ∧
      ∀ other, w.files.Keeps other u.files := by
  rw [exporting_run l hget]
  rw [Tabled.made] at hnone
  cases hrows : t.rows v with
  | error g =>
    rw [hrows] at hnone
    cases hnone
    exact ⟨w, rfl, fun other => .refl other w.files⟩
  | ok rows =>
    rw [hrows] at hnone
    obtain ⟨u, hrun, hkeeps⟩ := write_table_refused compression htakes hnone
    refine ⟨u, ?_, hkeeps⟩
    dsimp only
    rw [hrun]

theorem export_stores (hl : l.Lawful) {t : Tabled} (ht : t ∈ tabled) {v : Json} {table : List Row}
    (hget : report.get? t.name = some v) (hmade : t.made l v = .ok table)
    (hplain : (t.path root).Plain) (hknown : l.Compresses compression)
    (htakes : w.files.Writable w.limits.folders (t.path root)) :
    ∃ part files, (exporting l report root compression t).run.run w = (.ok part, { w with files }) ∧
      files.read (t.path root) = .ok (.table table) ∧
      (∀ other : Path, other.Apart (t.path root) → w.files.Keeps other files) ∧
      w.files.Grows (OnWay root) (IsTarget root) files := by
  obtain ⟨rows, hrows, htable⟩ := bind_ok_iff.mp hmade
  obtain ⟨info, files, hrun, hwrite⟩ := write_table_stored hl hplain hknown htakes htable
  have hfolders : w.files.Grows (OnWay root) (IsTarget root)
      (w.files.makeFolders w.limits.folders (t.path root).parent).2 :=
    FileTree.grows_make_folders _ w.files fun q hq => ⟨t, ht, hq⟩
  refine ⟨[(t.name, info)], files, ?_, FileTree.read_write hwrite, fun other ha =>
    (FileTree.keeps_make_folders _ _ _).trans (FileTree.keeps_write hwrite ha),
    hfolders.trans (FileTree.grows_write hwrite fun p hp => ⟨t, ht, hp⟩)⟩
  rw [exporting_run l hget, hrows]
  dsimp only
  rw [hrun]

/-- What an export of some tables leaves: all of them stored, or those in front of the first that
cannot be, with its failure. -/
inductive Reached (l : TableLibrary) (report : Report) (root : Path) (start : FileTree)
    (ts : List Tabled) (files : FileTree) :
    Except Failure (List (List (String × TableInfo))) → Prop
  | all {parts : List (List (String × TableInfo))} (h : ∀ t ∈ ts, t.Stores l report root files) :
    Reached l report root start ts files (.ok parts)
  | upTo {before after : List Tabled} {t : Tabled} {v : Json} {f : Failure}
    (hts : ts = before ++ t :: after) (hbefore : ∀ b ∈ before, b.Stores l report root files)
    (hget : report.get? t.name = some v) (hnone : t.made l v = .error f)
    (hrest : ∀ a ∈ t :: after, files.contentAt? (a.path root) = start.contentAt? (a.path root)) :
    Reached l report root start ts files (.error f)

variable (hl : l.Lawful) (hknown : l.Compresses compression)
  (hplain : ∀ t ∈ tabled, (t.path root).Plain) {start : FileTree}
  (hsections : ∀ t ∈ tabled, ∃ v, report.get? t.name = some v)
include hl hknown hplain hsections

theorem exports_run {ts : List Tabled} (hts : ∀ t ∈ ts, t ∈ tabled)
    (hnames : (ts.map Tabled.name).Nodup)
    (htakes : ∀ t ∈ tabled, start.Writable w.limits.folders (t.path root))
    (hgrown : start.Grows (OnWay root) (IsTarget root) w.files) :
    ∃ r u, (ts.mapM (exporting l report root compression)).run.run w = (r, u) ∧
      Reached l report root w.files ts u.files r ∧
      ∀ other : Path, (∀ t ∈ ts, other.Apart (t.path root)) → w.files.Keeps other u.files := by
  induction ts generalizing w with
  | nil =>
    exact ⟨.ok [], w, rfl, .all (List.forall_mem_nil _), fun other _ => .refl other w.files⟩
  | cons t ts ih =>
    obtain ⟨ht, hts⟩ := List.forall_mem_cons.mp hts
    obtain ⟨hnew, hnames⟩ := List.nodup_cons.mp hnames
    have hother : ∀ s ∈ ts, t.name ≠ s.name := fun s hs he =>
      hnew (he ▸ List.mem_map_of_mem hs)
    obtain ⟨v, hget⟩ := hsections t ht
    have hroom := takes_after htakes hgrown ht
    rw [List.mapM_cons, Work.run_bind]
    cases hmade : t.made l v with
    | error f =>
      obtain ⟨u, hrun, hkeeps⟩ := export_stops compression hget hmade hroom
      refine ⟨.error f, u, by rw [hrun], ?_, fun other _ => hkeeps other⟩
      exact .upTo (List.nil_append _).symm (List.forall_mem_nil _) hget hmade fun a _ =>
        (hkeeps _).content
    | ok table =>
      obtain ⟨part, files, hrun, hread, hkeeps, hgrows⟩ :=
        export_stores hl ht hget hmade (hplain t ht) hknown hroom
      obtain ⟨r, x, hrest, hreached, hspared⟩ :=
        ih (w := { w with files }) hts hnames htakes (hgrown.trans hgrows)
      have hstays : t.Stores l report root x.files :=
        ⟨v, table, hget, hmade, (hspared _ fun s hs =>
          targets_apart ht (hts s hs) (hother s hs)).read hread⟩
      have hkept (other : Path) (ha : ∀ s ∈ t :: ts, other.Apart (s.path root)) :
          w.files.Keeps other x.files :=
        (hkeeps other (ha t List.mem_cons_self)).trans
          (hspared other fun s hs => ha s (List.mem_cons_of_mem t hs))
      rw [hrun]
      dsimp only
      rw [Work.run_bind, hrest]
      cases hreached with
      | all hall => exact ⟨_, x, rfl, .all (List.forall_mem_cons.mpr ⟨hstays, hall⟩), hkept⟩
      | upTo hsplit hbefore hlate hfails hafter =>
        refine ⟨_, x, rfl, .upTo (congrArg (t :: ·) hsplit)
          (List.forall_mem_cons.mpr ⟨hstays, hbefore⟩) hlate hfails fun a ha => ?_, hkept⟩
        have hmem : a ∈ ts := hsplit ▸ List.mem_append_right _ ha
        exact (hafter a ha).trans
          (hkeeps _ (targets_apart (hts a hmem) ht (hother a hmem).symm)).content

end Exports

end QueryTelemetry
