import QueryTelemetry.Proofs.Columnar
import QueryTelemetry.Proofs.Exports
import QueryTelemetry.Proofs.Stores

/-!
# Exports that stop

Two things keep a section from being stored: an integer in a block that is too long to be printed,
and an integer in a column that takes more than 64 bits. The export ends at the first section with
one. Nothing is relied on of the library that makes the tables but its laws.
-/

set_option autoImplicit false

namespace QueryTelemetry
open Json

/-- What ends the export at a section. Blocks are printed before the table is made. -/
inductive SectionNumbers.Offends (x : SectionNumbers) : Failure → Prop
  | tooLong {e : EntryNumbers} {n : Int} : e ∈ x.entries → n ∈ e.blocks →
    Integer.ceiling ≤ n.natAbs → x.Offends .unwritable
  | outOfRange {e : EntryNumbers} {n : Int} :
    (∀ e ∈ x.entries, ∀ n ∈ e.blocks, n.natAbs < Integer.ceiling) → e ∈ x.entries →
    n ∈ e.columns → ¬ (-2 ^ 63 ≤ n ∧ n < 2 ^ 63) → x.Offends .outOfRange

def SectionNumbers.path (x : SectionNumbers) (root : Path) : Path :=
  (root.child x.table.folder).child (x.table.name ++ ".parquet")

def SectionNumbers.Holds (x : SectionNumbers) (report : Report) (root : Path)
    (files : FileTree) : Prop :=
  ∃ v rows, report.get? x.table.name = some v ∧ files.read (x.path root) = .ok (.table rows) ∧
    List.Forall₂ (Carries x.table.schema) (entriesOf v) rows

theorem SectionNumbers.Offends.entries {x : SectionNumbers} {f : Failure} (h : x.Offends f) :
    x.entries ≠ [] := by
  cases h with
  | tooLong he _ _ => exact List.ne_nil_of_mem he
  | outOfRange _ he _ _ => exact List.ne_nil_of_mem he

theorem SectionNumbers.Offends.unique {x : SectionNumbers} {f g : Failure} (hf : x.Offends f)
    (hg : x.Offends g) : f = g := by
  cases hf with
  | tooLong he hn hlong =>
    cases hg with
    | tooLong _ _ _ => rfl
    | outOfRange hshort _ _ _ => exact absurd hlong (Nat.not_le.mpr (hshort _ he _ hn))
  | outOfRange hshort _ _ _ =>
    cases hg with
    | tooLong he hn hlong => exact absurd hlong (Nat.not_le.mpr (hshort _ he _ hn))
    | outOfRange _ _ _ _ => rfl

section Reports
variable {l : TableLibrary} (hl : l.Lawful) {s : Settings} {h : History} {report : Report}
  (hr : ((Aggregator.start s).run h).report? = some report) {x : SectionNumbers}
  (hx : x ∈ ((Aggregator.start s).run h).sectionNumbers)
include hl hr hx

theorem made_or_offends {v : Json} (hget : report.get? x.table.name = some v) :
    (∃ table, x.table.made l v = .ok table ∧ (∀ f, ¬ x.Offends f) ∧
      List.Forall₂ (Carries x.table.schema) (entriesOf v) table) ∨
    ∃ f, x.table.made l v = .error f ∧ x.Offends f := by
  obtain ⟨_, ks, hsection, hks, hentries⟩ := report_numbers hr x hx
  cases hget.symm.trans hsection
  have hmem : x.table ∈ tabled := by
    rw [← section_tables ((Aggregator.start s).run h)]
    exact List.mem_map_of_mem hx
  have hapart := tabled_apart x.table hmem
  have hshort : BlocksShort v ↔ ∀ e ∈ x.entries, ∀ n ∈ e.blocks, n.natAbs < Integer.ceiling := by
    rw [hks.short_iff hapart, hentries, List.forall_mem_map]
    exact forall₂_congr fun k _ => Sketch.short_iff
  by_cases hblocks : BlocksShort v
  · obtain ⟨rows, hrows⟩ := hks.rows_of_short hapart hblocks
    have hnumbers : rows.flatMap rowNumbers = x.entries.flatMap EntryNumbers.columns := by
      rw [hks.rows_numbers hrows, hentries]
    have hmade : x.table.made l v = l.table x.table.schema rows := by
      rw [Tabled.made, hrows]
      rfl
    by_cases hfits : ∀ n ∈ rows.flatMap rowNumbers, fitsInt64 n
    · refine .inl ⟨rows, hmade.trans (hl.made _ _ (hks.rows_typed hrows) hfits), ?_,
        hks.rows_carry hapart hrows⟩
      rintro f (⟨he, hn, hlong⟩ | ⟨-, he, hn, hlarge⟩)
      · exact absurd hlong (Nat.not_le.mpr (hshort.mp hblocks _ he _ hn))
      · rw [hnumbers] at hfits
        exact hlarge ((fits_int64_iff _).mp (hfits _ (List.mem_flatMap.mpr ⟨_, he, hn⟩)))
    · simp only [not_forall] at hfits
      obtain ⟨n, hn, hlarge⟩ := hfits
      refine .inr ⟨_, hmade.trans (hl.refused _ _ (hks.rows_typed hrows) ⟨n, hn, hlarge⟩), ?_⟩
      rw [hnumbers] at hn
      obtain ⟨e, he, hn⟩ := List.mem_flatMap.mp hn
      exact .outOfRange (hshort.mp hblocks) he hn fun hrange =>
        hlarge ((fits_int64_iff n).mpr hrange)
  · refine .inr ⟨.unwritable, ?_, ?_⟩
    · rw [Tabled.made, hks.rows_of_long hapart hblocks]
      rfl
    · simp only [hshort, not_forall, Nat.not_lt] at hblocks
      obtain ⟨e, he, n, hn, hlong⟩ := hblocks
      exact .tooLong he hn hlong

theorem holds_of_stores {root : Path} {files : FileTree}
    (hstored : x.table.Stores l report root files) :
    (∀ f, ¬ x.Offends f) ∧ x.Holds report root files := by
  obtain ⟨v, table, hget, hmade, hread⟩ := hstored
  rcases made_or_offends hl hr hx hget with ⟨rows, hrows, hnone, hcarried⟩ | ⟨f, hfails, -⟩
  · cases hmade.symm.trans hrows
    exact ⟨hnone, v, _, hget, hread, hcarried⟩
  · cases hmade.symm.trans hfails

theorem offends_of_made {v : Json} (hget : report.get? x.table.name = some v) {f : Failure}
    (hfails : x.table.made l v = .error f) : x.Offends f := by
  rcases made_or_offends hl hr hx hget with ⟨rows, hrows, -⟩ | ⟨g, hg, hoffends⟩
  · cases hrows.symm.trans hfails
  · cases hg.symm.trans hfails
    exact hoffends

end Reports

/-! ## A sum that is out of range -/

namespace ScanOverflow

def read : ReadsReport := ⟨.named "n", .scan, .named "n", 1, 2 ^ 63 - 1, 0⟩

def calls : List Call := [.deliver (.reads read), .deliver (.reads read),
  .deliver (.completion ⟨.scan, "q", .named "n", 1, 0, 5000000, true⟩)]

def aggregator : Aggregator := ((Session.start .default).run calls).aggregator

theorem calls_fit : ∀ r ∈ history calls, ∀ n ∈ r.callback.json.integers,
    -2 ^ 63 ≤ n ∧ n < 2 ^ 63 := by
  decide +kernel

theorem reported : ∃ report, aggregator.report? = some report :=
  Option.isSome_iff_exists.mp (by decide +kernel)

theorem sections : ∃ sql slowSql scan later,
    aggregator.sectionNumbers = [sql, slowSql] ++ scan :: later ∧ sql.entries = [] ∧
      slowSql.entries = [] ∧ scan.Offends .outOfRange ∧
      scan.table = ⟨"scan", "rollups", rollupSchema, rollupRows⟩ ∧
      later.map SectionNumbers.table = tabled.drop 3 := by
  have hentries : aggregator.sectionNumbers.map SectionNumbers.entries = [[], [],
      [⟨[1, 5, 2 ^ 64 - 2, 0, 0], []⟩], [⟨[0, 5, 2 ^ 64 - 2, 0], []⟩], [], []] := by
    decide +kernel
  simp only [Aggregator.sectionNumbers, List.map_cons, List.cons.injEq] at hentries
  obtain ⟨hsql, hslowSql, hscan, -⟩ := hentries
  refine ⟨_, _, _, _, rfl, hsql, hslowSql, ?_, rfl, rfl⟩
  have hblocks : ∀ e ∈ [(⟨[1, 5, 2 ^ 64 - 2, 0, 0], []⟩ : EntryNumbers)], ∀ n ∈ e.blocks,
      n.natAbs < Integer.ceiling := by simp
  have hsum : (2 ^ 64 - 2 : Int) ∈ [1, 5, 2 ^ 64 - 2, 0, 0] := by decide
  exact .outOfRange (hscan ▸ hblocks) (hscan ▸ List.mem_singleton_self _) hsum (by decide)

end ScanOverflow

/-- An export ends at the first section that cannot be stored. -/
theorem export_ends_at_first_offender {l : TableLibrary} (hl : l.Lawful) (s : Settings)
    (calls : List Call) {report : Report}
    (hr : ((Session.start s).run calls).aggregator.report? = some report) {root : Path}
    {compression : String} (hknown : l.Compresses compression)
    (hplain : ∀ t ∈ tabled, (t.path root).Plain) {w : Workspace}
    (htakes : ∀ t ∈ tabled, w.files.Writable w.limits.folders (t.path root)) :
    let sections := ((Session.start s).run calls).aggregator.sectionNumbers
    sections.map (fun x => (x.table.name, x.table.folder)) =
      [("sql", "rollups"), ("topSlowSql", "top_slow"), ("scan", "rollups"),
        ("topSlowScan", "top_slow"), ("index", "rollups"), ("topSlowIndex", "top_slow")] ∧
    ((∃ tables v, (exportTables l report root compression).run.run w = (.ok tables, v)) ↔
      ∀ x ∈ sections, ∀ f, ¬ x.Offends f) ∧
    (∀ tables v, (exportTables l report root compression).run.run w = (.ok tables, v) →
      ∀ x ∈ sections, x.Holds report root v.files) ∧
    (∀ f v, (exportTables l report root compression).run.run w = (.error f, v) →
      ∃ before x after, sections = before ++ x :: after ∧ x.Offends f ∧
        (∀ b ∈ before, (∀ g, ¬ b.Offends g) ∧ b.Holds report root v.files) ∧
        ∀ a ∈ x :: after,
          v.files.contentAt? (a.path root) = w.files.contentAt? (a.path root)) ∧
    ∃ others other, ((Session.start .default).run others).aggregator.report? = some other ∧
      (∀ r ∈ history others, ∀ n ∈ r.callback.json.integers, -2 ^ 63 ≤ n ∧ n < 2 ^ 63) ∧
      ∃ x ∈ ((Session.start .default).run others).aggregator.sectionNumbers,
        x.Offends .outOfRange := by
  intro sections
  have hafter : ((Session.start s).run calls).aggregator =
      (Aggregator.start s).run (history calls) := Session.run_aggregator _ calls
  have htables : sections.map SectionNumbers.table = tabled := section_tables _
  rw [hafter] at hr
  have hlisted (x : SectionNumbers) (hx : x ∈ sections) :
      x ∈ ((Aggregator.start s).run (history calls)).sectionNumbers := hafter ▸ hx
  have hsections : ∀ t ∈ tabled, ∃ v, report.get? t.name = some v := by
    intro t ht
    obtain ⟨v, _, hget, -⟩ := report_outlined hr t ht
    exact ⟨v, hget⟩
  obtain ⟨r, u, hrun, hreached, -⟩ := exports_run hl hknown hplain hsections (fun t ht => ht)
    (by decide) htakes (FileTree.Grows.refl w.files)
  have hexport : (exportTables l report root compression).run.run w =
      (r.map List.flatten, u) := by
    rw [exportTables, exportSections, Work.run_bind, hrun]
    cases r <;> rfl
  obtain ⟨other, hother⟩ := ScanOverflow.reported
  obtain ⟨_, _, scan, _, hscan, -, -, hoffends, -, -⟩ := ScanOverflow.sections
  have hmem : scan ∈ ScanOverflow.aggregator.sectionNumbers :=
    hscan ▸ List.mem_append_right _ List.mem_cons_self
  refine ⟨rfl, ?_⟩
  cases hreached with
  | all hall =>
    have hstored (x : SectionNumbers) (hx : x ∈ sections) :=
      holds_of_stores hl hr (hlisted x hx) (hall _ (htables ▸ List.mem_map_of_mem hx))
    refine ⟨iff_of_true ⟨_, _, hexport⟩ fun x hx => (hstored x hx).1, fun tables v h x hx => ?_,
      fun f v h => ?_, _, other, hother, ScanOverflow.calls_fit, scan, hmem, hoffends⟩
    · cases hexport.symm.trans h
      exact (hstored x hx).2
    · cases hexport.symm.trans h
  | @upTo before after t v f hts hbefore hget hfails hrest =>
    rw [← htables] at hts
    obtain ⟨front, back, hsplit, rfl, hback⟩ := List.map_eq_append_iff.mp hts
    obtain ⟨x, rest, rfl, rfl, rfl⟩ := List.map_eq_cons_iff.mp hback
    have hx : x ∈ sections := hsplit ▸ List.mem_append_right front List.mem_cons_self
    have hoffender := offends_of_made hl hr (hlisted x hx) hget hfails
    refine ⟨iff_of_false ?_ fun hnone => hnone x hx f hoffender, fun tables v h => ?_,
      fun g v h => ?_, _, other, hother, ScanOverflow.calls_fit, scan, hmem, hoffends⟩
    · rintro ⟨tables, v, h⟩
      cases hexport.symm.trans h
    · cases hexport.symm.trans h
    · cases hexport.symm.trans h
      refine ⟨front, x, rest, hsplit, hoffender, fun b hb => ?_, fun a ha => ?_⟩
      · exact holds_of_stores hl hr (hlisted b (hsplit ▸ List.mem_append_left _ hb))
          (hbefore _ (List.mem_map_of_mem hb))
      · exact hrest a.table (List.mem_map_of_mem ha)

/-! ## Exports into one folder -/

namespace OutFolder

def root : Path := Path.ofText "out"

theorem known : (TableLibrary.columnar []).Compresses "snappy" := by
  change checkCompression "snappy" = .ok ()
  rw [checkCompression]
  exact if_pos (by decide)

theorem plain : ∀ t ∈ tabled, (t.path root).Plain := by
  have hfree : ∀ t ∈ tabled, ':' ∉ (t.path root).text.toList ∧
      (t.path root).text.toList.head? ≠ some '~' := by decide
  exact fun t ht => Path.plain_of_free (hfree t ht).1 (hfree t ht).2

theorem room_of_locate {files : FileTree} {room : Nat} (h : ∀ t ∈ tabled,
    (files.makeFolders room (t.path root).parent).1 = .ok () ∧
    (files.makeFolders room (t.path root).parent).2.locate (t.path root) =
      .ok ["out", t.folder, t.name ++ ".parquet"] ∧
    (files.makeFolders room (t.path root).parent).2.isFolder
      ["out", t.folder, t.name ++ ".parquet"] = false) :
    ∀ t ∈ tabled, files.Writable room (t.path root) := by
  intro t ht
  obtain ⟨hmade, hplace⟩ := h t ht
  exact FileTree.writable_iff.mpr ⟨hmade, _, hplace⟩

end OutFolder

theorem first_of_kind {α : Type} {P : α → Prop} {xs ys before after : List α} {y t : α}
    (h : before ++ t :: after = xs ++ y :: ys) (hxs : ∀ x ∈ xs, ¬ P x) (hy : P y)
    (hbefore : ∀ b ∈ before, ¬ P b) (ht : P t) : before = xs ∧ t :: after = y :: ys := by
  induction xs generalizing before with
  | nil =>
    cases before with
    | nil => exact ⟨rfl, h⟩
    | cons b before =>
      obtain rfl : b = y := (List.cons.inj h).1
      exact absurd hy (hbefore b List.mem_cons_self)
  | cons x xs ih =>
    cases before with
    | nil =>
      obtain rfl : t = x := (List.cons.inj h).1
      exact absurd ht (hxs t List.mem_cons_self)
    | cons b before =>
      obtain ⟨rfl, hrest⟩ := List.cons.inj h
      obtain ⟨rfl, hlater⟩ := ih hrest (fun x hx => hxs x (List.mem_cons_of_mem _ hx))
        fun x hx => hbefore x (List.mem_cons_of_mem _ hx)
      exact ⟨rfl, hlater⟩

/-- The third of six sections ends an export into a folder with a file from before. -/
theorem export_ends_at_scan :
    let l := TableLibrary.columnar []
    let root := OutFolder.root
    let old : Content := .bytes "old".toUTF8
    let w : Workspace := { Workspace.start .usual [] with
      files := ⟨[(["out", "rollups", "scan.parquet"], old)],
        [(1, ["out"]), (2, ["out", "rollups"])]⟩ }
    l.Lawful ∧ l.Compresses "snappy" ∧ (∀ t ∈ tabled, (t.path root).Plain) ∧
    (∀ t ∈ tabled, w.files.Writable w.limits.folders (t.path root)) ∧
    ∃ report v sql slowSql scan later, ScanOverflow.aggregator.report? = some report ∧
      ScanOverflow.aggregator.sectionNumbers = [sql, slowSql] ++ scan :: later ∧
      (exportTables l report root "snappy").run.run w = (.error .outOfRange, v) ∧
      sql.Holds report root v.files ∧ slowSql.Holds report root v.files ∧
      v.files.contentAt? (scan.path root) = some old ∧
      ∀ x ∈ later, v.files.contentAt? (x.path root) = none := by
  intro l root old w
  have hl : l.Lawful := columnar_lawful []
  have hroom : ∀ t ∈ tabled, w.files.Writable w.limits.folders (t.path root) :=
    OutFolder.room_of_locate (by decide +kernel)
  obtain ⟨report, hreport⟩ := ScanOverflow.reported
  obtain ⟨sql, slowSql, scan, later, hsections, hsql, hslowSql, hoffends, htable, hrest⟩ :=
    ScanOverflow.sections
  obtain ⟨-, hsucceeds, -, hstops, -⟩ := export_ends_at_first_offender hl .default
    ScanOverflow.calls hreport OutFolder.known OutFolder.plain hroom
  have hnone : ∀ x ∈ [sql, slowSql], ¬ ∃ f, x.Offends f := by
    simp only [List.forall_mem_cons]
    exact ⟨fun ⟨_, hf⟩ => hf.entries hsql, fun ⟨_, hf⟩ => hf.entries hslowSql,
      List.forall_mem_nil _⟩
  cases hrun : (exportTables l report root "snappy").run.run w with
  | mk r v =>
    cases r with
    | ok tables =>
      have hmem : scan ∈ ScanOverflow.aggregator.sectionNumbers :=
        hsections ▸ List.mem_append_right _ List.mem_cons_self
      exact absurd hoffends (hsucceeds.mp ⟨tables, v, hrun⟩ scan hmem _)
    | error f =>
      obtain ⟨before, x, after, hsplit, hx, hbefore, hsame⟩ := hstops f v hrun
      obtain ⟨rfl, hlist⟩ := first_of_kind (hsplit.symm.trans hsections) hnone ⟨_, hoffends⟩
        (fun b hb ⟨g, hg⟩ => (hbefore b hb).1 g hg) ⟨f, hx⟩
      obtain ⟨rfl, rfl⟩ := List.cons.inj hlist
      cases hx.unique hoffends
      obtain ⟨hscan, hlater⟩ := List.forall_mem_cons.mp hsame
      refine ⟨hl, OutFolder.known, OutFolder.plain, hroom, report, v, sql, slowSql, x, after,
        hreport, hsections, hrun, (hbefore sql (by simp)).2, (hbefore slowSql (by simp)).2,
        hscan.trans ?_, fun y hy => (hlater y hy).trans ?_⟩
      · rw [SectionNumbers.path, htable]
        rfl
      · have habsent : ∀ t ∈ tabled.drop 3, (w.files.contentAt? (t.path root)).isNone := by
          decide +kernel
        exact Option.isNone_iff_eq_none.mp
          (habsent y.table (hrest ▸ List.mem_map_of_mem hy))

/-! ## A sum that is too long to be printed -/

namespace LongSum

def done : Completion := ⟨.sqlFields, "q", .named "n", 1, 0, 5000000, true⟩

/-- The same number of rows, reported twice. -/
def calls (n : Int) : List Call := [
  .deliver (.rows ⟨.named "n", .sqlFields, .named "n", 1, "a", n⟩),
  .deliver (.rows ⟨.named "n", .sqlFields, .named "n", 1, "a", n⟩),
  .deliver (.completion done)]

def aggregator (n : Int) : Aggregator := ((Session.start .default).run (calls n)).aggregator

theorem sections (n : Int) : ∃ report sql later e, (aggregator n).report? = some report ∧
    (aggregator n).sectionNumbers.map (fun x => x.entries.map EntryNumbers.columns) =
      [[[1, 5, 0, 0, 0]], [[0, 5, 0, 0]], [], [], [], []] ∧
    (aggregator n).sectionNumbers = sql :: later ∧
    sql.table = ⟨"sql", "rollups", rollupSchema, rollupRows⟩ ∧ sql.entries = [e] ∧
    e.blocks = (RowCounts.block [("a", 0 + (0 + n + n))]).map Prod.snd :=
  ⟨_, _, _, _, rfl, rfl, rfl, rfl, rfl, rfl⟩

theorem columns_in_range (n : Int) : ∀ x ∈ (aggregator n).sectionNumbers, ∀ e ∈ x.entries,
    ∀ k ∈ e.columns, -2 ^ 63 ≤ k ∧ k < 2 ^ 63 := by
  have hrange : ∀ columns ∈ [[[1, 5, 0, 0, 0]], [[0, 5, 0, 0]], [], [], [], []],
      ∀ c ∈ columns, ∀ k ∈ c, -2 ^ 63 ≤ k ∧ (k : Int) < 2 ^ 63 := by decide
  obtain ⟨_, _, _, _, -, hcolumns, -⟩ := sections n
  intro x hx e he
  have hmem := List.mem_map_of_mem (f := fun x => x.entries.map EntryNumbers.columns) hx
  rw [hcolumns] at hmem
  exact hrange _ hmem _ (List.mem_map_of_mem he)

theorem sql_offends {n : Int} (hn : (Integer.ceiling : Int) ≤ 2 * n) :
    ∃ report sql, (aggregator n).report? = some report ∧ sql ∈ (aggregator n).sectionNumbers ∧
      sql.table = ⟨"sql", "rollups", rollupSchema, rollupRows⟩ ∧ sql.Offends .unwritable := by
  obtain ⟨report, sql, later, e, hreport, -, hsections, htable, hentries, hblocks⟩ := sections n
  refine ⟨report, sql, hreport, hsections ▸ List.mem_cons_self, htable, ?_⟩
  have hsum : 0 + (0 + n + n) ∈ e.blocks := by
    rw [hblocks, RowCounts.block, List.mergeSort_singleton]
    exact List.mem_cons_self
  exact .tooLong (hentries ▸ List.mem_singleton_self e) hsum (by omega)

end LongSum

/-- All integers in columns are in range, but a sum of rows is too long to be printed. -/
theorem export_fails_within_range :
    let a := LongSum.aggregator (Integer.ceiling - 1)
    let root := OutFolder.root
    let l := TableLibrary.columnar []
    let w := Workspace.start .usual []
    l.Lawful ∧ l.Compresses "snappy" ∧ (∀ t ∈ tabled, (t.path root).Plain) ∧
    (∀ t ∈ tabled, w.files.Writable w.limits.folders (t.path root)) ∧
    (∀ x ∈ a.sectionNumbers, ∀ e ∈ x.entries, ∀ n ∈ e.columns, -2 ^ 63 ≤ n ∧ n < 2 ^ 63) ∧
    ∃ report, a.report? = some report ∧
      ((exportTables l report root "snappy").run.run w).1 = .error .unwritable := by
  intro a root l w
  have hl : l.Lawful := columnar_lawful []
  have hroom : ∀ t ∈ tabled, w.files.Writable w.limits.folders (t.path root) :=
    OutFolder.room_of_locate (by decide +kernel)
  have hlarge : 2 ≤ Integer.ceiling := by decide +kernel
  obtain ⟨report, sql, hreport, hsql, htable, hlong⟩ :=
    LongSum.sql_offends (n := Integer.ceiling - 1) (by omega)
  refine ⟨hl, OutFolder.known, OutFolder.plain, hroom, LongSum.columns_in_range _, report, hreport,
    ?_⟩
  have hafter : ((Aggregator.start .default).run
      (history (LongSum.calls (Integer.ceiling - 1)))).report? = some report := hreport
  have hmem : sql.table ∈ tabled := htable ▸ List.mem_cons_self
  obtain ⟨v, _, hget, -⟩ := report_outlined hafter _ hmem
  obtain ⟨_, hmade, hnone, -⟩ | ⟨f, hfails, hoffends⟩ := made_or_offends hl hafter hsql hget
  · exact absurd hlong (hnone _)
  · cases hoffends.unique hlong
    obtain ⟨u, hrun, -⟩ := export_stops (w := w) "snappy" hget hfails (hroom _ hmem)
    rw [htable] at hrun
    rw [exportTables, exportSections, Work.run_bind, tabled, reportedKinds, List.flatMap_cons,
      List.cons_append, List.mapM_cons, Work.run_bind, hrun]

end QueryTelemetry
