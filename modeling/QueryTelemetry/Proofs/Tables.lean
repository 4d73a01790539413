import Mathlib.Data.List.Forall2
import QueryTelemetry.Proofs.Cells

/-!
# Tables and what they tell

A section has one row per entry, and the rows tell all that the section does. Only a block with an
integer that is too long to be printed has no text, and then no row of the section is made.
-/

set_option autoImplicit false

namespace QueryTelemetry
open Json
open Payload (AllShort)

/-! ## Sections -/

theorem map_ok_iff {ε α β : Type} {f : α → Except ε β} {xs : List α} {ys : List β} :
    xs.mapM f = .ok ys ↔ List.Forall₂ (fun x y => f x = .ok y) xs ys := by
  induction xs generalizing ys with
  | nil => cases ys <;> simp [pure, Except.pure]
  | cons x xs ih =>
    simp only [List.mapM_cons, bind_ok_iff, ih, List.forall₂_cons_left_iff, pure, Except.pure,
      Except.ok.injEq]
    exact ⟨fun ⟨y, hy, ys, hys, h⟩ => ⟨y, ys, hy, hys, h.symm⟩,
      fun ⟨y, ys, hy, hys, h⟩ => ⟨y, hy, ys, hys, h.symm⟩⟩

theorem mem_of_map {α β : Type} {r : α → β → Prop} {xs : List α} {ys : List β}
    (h : List.Forall₂ r xs ys) {y : β} (hy : y ∈ ys) : ∃ x ∈ xs, r x y := by
  induction h with
  | nil => cases hy
  | @cons x z xs ys hr _ ih =>
    rcases List.mem_cons.mp hy with rfl | hy
    · exact ⟨x, List.mem_cons_self, hr⟩
    · obtain ⟨w, hw, hfound⟩ := ih hy
      exact ⟨w, List.mem_cons_of_mem x hw, hfound⟩

theorem mem_of_maps {α β : Type} {r q : α → β → Prop} {xs : List α} {ys : List β}
    (h : List.Forall₂ r xs ys) (hq : List.Forall₂ q xs ys) {x : α} (hx : x ∈ xs) :
    ∃ y, r x y ∧ q x y := by
  induction h with
  | nil => cases hx
  | cons hr _ ih =>
    cases hq with
    | cons hq hrest =>
      rcases List.mem_cons.mp hx with rfl | hx
      · exact ⟨_, hr, hq⟩
      · exact ih hrest hx

theorem sketch_rows_of_short {ks : List Sketch} (h : ∀ k ∈ ks, k.Short) :
    ∃ rows, ks.mapM Sketch.row? = .ok rows := by
  induction ks with
  | nil => exact ⟨[], rfl⟩
  | cons k ks ih =>
    obtain ⟨hk, hks⟩ := List.forall_mem_cons.mp h
    obtain ⟨row, hrow⟩ := Sketch.row_of_short hk
    obtain ⟨rows, hrows⟩ := ih hks
    exact ⟨row :: rows, by rw [List.mapM_cons, hrow, hrows]; rfl⟩

theorem sketch_rows_of_long {ks : List Sketch} (h : ¬ ∀ k ∈ ks, k.Short) :
    ks.mapM Sketch.row? = .error .unwritable := by
  induction ks with
  | nil => exact absurd (List.forall_mem_nil _) h
  | cons k ks ih =>
    rw [List.mapM_cons]
    by_cases hk : k.Short
    · obtain ⟨row, hrow⟩ := Sketch.row_of_short hk
      rw [hrow, ih fun hks => h (List.forall_mem_cons.mpr ⟨hk, hks⟩)]
      rfl
    · rw [Sketch.row_of_long hk]
      rfl

theorem sketches_of_rows {ks ls : List Sketch} {rows : List Row}
    (hk : ∀ k ∈ ks, Ascending k.properties k.rows) (hl : ∀ l ∈ ls, Ascending l.properties l.rows)
    (h : ks.mapM Sketch.row? = .ok rows) (hrows : ls.mapM Sketch.row? = .ok rows) : ks = ls := by
  rw [map_ok_iff] at h hrows
  induction h generalizing ls with
  | nil =>
    cases hrows
    rfl
  | cons hrow _ ih =>
    cases hrows with
    | cons hother hrest =>
      obtain ⟨hk, hks⟩ := List.forall_mem_cons.mp hk
      obtain ⟨hl, hls⟩ := List.forall_mem_cons.mp hl
      rw [Sketch.row_injective hk hl hrow hother, ih hks hls hrest]

def fieldsOf : Json → Assoc Utf16 Json
  | .obj members => members
  | _ => []

/-- The entries of a section with all their fields: in a rollup each stands under its text. -/
def entriesOf : Json → List (Assoc Utf16 Json)
  | .obj members => members.map fun p => (Utf16.ofString "text", .str p.1) :: fieldsOf p.2
  | .arr items => items.map fieldsOf
  | _ => []

def blockIntegers (v : Json) : List Int :=
  (entriesOf v).flatMap fun e => blockColumns.flatMap fun c =>
    (e.get? (Utf16.ofString c)).toList.flatMap integers

def BlocksShort (v : Json) : Prop := AllShort (blockIntegers v)

theorem blocks_short_iff (v : Json) : BlocksShort v ↔ ∀ e ∈ entriesOf v, ∀ c ∈ blockColumns,
    ∀ b ∈ e.get? (Utf16.ofString c), AllShort b.integers := by
  simp only [BlocksShort, AllShort, blockIntegers, List.forall_mem_flatMap, Option.mem_toList,
    Option.mem_def]

def Tabled.build (t : Tabled) (ks : List Sketch) : Json :=
  if t.folder = "rollups" then .ofPairs (ks.map fun k => (k.text, .ofPairs k.members))
  else .arr (ks.map fun k => .ofPairs (("text", .text k.text) :: k.members))

theorem entries_build (t : Tabled) (ks : List Sketch) :
    entriesOf (t.build ks) = ks.map Sketch.entry := by
  unfold Tabled.build
  split
  · rw [Json.ofPairs, entriesOf, List.map_map, List.map_map]
    rfl
  · rw [entriesOf, List.map_map]
    rfl

theorem size_build (t : Tabled) (ks : List Sketch) : (t.build ks).size? = some ks.length := by
  unfold Tabled.build
  split
  · rw [Json.ofPairs, size?, List.length_map, List.length_map]
  · rw [size?, List.length_map]

structure Outlined (t : Tabled) (v : Json) (ks : List Sketch) : Prop where
  whole : v = t.build ks
  rows : t.rows v = ks.mapM Sketch.row?
  fits : ∀ k ∈ ks, k.Fits t.schema
  typed : ∀ k ∈ ks, ∀ row, k.row? = .ok row → t.schema.Types row

namespace Outlined
variable {t : Tabled} {v w : Json} {ks ls : List Sketch}

theorem sized (h : Outlined t v ks) : v.size? = some (entriesOf v).length := by
  rw [h.whole, size_build, entries_build, List.length_map]

theorem short_iff (h : Outlined t v ks) (ha : t.schema.Apart) :
    BlocksShort v ↔ ∀ k ∈ ks, k.Short := by
  rw [blocks_short_iff, h.whole, entries_build, List.forall_mem_map]
  exact forall₂_congr fun k hk => Sketch.entry_short_iff (h.fits k hk) ha

theorem rows_of_short (h : Outlined t v ks) (ha : t.schema.Apart) (hs : BlocksShort v) :
    ∃ rows, t.rows v = .ok rows := by
  rw [h.rows]
  exact sketch_rows_of_short ((h.short_iff ha).mp hs)

theorem rows_of_long (h : Outlined t v ks) (ha : t.schema.Apart) (hs : ¬ BlocksShort v) :
    t.rows v = .error .unwritable := by
  rw [h.rows]
  exact sketch_rows_of_long fun hall => hs ((h.short_iff ha).mpr hall)

theorem rows_typed (h : Outlined t v ks) {rows : List Row} (hrows : t.rows v = .ok rows) :
    ∀ row ∈ rows, t.schema.Types row := by
  rw [h.rows, map_ok_iff] at hrows
  intro row hrow
  obtain ⟨k, hk, hmade⟩ := mem_of_map hrows hrow
  exact h.typed k hk row hmade

theorem rows_numbers (h : Outlined t v ks) {rows : List Row} (hrows : t.rows v = .ok rows) :
    rows.flatMap rowNumbers = (ks.map Sketch.numbers).flatMap EntryNumbers.columns := by
  rw [h.rows, map_ok_iff] at hrows
  clear h
  induction hrows with
  | nil => rfl
  | cons hrow _ ih =>
    rw [List.flatMap_cons, List.map_cons, List.flatMap_cons, Sketch.row_numbers hrow, ih]

theorem rows_carry (h : Outlined t v ks) (ha : t.schema.Apart) {rows : List Row}
    (hrows : t.rows v = .ok rows) : List.Forall₂ (Carries t.schema) (entriesOf v) rows := by
  rw [h.rows, map_ok_iff] at hrows
  rw [h.whole, entries_build, List.forall₂_map_left_iff]
  exact ((List.forall₂_and_left _ _).mpr ⟨h.fits, hrows⟩).imp fun _ _ hk =>
    Sketch.row_carries hk.1 ha hk.2

theorem unique (h : Outlined t v ks) (hw : Outlined t w ls) {rows : List Row}
    (hrows : t.rows v = .ok rows) (hother : t.rows w = .ok rows) : v = w := by
  rw [h.rows] at hrows
  rw [hw.rows] at hother
  have hsame := sketches_of_rows (fun k hk => (h.fits k hk).ascending)
    (fun l hl => (hw.fits l hl).ascending) hrows hother
  rw [h.whole, hw.whole, hsame]

end Outlined

/-! ## Reports -/

/-- The entries of a list that can be written, as sketches. -/
theorem slow_sketches {es : List SlowEntry} {vs : List Json}
    (h : es.mapM SlowEntry.json? = some vs) : ∃ ks : List Sketch,
      vs = ks.map (fun k => .ofPairs (("text", .text k.text) :: k.members)) ∧
      vs.mapM topSlowRow = ks.mapM Sketch.row? ∧
      List.Forall₂ (fun e k => ∃ node, k = SlowEntry.sketch e node) es ks := by
  induction es generalizing vs with
  | nil =>
    cases h
    exact ⟨[], rfl, rfl, .nil⟩
  | cons e es ih =>
    rw [List.mapM_cons] at h
    obtain ⟨v, hv, h⟩ := Option.bind_eq_some_iff.mp h
    obtain ⟨ws, hws, h⟩ := Option.bind_eq_some_iff.mp h
    cases h
    rw [slow_entry_json] at hv
    obtain ⟨node, -, rfl⟩ := Option.map_eq_some_iff.mp hv
    obtain ⟨ks, hvs, hrows, hks⟩ := ih hws
    refine ⟨e.sketch node :: ks, ?_, ?_, .cons ⟨node, rfl⟩ hks⟩
    · rw [hvs]
      rfl
    · rw [List.mapM_cons, List.mapM_cons, slow_row_sketch, hrows]

theorem slow_numbers {es : List SlowEntry} {ks : List Sketch}
    (h : List.Forall₂ (fun e k => ∃ node, k = SlowEntry.sketch e node) es ks) :
    es.map SlowEntry.numbers = ks.map Sketch.numbers := by
  induction h with
  | nil => rfl
  | cons hk _ ih =>
    obtain ⟨node, rfl⟩ := hk
    rw [List.map_cons, List.map_cons, ih]
    rfl

structure SectionNumbers where
  table : Tabled
  entries : List EntryNumbers

def Aggregator.sectionNumbers (a : Aggregator) : List SectionNumbers := [
  ⟨⟨"sql", "rollups", rollupSchema, rollupRows⟩,
    (a.rollup .sqlFields).map fun p => p.2.numbers⟩,
  ⟨⟨"topSlowSql", "top_slow", topSlowSchema, topSlowRows⟩,
    (a.topSlow .sqlFields).map fun e => e.numbers⟩,
  ⟨⟨"scan", "rollups", rollupSchema, rollupRows⟩, (a.rollup .scan).map fun p => p.2.numbers⟩,
  ⟨⟨"topSlowScan", "top_slow", topSlowSchema, topSlowRows⟩,
    (a.topSlow .scan).map fun e => e.numbers⟩,
  ⟨⟨"index", "rollups", rollupSchema, rollupRows⟩, (a.rollup .index).map fun p => p.2.numbers⟩,
  ⟨⟨"topSlowIndex", "top_slow", topSlowSchema, topSlowRows⟩,
    (a.topSlow .index).map fun e => e.numbers⟩]

theorem section_tables (a : Aggregator) : a.sectionNumbers.map SectionNumbers.table = tabled := rfl

section Reports
variable (s : Settings) (h : History) (kind : QueryKind)

theorem rollup_outlined {t : Tabled} (hfolder : t.folder = "rollups")
    (hschema : t.schema = rollupSchema) (hrows : t.rows = rollupRows) :
    Outlined t (((Aggregator.start s).run h).rollupJson kind)
      ((((Aggregator.start s).run h).rollup kind).map fun p => p.2.sketch p.1) := by
  refine ⟨?_, ?_, ?_, ?_⟩
  · rw [Tabled.build, if_pos hfolder, List.map_map]
    rfl
  · rw [hrows, Aggregator.rollupJson, Json.ofPairs, rollupRows, List.map_map, List.mapM_map,
      List.mapM_map]
    congr 1
    funext p
    exact rollup_row_sketch p.1 p.2
  · rw [hschema, rollup_after_run, List.map_map]
    intro k hk
    obtain ⟨text, -, rfl⟩ := List.mem_map.mp hk
    exact ⟨rfl, ascending_blocks _ _ _⟩
  · rw [hschema]
    intro k hk row hrow
    obtain ⟨p, -, rfl⟩ := List.mem_map.mp hk
    exact rollup_sketch_typed hrow

theorem top_slow_outlined {t : Tabled} (hfolder : t.folder ≠ "rollups")
    (hschema : t.schema = topSlowSchema) (hrows : t.rows = topSlowRows) {v : Json}
    (hv : ((Aggregator.start s).run h).topSlowJson? kind = some v) : ∃ ks, Outlined t v ks ∧
      (((Aggregator.start s).run h).topSlow kind).map (fun e => e.numbers) =
        ks.map Sketch.numbers := by
  obtain ⟨vs, hvs, rfl⟩ := Option.map_eq_some_iff.mp hv
  obtain ⟨ks, hwhole, hsketched, hks⟩ := slow_sketches hvs
  refine ⟨ks, ⟨?_, ?_, fun k hk => ?_, fun k hk row hrow => ?_⟩, slow_numbers hks⟩
  · rw [Tabled.build, if_neg hfolder, hwhole]
  · rw [hrows, ← hsketched]
    rfl
  · obtain ⟨e, he, node, rfl⟩ := mem_of_map hks hk
    rw [top_slow_after_run] at he
    obtain ⟨c, -, rfl⟩ := List.mem_map.mp he
    rw [hschema]
    exact ⟨rfl, ascending_blocks _ _ _⟩
  · obtain ⟨e, -, node, rfl⟩ := mem_of_map hks hk
    rw [hschema]
    exact slow_sketch_typed hrow

variable {s h} {report : Report} (hr : ((Aggregator.start s).run h).report? = some report)
include hr

theorem report_numbers : ∀ x ∈ ((Aggregator.start s).run h).sectionNumbers, ∃ v ks,
    report.get? x.table.name = some v ∧ Outlined x.table v ks ∧
      x.entries = ks.map Sketch.numbers := by
  obtain ⟨q, sc, i, hq, hs, hi, rfl⟩ := report_sections hr
  have hfolder : "top_slow" ≠ "rollups" := by decide
  have hrollup (name : String) (kind : QueryKind) :=
    rollup_outlined s h kind (t := ⟨name, "rollups", rollupSchema, rollupRows⟩) rfl rfl rfl
  have hslow (name : String) (kind : QueryKind) {v : Json} :=
    top_slow_outlined s h kind (t := ⟨name, "top_slow", topSlowSchema, topSlowRows⟩) (v := v)
      hfolder rfl rfl
  have hnumbers (rollup : List (String × RollupEntry)) : rollup.map (fun p => p.2.numbers) =
      (rollup.map fun p => p.2.sketch p.1).map Sketch.numbers := by
    rw [List.map_map]
    rfl
  obtain ⟨_, hsql⟩ := hslow "topSlowSql" .sqlFields hq
  obtain ⟨_, hscan⟩ := hslow "topSlowScan" .scan hs
  obtain ⟨_, hindex⟩ := hslow "topSlowIndex" .index hi
  simp only [Aggregator.sectionNumbers, List.forall_mem_cons]
  exact ⟨⟨_, _, rfl, hrollup "sql" .sqlFields, hnumbers _⟩, ⟨_, _, rfl, hsql⟩,
    ⟨_, _, rfl, hrollup "scan" .scan, hnumbers _⟩, ⟨_, _, rfl, hscan⟩,
    ⟨_, _, rfl, hrollup "index" .index, hnumbers _⟩, ⟨_, _, rfl, hindex⟩, List.forall_mem_nil _⟩

theorem report_outlined : ∀ t ∈ tabled, ∃ v ks, report.get? t.name = some v ∧ Outlined t v ks := by
  intro t ht
  rw [← section_tables ((Aggregator.start s).run h)] at ht
  obtain ⟨x, hx, rfl⟩ := List.mem_map.mp ht
  obtain ⟨v, ks, hget, hks, -⟩ := report_numbers hr x hx
  exact ⟨v, ks, hget, hks⟩

end Reports

def tableRows (report : Report) : Except Failure (List (List Row)) :=
  tabled.mapM fun t =>
    match report.get? t.name with
    | some v => t.rows v
    | none => .ok []

section Recovery
variable {s u : Settings} {h g : History} {report other : Report}

theorem section_of_rows (hr : ((Aggregator.start s).run h).report? = some report)
    (ho : ((Aggregator.start u).run g).report? = some other) {t : Tabled} (ht : t ∈ tabled)
    {v w : Json} (hv : report.get? t.name = some v) (hw : other.get? t.name = some w)
    {rows : List Row} (hrows : t.rows v = .ok rows) (horows : t.rows w = .ok rows) : v = w := by
  obtain ⟨_, _, hget, hks⟩ := report_outlined hr t ht
  obtain ⟨_, _, hoget, hls⟩ := report_outlined ho t ht
  cases hv.symm.trans hget
  cases hw.symm.trans hoget
  exact hks.unique hls hrows horows

theorem report_of_rows (hr : ((Aggregator.start s).run h).report? = some report)
    (ho : ((Aggregator.start u).run g).report? = some other) {rows : List (List Row)}
    (hrows : tableRows report = .ok rows) (horows : tableRows other = .ok rows) :
    report = other := by
  have hsame : ∀ t ∈ tabled, report.get? t.name = other.get? t.name := by
    intro t ht
    obtain ⟨v, _, hv, -⟩ := report_outlined hr t ht
    obtain ⟨w, _, hw, -⟩ := report_outlined ho t ht
    obtain ⟨made, hmade, hother⟩ := mem_of_maps (map_ok_iff.mp hrows) (map_ok_iff.mp horows) ht
    rw [hv] at hmade
    rw [hw] at hother
    rw [hv, hw, section_of_rows hr ho ht hv hw hmade hother]
  obtain ⟨q, sc, i, -, -, -, rfl⟩ := report_sections hr
  obtain ⟨p, tc, j, -, -, -, rfl⟩ := report_sections ho
  simp only [tabled, reportedKinds, List.flatMap_cons, List.flatMap_nil, List.cons_append,
    List.nil_append, List.forall_mem_cons] at hsame
  obtain ⟨hsql, hslowSql, hscan, hslowScan, hindex, hslowIndex, -⟩ := hsame
  cases Option.some.inj hslowSql
  cases Option.some.inj hslowScan
  cases Option.some.inj hslowIndex
  rw [show Aggregator.rollupJson _ _ = _ from Option.some.inj hsql,
    show Aggregator.rollupJson _ _ = _ from Option.some.inj hscan,
    show Aggregator.rollupJson _ _ = _ from Option.some.inj hindex]

end Recovery

end QueryTelemetry
