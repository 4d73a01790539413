import QueryTelemetry.Handler
import QueryTelemetry.Manifest
import QueryTelemetry.Proofs.Documents
import QueryTelemetry.Proofs.Rollup

/-!
# The report in its file

Every object of a report tells its members apart: texts, actions and names of properties are keys
that differ wherever the texts do. So nothing is lost where the report is printed to its end, and
whoever reads the file has the report again, in the same order. Sums may be longer than what they
sum up, and too long to be printed.
-/

set_option autoImplicit false

namespace QueryTelemetry
open Json
open Payload (AllShort chars_iff_short)

section Shapes

theorem shaped_rows {m : RowCounts} (h : (m.map Prod.fst).Nodup) : m.json.Shaped 1 := by
  apply shaped_of_pairs
  · rw [List.map_map]
    exact h
  · intro q hq
    obtain ⟨p, -, rfl⟩ := List.mem_map.mp hq
    exact shaped_atom rfl 0

theorem shaped_properties {m : PropertyBlock} (h : (m.map Prod.fst).Nodup) :
    (PropertyBlock.json m).Shaped 2 := by
  apply shaped_of_pairs
  · rw [List.map_map]
    exact h
  · intro q hq
    obtain ⟨p, -, rfl⟩ := List.mem_map.mp hq
    have hkeys : ["value", "count"].Nodup := by decide
    apply shaped_of_pairs
    · exact hkeys
    · simp only [List.forall_mem_cons]
      exact ⟨shaped_atom rfl 0, shaped_atom rfl 0, by simp⟩

structure Distinct (properties : Option PropertyBlock) (rows : Option RowCounts) : Prop where
  names : ∀ b ∈ properties, (b.map Prod.fst).Nodup
  actions : ∀ b ∈ rows, (b.map Prod.fst).Nodup

variable {properties : Option PropertyBlock} {rows : Option RowCounts}

theorem shaped_blocks (h : Distinct properties rows) :
    ∀ p ∈ blockMembers properties rows, p.2.Shaped 2 := by
  intro p hp
  rcases List.mem_append.mp hp with hp | hp
  · obtain ⟨b, hb, rfl⟩ := Option.map_eq_some_iff.mp (Option.mem_toList.mp hp)
    exact shaped_properties (h.names b hb)
  · obtain ⟨b, hb, rfl⟩ := Option.map_eq_some_iff.mp (Option.mem_toList.mp hp)
    exact (shaped_rows (h.actions b hb)).mono (by decide)

/-- The blocks come behind the fields, under names of their own. -/
theorem shaped_entry {fields : List (String × Json)} (h : Distinct properties rows)
    (hk : (fields.map Prod.fst ++ ["properties", "rows"]).Nodup)
    (hf : ∀ p ∈ fields, p.2.nesting = 0) :
    (Json.ofPairs (fields ++ blockMembers properties rows)).Shaped 3 := by
  apply shaped_of_pairs
  · rw [List.map_append]
    have hblocks : ((blockMembers properties rows).map Prod.fst).Sublist
        ["properties", "rows"] := by
      cases properties <;> cases rows <;> simp [blockMembers]
    exact (hblocks.append_left _).nodup hk
  · intro p hp
    rcases List.mem_append.mp hp with hp | hp
    · exact shaped_atom (hf p hp) 2
    · exact shaped_blocks h p hp

theorem shaped_rollup_entry {e : RollupEntry} (h : Distinct e.properties e.rows) :
    e.json.Shaped 3 := by
  have hkeys : ["count", "duration", "logicalReads", "physicalReads", "failures", "properties",
      "rows"].Nodup := by decide
  apply shaped_entry h
  · exact hkeys
  · simp [nesting]

theorem shaped_slow_entry {e : SlowEntry} {v : Json} (h : Distinct e.properties e.rows)
    (hv : e.json? = some v) : v.Shaped 3 := by
  obtain ⟨node, -, rfl⟩ := Option.map_eq_some_iff.mp hv
  have hkeys : ["text", "startTime", "duration", "nodeId", "success", "logicalReads",
      "physicalReads", "properties", "rows"].Nodup := by decide
  apply shaped_entry h
  · exact hkeys
  · simp [nesting, Json.text]

end Shapes

section AfterRun
variable (s : Settings) (h : History) (kind : QueryKind)

theorem distinct_blocks (ps : List PropertyReport) (rs : List RowsReport) (detailed : Prop)
    [Decidable detailed] : Distinct (if detailed then propertyBlock ps else none)
      (if detailed then rowsBlock rs else none) := by
  constructor
  · intro b hb
    have hasc := property_block_ascends ps
    split at hb
    · rw [Option.mem_def.mp hb] at hasc
      exact hasc.imp ne_of_lt
    · cases hb
  · intro b hb
    have hasc := rows_block_ascends rs
    split at hb
    · rw [Option.mem_def.mp hb] at hasc
      exact hasc.imp ne_of_lt
    · cases hb

theorem shaped_rollup : (((Aggregator.start s).run h).rollupJson kind).Shaped 4 := by
  rw [Aggregator.rollupJson, rollup_after_run, List.map_map]
  apply shaped_of_pairs
  · rw [List.map_map]
    exact (List.map_id _).symm ▸ first_seen_nodup _
  · intro q hq
    obtain ⟨t, -, rfl⟩ := List.mem_map.mp hq
    exact shaped_rollup_entry (distinct_blocks _ _ _)

theorem shaped_top_slow {v : Json} (hv : ((Aggregator.start s).run h).topSlowJson? kind = some v) :
    v.Shaped 4 := by
  obtain ⟨es, hes, rfl⟩ := Option.map_eq_some_iff.mp hv
  rw [top_slow_after_run, collect_eq] at hes
  split at hes
  · apply (shaped_arr_iff _ 3).mpr
    intro v hv
    rw [← Option.some.inj hes] at hv
    obtain ⟨e, he, hev⟩ := List.mem_filterMap.mp hv
    obtain ⟨c, -, rfl⟩ := List.mem_map.mp he
    exact shaped_slow_entry (distinct_blocks _ _ _) hev
  · cases hes

/-- The sections stand in the order of their kinds, rollups before lists. -/
theorem report_sections {a : Aggregator} {report : Report} (h : a.report? = some report) :
    ∃ q s i, a.topSlowJson? .sqlFields = some q ∧ a.topSlowJson? .scan = some s ∧
      a.topSlowJson? .index = some i ∧
      report = [("sql", a.rollupJson .sqlFields), ("scan", a.rollupJson .scan),
        ("index", a.rollupJson .index), ("topSlowSql", q), ("topSlowScan", s),
        ("topSlowIndex", i)] := by
  simp only [Aggregator.report?, reportedKinds, List.mapM_cons, List.mapM_nil] at h
  cases hq : a.topSlowJson? .sqlFields with
  | none => simp [hq] at h
  | some q =>
    cases hs : a.topSlowJson? .scan with
    | none => simp [hq, hs] at h
    | some s =>
      cases hi : a.topSlowJson? .index with
      | none => simp [hq, hs, hi] at h
      | some i =>
        refine ⟨q, s, i, rfl, rfl, rfl, ?_⟩
        simpa [hq, hs, hi] using h.symm

variable {s h} in
theorem shaped_report {report : Report} (hr : ((Aggregator.start s).run h).report? = some report) :
    (Json.ofPairs report).Shaped 5 := by
  obtain ⟨q, sc, i, hq, hs, hi, rfl⟩ := report_sections hr
  have hkeys : ["sql", "scan", "index", "topSlowSql", "topSlowScan", "topSlowIndex"].Nodup := by
    decide
  apply shaped_of_pairs
  · exact hkeys
  · simp only [List.forall_mem_cons]
    exact ⟨shaped_rollup s h _, shaped_rollup s h _, shaped_rollup s h _, shaped_top_slow s h _ hq,
      shaped_top_slow s h _ hs, shaped_top_slow s h _ hi, by simp⟩

end AfterRun

structure Record.Printable (r : Record) : Prop where
  fields : r.fields?.isSome
  short : AllShort r.callback.json.integers

theorem printable_of_small {rs : List Record} (h : ∀ r ∈ rs, r.fields?.isSome ∧
    ∀ n ∈ r.callback.json.integers, n.natAbs < Integer.ceiling) : ∀ r ∈ rs, r.Printable :=
  fun r hr => ⟨(h r hr).1, (h r hr).2⟩

theorem node_written {c : Completion} (h : (Record.completion c).fields?.isSome) :
    c.node.text?.isSome := by
  rw [Record.fields?] at h
  cases hn : c.node.text? with
  | some _ => rfl
  | none => rw [hn] at h; cases h

theorem completions_written {h : History} (hs : ∀ r ∈ h, r.Printable) :
    ∀ c ∈ h.completions, c.node.text?.isSome := by
  intro c hc
  obtain ⟨r, hr, hrc⟩ := List.mem_filterMap.mp hc
  cases r with
  | completion d =>
    cases hrc
    exact node_written (hs _ hr).fields
  | reads _ | rows _ | property _ => cases hrc

theorem report_kept {report : Report} (hshape : (Json.ofPairs report).Shaped 5)
    (hshort : AllShort (Json.ofPairs report).integers) (path : Path) (w : Workspace) :
    (∃ e v, (writeReport path (.ofPairs report)).run.run w = (.error (.file e), v)) ∨
    ∃ v content text,
      (writeReport path (.ofPairs report)).run.run w = (.ok ⟨path.text, report.length⟩, v) ∧
      v.files.read path = .ok content ∧ Manifest.contentText content = .ok text ∧
      Json.parse w.limits.nesting text = .ok (.ofPairs report) := by
  have hroom : 5 ≤ w.limits.nesting := le_trans (by decide) w.limits.enough
  have hcomplete : (Json.ofPairs report).pretty.complete := (pretty_complete _).mpr hshort
  have hparse := parse_pretty ⟨hshape.mono hroom, hshort⟩
  have hsize : (Json.ofPairs report).size? = some report.length := by
    rw [Json.ofPairs, Json.size?, List.length_map]
  have hrun := run_write_document path (.ofPairs report) w
  unfold writeReport
  rw [Work.run_bind, hrun, hsize]
  dsimp only
  cases (w.files.makeFolders w.limits.folders path.parent).1 with
  | error e => exact Or.inl ⟨e, _, rfl⟩
  | ok _ =>
    dsimp only
    cases hwrite : (w.files.makeFolders w.limits.folders path.parent).2.write path _ with
    | error e => exact Or.inl ⟨e, _, rfl⟩
    | ok u =>
      dsimp only
      rw [if_pos hcomplete]
      exact Or.inr ⟨_, _, _, rfl, FileTree.read_write hwrite, Manifest.content_text _, hparse⟩

/-- After any session with integers that can be printed there is a report of six sections, in which
every object tells its members apart. It is printed to its end exactly if the integers that it
shows can be printed, sums among them. Then its file, if it can be written at all, is read as the
very report. -/
theorem report_read_back (s : Settings) (calls : List Call)
    (h : ∀ r ∈ history calls, r.Printable) :
    let a := ((Session.start s).run calls).aggregator
    ∃ report, a.report? = some report ∧
      report.keys = ["sql", "scan", "index", "topSlowSql", "topSlowScan", "topSlowIndex"] ∧
      (∀ kind, ((a.rollup kind).map fun p => Utf16.ofString p.1).Nodup) ∧
      (Json.ofPairs report).Keyed ∧
      ((Json.ofPairs report).pretty.complete ↔ AllShort (Json.ofPairs report).integers) ∧
      (AllShort (Json.ofPairs report).integers → ∀ path w,
        (∃ e v, (writeReport path (.ofPairs report)).run.run w = (.error (.file e), v)) ∨
        ∃ v content text,
          (writeReport path (.ofPairs report)).run.run w = (.ok ⟨path.text, 6⟩, v) ∧
          v.files.read path = .ok content ∧ Manifest.contentText content = .ok text ∧
          Json.parse w.limits.nesting text = .ok (.ofPairs report)) := by
  intro a
  have ha : a = (Aggregator.start s).run (history calls) := Session.run_aggregator _ calls
  obtain ⟨report, hreport⟩ :=
    Option.isSome_iff_exists.mp (report_written s (completions_written h))
  obtain ⟨q, sc, i, -, -, -, hsections⟩ := report_sections hreport
  have hshape := shaped_report hreport
  refine ⟨report, ha ▸ hreport, ?_, ?_, hshape.keyed, pretty_complete _, ?_⟩
  · rw [hsections]
    rfl
  · intro kind
    have hkeys : ((a.rollup kind).map Prod.fst).Nodup := by
      rw [rollup_texts]
      exact first_seen_nodup _
    have hunits := hkeys.map Utf16.of_string_injective
    rwa [List.map_map] at hunits
  · intro hshort path w
    have hsix : report.length = 6 := by rw [hsections]; rfl
    rw [← hsix]
    exact report_kept hshape hshort path w

theorem run_first_document (v : Json) : ∃ u,
    (writeDocument (Path.ofText "report.json") v).run.run (.start .usual []) =
      (if v.pretty.complete then .ok () else .error .unwritable, u) := by
  have hmade : FileTree.empty.makeFolders Limits.usual.folders (Path.ofText "report.json").parent =
      (.ok (), .empty) := rfl
  have hwritten (c : Content) :
      ∃ u, FileTree.empty.write (Path.ofText "report.json") c = .ok u := ⟨_, rfl⟩
  obtain ⟨u, hu⟩ := hwritten (.bytes v.pretty.text.toUTF8)
  rw [run_write_document]
  simp only [Workspace.start, hmade, hu]
  exact ⟨_, rfl⟩

/-- Quotes, a surrogate pair and a deleted character in the keys. -/
theorem report_read_back_of_escaped_texts :
    let done : Completion := ⟨.sqlFields, "say \"𝄞\"", .named "n", 1, 0, 5000000, true⟩
    let again : Completion := ⟨.sqlFields, "\u007f", .numbered (-2), 1, 0, -1, false⟩
    let seen : PropertyReport := ⟨.named "n", .sqlFields, .named "n", 1, "plan\n", "\\"⟩
    let calls : List Call := [.deliver (.completion done), .deliver (.completion again), .results,
      .deliver (.property seen)]
    let a := ((Session.start .default).run calls).aggregator
    (∀ r ∈ history calls, r.Printable) ∧
    ∃ report, a.report? = some report ∧ AllShort (Json.ofPairs report).integers ∧
      ∃ v content text,
        (writeReport (Path.ofText "report.json") (.ofPairs report)).run.run (.start .usual []) =
          (.ok ⟨"report.json", 6⟩, v) ∧
        v.files.read (Path.ofText "report.json") = .ok content ∧
        Manifest.contentText content = .ok text ∧
        Json.parse Limits.usual.nesting text = .ok (.ofPairs report) := by
  intro done again seen calls a
  have hcalls : ∀ r ∈ history calls, r.Printable := printable_of_small (by decide +kernel)
  have hshown : a.report?.map (fun report => (Json.ofPairs report).integers) =
      some [1, 5, 0, 0, 0, 1, 1, -1, 0, 0, 1, 0, -1, 0, 0, 0, 5, 0, 0, 1] := by
    decide +kernel
  have hfew : ∀ n ∈ [1, 5, 0, 0, 0, 1, 1, -1, 0, 0, 1, 0, -1, 0, 0, 0, 5, 0, 0, 1],
      Int.natAbs n < Integer.ceiling := by
    decide +kernel
  obtain ⟨report, hreport, -, -, -, -, hkept⟩ := report_read_back .default calls hcalls
  have hshort : AllShort (Json.ofPairs report).integers := by
    have hints := hshown
    rw [hreport, Option.map_some] at hints
    rw [Option.some.inj hints]
    exact hfew
  refine ⟨hcalls, report, hreport, hshort, ?_⟩
  rcases hkept hshort (Path.ofText "report.json") (.start .usual []) with ⟨e, v, hfails⟩ | hkept
  · obtain ⟨u, hu⟩ := run_first_document (Json.ofPairs report)
    rw [writeReport, Work.run_bind, hu, if_pos ((pretty_complete _).mpr hshort)] at hfails
    cases hfails
  · exact hkept

/-- Reads that can be printed one by one, but not their sum. -/
theorem report_with_long_sum :
    let read : ReadsReport := ⟨.named "n", .sqlFields, .named "n", 1, Integer.ceiling - 1, 0⟩
    let done : Completion := ⟨.sqlFields, "q", .named "n", 1, 0, 5000000, true⟩
    let calls : List Call :=
      [.deliver (.reads read), .deliver (.reads read), .deliver (.completion done)]
    let a := ((Session.start .default).run calls).aggregator
    (∀ r ∈ history calls, r.Printable) ∧
    ∃ report v, a.report? = some report ∧
      (writeReport (Path.ofText "report.json") (.ofPairs report)).run.run (.start .usual []) =
        (.error .unwritable, v) := by
  intro read done calls a
  have hcalls : ∀ r ∈ history calls, r.Printable := printable_of_small (by decide +kernel)
  have hshown (n : Int) : ∃ report,
      ((Session.start .default).run [.deliver (.reads { read with logical := n }),
        .deliver (.reads { read with logical := n }),
        .deliver (.completion done)]).aggregator.report? = some report ∧
      (Json.ofPairs report).integers = [1, 5, 0 + (n + n), 0, 0, 0, 5, n + n, 0] :=
    ⟨_, rfl, rfl⟩
  obtain ⟨report, hreport, hints⟩ := hshown (Integer.ceiling - 1)
  have hlong : ¬ (Json.ofPairs report).pretty.complete := by
    rw [pretty_complete, hints]
    intro hshort
    have hsum := hshort (0 + (Integer.ceiling - 1 + (Integer.ceiling - 1)))
      (List.mem_cons_of_mem _ (List.mem_cons_of_mem _ List.mem_cons_self))
    have hone : 1 < Integer.ceiling := by decide +kernel
    omega
  obtain ⟨u, hu⟩ := run_first_document (Json.ofPairs report)
  rw [if_neg hlong] at hu
  refine ⟨hcalls, report, u, hreport, ?_⟩
  rw [writeReport, Work.run_bind, hu]

end QueryTelemetry
