import QueryTelemetry.Proofs.Manifests
import QueryTelemetry.Proofs.Overwriting
import QueryTelemetry.Proofs.Parsed

/-!
# Appending to a manifest

An entry goes behind the runs of whatever document is there, and is told the number that comes next.
Of the rest of the document only the version and the time of the last run change, in their places if
they have one. A file without a document is begun anew, and from then on its runs are numbered one
after the other.
-/

set_option autoImplicit false

namespace QueryTelemetry
open Json

def stampAfter (stamps : Nat) : String := "T" ++ toString (stamps + 1)

namespace Manifest

/-- The members with one run more, its version and its time, and everything else as it was. -/
structure Appended (m : Members) (rs : List Json) (e : ManifestEntry) (now : String)
    (n : Members) : Prop where
  keys : n.keys = m.keys ++ [key "report_version", key "updated_at"].filter (· ∉ m.keys)
  version : n.get? (key "report_version") = some (.int e.reportVersion)
  updated : n.get? (key "updated_at") = some (.text now)
  runs : n.get? (key "runs") = some (.arr (rs ++ [.ofPairs [
    ("run_id", .int (rs.length + 1)),
    ("created_at", .text now),
    ("event_counts", e.eventCounts),
    ("section_sizes", e.sectionSizes),
    ("settings", e.settings),
    ("artifacts", e.artifacts)]]))
  others : ∀ k, k ∉ [key "report_version", key "updated_at", key "runs"] → n.get? k = m.get? k

section Extending
variable {m : Members} {rs : List Json} {e : ManifestEntry} {room : Nat}

/-- The version and the time are put where the runs are not. -/
theorem extend_of_runs (hm : m.get? (key "runs") = some (.arr rs)) (now : String) :
    extend m e now = .ok ((((m.put (key "report_version") (.int e.reportVersion)).put
      (key "updated_at") (.text now)).put (key "runs")
        (.arr (rs ++ [runEntry e (rs.length + 1) now]))), rs.length + 1) := by
  have hruns : runs ((m.put (key "report_version") (.int e.reportVersion)).put
      (key "updated_at") (.text now)) = .ok rs := by
    simp [runs, Assoc.get_put, key_eq_iff, hm]
  rw [extend, hruns]
  rfl

theorem extend_appended (hm : m.get? (key "runs") = some (.arr rs)) (now : String) :
    ∃ n, extend m e now = .ok (n, rs.length + 1) ∧ Appended m rs e now n := by
  have hpresent : key "runs" ∈ m.keys := by
    rw [← Assoc.has_iff, Assoc.has, hm]
    rfl
  refine ⟨_, extend_of_runs hm now, ?_, ?_, ?_, ?_, ?_⟩
  · by_cases hversion : key "report_version" ∈ m.keys <;>
      by_cases hupdated : key "updated_at" ∈ m.keys <;>
      simp [Assoc.put, Assoc.keys_update, key_eq_iff, hpresent, hversion, hupdated]
  · simp [Assoc.get_put, key_eq_iff]
  · simp [Assoc.get_put, key_eq_iff]
  · rw [Assoc.get_put, if_pos rfl, runEntry]
    rfl
  · intro k hk
    simp only [List.mem_cons, List.not_mem_nil, or_false, not_or] at hk
    obtain ⟨hversion, hupdated, hruns⟩ := hk
    simp only [Assoc.get_put, hversion, hupdated, hruns, if_false]

theorem sound_put {k : Utf16} {v : Json} (hm : (obj m).Sound (room + 1)) (hv : v.Sound room) :
    (obj (m.put k v)).Sound (room + 1) := by
  obtain ⟨hkeys, hall⟩ := (sound_obj_iff m room).mp hm
  refine (sound_obj_iff _ room).mpr ⟨Assoc.keys_nodup_update hkeys k _, fun p hp => ?_⟩
  rcases Assoc.mem_put hp with hp | rfl
  · exact hall p hp
  · exact hv

theorem sound_extend (hm : (obj m).Sound (room + 3)) (hruns : m.get? (key "runs") = some (.arr rs))
    (he : e.Within room) (hn : rs.length + 1 < Integer.ceiling) {now : String} {n : Members}
    {runId : Nat} (hextend : extend m e now = .ok (n, runId)) : (obj n).Sound (room + 3) := by
  rw [extend_of_runs hruns now] at hextend
  cases hextend
  obtain ⟨hkeys, hall⟩ := (sound_obj_iff m (room + 2)).mp hm
  have hearlier : (Json.arr rs).Sound (room + 2) :=
    hall (key "runs", .arr rs) ((Assoc.get_mem hkeys).mp hruns)
  have hlater : (Json.arr (rs ++ [runEntry e (rs.length + 1) now])).Sound (room + 2) := by
    refine (sound_arr_iff _ (room + 1)).mpr fun v hv => ?_
    rcases List.mem_append.mp hv with hv | hv
    · exact (sound_arr_iff rs (room + 1)).mp hearlier v hv
    · rw [List.mem_singleton.mp hv]
      exact sound_run_entry he hn now
  exact sound_put (sound_put (sound_put hm (sound_int he.version _)) (sound_text now _)) hlater

end Extending

section Running
variable {path : Path} {w v : Workspace} {d : Option Json} {e : ManifestEntry}

theorem write_run {d : Json} (hwrite : w.files.Writable w.limits.folders path)
    (hd : d.Sound w.limits.nesting) :
    ∃ t, (writeDocument path d).run.run w = (.ok (), { w with files := t }) ∧
      t.read path = .ok (.bytes d.pretty.text.toUTF8) := by
  obtain ⟨hmade, _, _, hfirst⟩ := hwrite
  obtain ⟨t, ht⟩ := FileTree.write_content (d := .bytes d.pretty.text.toUTF8) hfirst
  refine ⟨t, ?_, FileTree.read_write ht⟩
  rw [run_write_document]
  dsimp only
  rw [hmade]
  dsimp only
  rw [ht, if_pos ((pretty_complete d).mpr hd.short)]

theorem append_run (hload : (load? path).run.run w = (.ok d, v)) (hfiles : v.files = w.files)
    (hstamps : v.stamps = w.stamps) (hlimits : v.limits = w.limits)
    (hwrite : w.files.Writable w.limits.folders path) {m n : Members} {runId : Nat}
    (hm : membersOf e (stampAfter w.stamps) d = .ok m)
    (hn : extend m e (stampAfter w.stamps) = .ok (n, runId))
    (hsound : (obj n).Sound w.limits.nesting) :
    ∃ u, (append path e).run.run w = (.ok ⟨path.text, runId⟩, u) ∧
      u.files.read path = .ok (.bytes (obj n).pretty.text.toUTF8) ∧ u.stamps = w.stamps + 1 ∧
      u.limits = w.limits := by
  rw [← hfiles, ← hlimits] at hwrite
  rw [← hlimits] at hsound ⊢
  obtain ⟨t, hwritten, hread⟩ := write_run (w := { v with stamps := v.stamps + 1 }) hwrite hsound
  rw [← hstamps] at hm hn ⊢
  unfold append
  rw [Work.run_bind, hload]
  dsimp only
  rw [Work.run_bind, Work.run_stamp]
  dsimp only
  rw [Work.run_bind, Work.run_of_except, ← stampAfter, hm]
  dsimp only
  rw [Work.run_bind, Work.run_of_except, hn]
  dsimp only
  rw [Work.run_bind, hwritten]
  dsimp only
  rw [Work.run_bind, Work.run_log_line]
  exact ⟨_, rfl, hread, rfl, rfl⟩

/-- No document is at the path: no file, though one could be written, or a file with text that is no
document, or with a null one. -/
def NoDocument (path : Path) (w : Workspace) : Prop :=
  (w.files.present path = .ok false ∧ w.files.Writable w.limits.folders path) ∨
    ∃ c text, w.files.read path = .ok c ∧ contentText c = .ok text ∧
      (Json.parse w.limits.nesting text = .error .corrupt ∨
        Json.parse w.limits.nesting text = .ok .null)

theorem load_no_document (h : NoDocument path w) : w.files.Writable w.limits.folders path ∧
    ∃ v, (load? path).run.run w = (.ok none, v) ∧ v.files = w.files ∧ v.stamps = w.stamps ∧
      v.limits = w.limits := by
  rcases h with ⟨habsent, hwrite⟩ | ⟨c, text, hc, ht, hnone⟩
  · refine ⟨hwrite, w, ?_, rfl, rfl, rfl⟩
    unfold load?
    rw [Work.run_bind, Work.run_ask_files, habsent]
    rfl
  · refine ⟨FileTree.writable_of_read hc, ?_⟩
    unfold load?
    rw [Work.run_bind, Work.run_ask_files, present_of_read hc]
    simp only [Bool.not_true, Bool.false_eq_true, if_false]
    rw [Work.run_bind, Work.run_ask_files, hc]
    dsimp only
    rw [Work.run_bind, Work.run_of_except, ht]
    dsimp only
    rw [Work.run_bind, Work.run_get]
    dsimp only
    rcases hnone with hcorrupt | hnull
    · rw [hcorrupt]
      exact ⟨_, rfl, rfl, rfl, rfl⟩
    · rw [hnull]
      exact ⟨w, rfl, rfl, rfl, rfl⟩

end Running

def enteredFrom (stamps : Nat) (es : List ManifestEntry) : List Entered :=
  es.mapIdx fun i e => ⟨e, stampAfter (stamps + i)⟩

theorem entered_from_cons (stamps : Nat) (e : ManifestEntry) (es : List ManifestEntry) :
    enteredFrom stamps (e :: es) = ⟨e, stampAfter stamps⟩ :: enteredFrom (stamps + 1) es := by
  simp only [enteredFrom, List.mapIdx_cons, Nat.add_zero, Nat.add_assoc, Nat.add_comm 1]

/-- The document of entries was created with the first of them. -/
theorem document_from (stamps : Nat) (e : ManifestEntry) (es : List ManifestEntry) :
    ∃ version updated, document (enteredFrom stamps (e :: es)) =
      some (.obj (outline version (stampAfter stamps) (numbered (enteredFrom stamps (e :: es)))
        updated)) := by
  obtain ⟨last, hlast⟩ : ∃ last, (enteredFrom stamps (e :: es)).getLast? = some last :=
    ⟨_, List.getLast?_eq_some_getLast (by simp [entered_from_cons])⟩
  refine ⟨last.entry.reportVersion, last.time, ?_⟩
  rw [document, hlast, entered_from_cons]
  rfl

theorem numbered_from (stamps : Nat) (es : List ManifestEntry) :
    numbered (enteredFrom stamps es) =
      es.mapIdx fun i e => .ofPairs [
        ("run_id", .int (i + 1)),
        ("created_at", .text (stampAfter (stamps + i))),
        ("event_counts", e.eventCounts),
        ("section_sizes", e.sectionSizes),
        ("settings", e.settings),
        ("artifacts", e.artifacts)] := by
  apply List.ext_getElem
  · simp [numbered, enteredFrom]
  · intro i hi hj
    simp [numbered, enteredFrom, runEntry, Int.add_comm 1]

section Appends
variable {path : Path} {room : Nat}

/-- After any appends the document tells the runs before them and the runs that they entered. -/
theorem appends_run {es : List ManifestEntry} (hes : ∀ e ∈ es, e.Within room) {done : List Entered}
    {w v : Workspace} (hroom : room + 3 ≤ w.limits.nesting)
    (hload : (load? path).run.run w = (.ok (document done), v)) (hfiles : v.files = w.files)
    (hstamps : v.stamps = w.stamps) (hlimits : v.limits = w.limits)
    (hwrite : w.files.Writable w.limits.folders path)
    (hdone : ∀ x ∈ done, x.entry.Within room) (hn : done.length + es.length < Integer.ceiling) :
    ∃ u, (es.mapM (append path)).run.run w =
        (.ok ((List.range' (done.length + 1) es.length).map fun i => ⟨path.text, i⟩), u) ∧
      ((load? path).run.run u).1 = .ok (document (done ++ enteredFrom w.stamps es)) := by
  induction es generalizing done w v with
  | nil =>
    refine ⟨w, rfl, ?_⟩
    rw [hload]
    exact congrArg (fun xs => Except.ok (document xs)) (List.append_nil done).symm
  | cons e es ih =>
    obtain ⟨he, hes⟩ := List.forall_mem_cons.mp hes
    rw [List.length_cons] at hn
    have hlater : ∀ x ∈ done ++ [⟨e, stampAfter w.stamps⟩], x.entry.Within room := by
      intro x hx
      rcases List.mem_append.mp hx with hx | hx
      · exact hdone x hx
      · rw [List.mem_singleton.mp hx]
        exact he
    have hcount : (done ++ [(⟨e, stampAfter w.stamps⟩ : Entered)]).length = done.length + 1 :=
      List.length_append
    obtain ⟨m, n, hm, hextend, hnext⟩ := entered_document done e (stampAfter w.stamps)
    have hsound : (obj n).Sound w.limits.nesting :=
      (sound_document hlater (by omega) _ hnext).mono hroom
    obtain ⟨u, hrun, hread, hu, hlimits⟩ :=
      append_run hload hfiles hstamps hlimits hwrite hm hextend hsound
    have hreload := load_document (hlimits ▸ hsound) (fun h => by cases h) hread
    rw [← hnext] at hreload
    obtain ⟨t, hrest, hloaded⟩ := ih hes (hlimits ▸ hroom) hreload rfl rfl rfl
      (FileTree.writable_of_read hread) hlater (by omega)
    refine ⟨t, ?_, ?_⟩
    · rw [List.mapM_cons, Work.run_bind, hrun]
      dsimp only
      rw [Work.run_bind, hrest, hcount]
      rfl
    · rw [hloaded, hu, entered_from_cons, List.append_assoc, List.singleton_append]

end Appends

/-- The members of a run lie three levels deep. -/
theorem room_for_document (limits : Limits) : limits.nesting - 3 + 3 = limits.nesting :=
  Nat.sub_add_cancel (le_trans (by decide) limits.enough)

/-- Appending preserves everything that is in a manifest. -/
theorem append_preserves (path : Path) (w : Workspace) :
    (∀ (c : Content) (text : String) (m : Members) (rs : List Json) (e : ManifestEntry),
      w.files.read path = .ok c → contentText c = .ok text →
      Json.parse w.limits.nesting text = .ok (.obj m) →
      m.get? (key "runs") = some (.arr rs) → e.Within (w.limits.nesting - 3) →
      rs.length + 1 < Integer.ceiling →
      ∃ n u, (append path e).run.run w = (.ok ⟨path.text, rs.length + 1⟩, u) ∧
        ((load? path).run.run u).1 = .ok (some (.obj n)) ∧
        Appended m rs e (stampAfter w.stamps) n) ∧
    (∀ es : List ManifestEntry, NoDocument path w → es ≠ [] →
      (∀ e ∈ es, e.Within (w.limits.nesting - 3)) → es.length < Integer.ceiling →
      ∃ n u, (es.mapM (append path)).run.run w =
          (.ok ((List.range' 1 es.length).map fun i => ⟨path.text, i⟩), u) ∧
        ((load? path).run.run u).1 = .ok (some (.obj n)) ∧
        Assoc.get? n (key "runs") = some (.arr (es.mapIdx fun i e => .ofPairs [
          ("run_id", .int (i + 1)),
          ("created_at", .text (stampAfter (w.stamps + i))),
          ("event_counts", e.eventCounts),
          ("section_sizes", e.sectionSizes),
          ("settings", e.settings),
          ("artifacts", e.artifacts)])) ∧
        Assoc.get? n (key "created_at") = some (.text (stampAfter w.stamps))) := by
  have hroom := room_for_document w.limits
  constructor
  · intro c text m rs e hc ht hparse hruns he hn
    have hload := load_read hc ht hparse (fun h => by cases h)
    obtain ⟨n, hextend, happended⟩ := extend_appended (e := e) hruns (stampAfter w.stamps)
    have hsound : (obj n).Sound w.limits.nesting :=
      hroom ▸ sound_extend (hroom.symm ▸ parse_sound hparse) hruns he hn hextend
    obtain ⟨u, hrun, hread, -, hlimits⟩ :=
      append_run hload rfl rfl rfl (FileTree.writable_of_read hc) rfl hextend hsound
    refine ⟨n, u, hrun, ?_, happended⟩
    rw [load_document (hlimits ▸ hsound) (fun h => by cases h) hread]
  · intro es hnone hne hes hn
    obtain ⟨hwrite, v, hload, hfiles, hstamps, hlimits⟩ := load_no_document hnone
    have hnew : ∀ x ∈ ([] : List Entered), x.entry.Within (w.limits.nesting - 3) := fun x hx =>
      absurd hx List.not_mem_nil
    obtain ⟨u, hrun, hloaded⟩ := appends_run hes hroom.le hload hfiles hstamps hlimits hwrite hnew
      (by simpa using hn)
    rw [List.nil_append] at hloaded
    cases es with
    | nil => exact absurd rfl hne
    | cons e es =>
      obtain ⟨version, updated, hdocument⟩ := document_from w.stamps e es
      refine ⟨_, u, hrun, hdocument ▸ hloaded, ?_, ?_⟩
      · rw [← numbered_from]
        simp [outline, Assoc.get?, key_eq_iff]
      · simp [outline, Assoc.get?, key_eq_iff]

/-! ## One file -/

def bare : ManifestEntry := ⟨1, .ofPairs [], .ofPairs [], .ofPairs [], .ofPairs []⟩

theorem bare_within (room : Nat) : bare.Within (room + 1) := by
  have hempty : (Json.ofPairs []).Sound (room + 1) :=
    sound_of_pairs List.nodup_nil fun p hp => absurd hp List.not_mem_nil
  exact ⟨by decide +kernel, hempty, hempty, hempty, hempty⟩

def bareRun (runId : Int) (now : String) : Json := .ofPairs [
  ("run_id", .int runId), ("created_at", .text now), ("event_counts", .ofPairs []),
  ("section_sizes", .ofPairs []), ("settings", .ofPairs []), ("artifacts", .ofPairs [])]

def onlyFile : Path := ⟨"", ["m.json"]⟩

def holding (b : ByteArray) : Workspace :=
  { Workspace.start .usual [] with files := ⟨[(["m.json"], .bytes b)], []⟩ }

theorem read_holding (b : ByteArray) : (holding b).files.read onlyFile = .ok (.bytes b) := by
  have hplace : FileTree.empty.locate onlyFile = .ok ["m.json"] := by decide +kernel
  exact FileTree.read_at (FileTree.locate_folders rfl hplace) rfl rfl

theorem room_for_file : (Workspace.start .usual []).files.present onlyFile = .ok false ∧
    (Workspace.start .usual []).files.Writable Limits.usual.folders onlyFile := by
  have hplace : FileTree.empty.locate onlyFile = .ok ["m.json"] := by decide +kernel
  exact ⟨by decide +kernel, by decide +kernel, .table [], _,
    FileTree.write_at (FileTree.locate_folders rfl hplace) rfl _⟩

/-- A document with a note and a run of another form keeps both, and a file that was not there gets
two runs. -/
theorem append_behind_other_run :
    let m : Members := [(key "updated_at", .bool true), (key "runs", .arr [.arr [.int 7]]),
      (key "note", .bool false)]
    let w := holding (obj m).pretty.text.toUTF8
    (∃ n u, (append onlyFile bare).run.run w = (.ok ⟨"m.json", 2⟩, u) ∧
      ((load? onlyFile).run.run u).1 = .ok (some (.obj n)) ∧
      Assoc.keys n = [key "updated_at", key "runs", key "note", key "report_version"] ∧
      Assoc.get? n (key "note") = some (.bool false) ∧
      Assoc.get? n (key "runs") = some (.arr [.arr [.int 7], bareRun 2 "T1"])) ∧
    (∃ n u, ([bare, bare].mapM (append onlyFile)).run.run (.start .usual []) =
        (.ok [⟨"m.json", 1⟩, ⟨"m.json", 2⟩], u) ∧
      ((load? onlyFile).run.run u).1 = .ok (some (.obj n)) ∧
      Assoc.get? n (key "runs") = some (.arr [bareRun 1 "T1", bareRun 2 "T2"]) ∧
      Assoc.get? n (key "created_at") = some (.text "T1")) := by
  intro m w
  have hstamps : stampAfter 0 = "T1" ∧ stampAfter 1 = "T2" := by decide +kernel
  obtain ⟨hfirst, hsecond⟩ := hstamps
  constructor
  · have hsound : (obj m).Sound (987 + 1) := by
      have hrun : (Json.arr [.int 7]).Sound (985 + 1) :=
        (sound_arr_iff _ 985).mpr (by simpa using sound_int (n := 7) (by decide +kernel) 985)
      have hruns : (Json.arr [.arr [.int 7]]).Sound (986 + 1) :=
        (sound_arr_iff _ 986).mpr (by simpa using hrun)
      refine (sound_obj_iff m 987).mpr ⟨by decide, ?_⟩
      simp only [m, List.forall_mem_cons]
      exact ⟨sound_bool true 987, hruns, sound_bool false 987, by simp⟩
    obtain ⟨n, u, hrun, hload, happended⟩ :=
      (append_preserves onlyFile w).1 _ _ m [.arr [.int 7]] bare (read_holding _) (content_text _)
        (parse_pretty hsound) rfl (bare_within 984) (by decide +kernel)
    have hruns := happended.runs
    rw [show w.stamps = 0 from rfl, hfirst] at hruns
    exact ⟨n, u, hrun, hload, happended.keys, happended.others (key "note") (by decide), hruns⟩
  · have hbare : ∀ e ∈ [bare, bare], e.Within (Limits.usual.nesting - 3) := by
      simp only [List.forall_mem_cons]
      exact ⟨bare_within 984, bare_within 984, List.forall_mem_nil _⟩
    obtain ⟨n, u, hrun, hload, hruns, hcreated⟩ :=
      (append_preserves onlyFile (.start .usual [])).2 [bare, bare] (.inl room_for_file)
        (List.cons_ne_nil bare [bare]) hbare (by decide +kernel)
    rw [show (Workspace.start .usual []).stamps = 0 from rfl] at hruns hcreated
    simp only [List.mapIdx_cons, List.mapIdx_nil, Nat.zero_add, hfirst, hsecond] at hruns
    exact ⟨n, u, hrun, hload, hruns, hfirst ▸ hcreated⟩

end Manifest

end QueryTelemetry
