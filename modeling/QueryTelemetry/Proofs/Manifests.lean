import QueryTelemetry.Manifest
import QueryTelemetry.Proofs.Documents
import QueryTelemetry.Proofs.Spared

/-!
# Manifests of many runs

The document of a manifest lists its runs by their numbers, with the version and the time of the
last one and the time of the first. Entering a run takes one such document to the next, and what
was written is read as the same document the next time.
-/

set_option autoImplicit false

namespace QueryTelemetry
open Json

structure Entered where
  entry : ManifestEntry
  time : String

structure ManifestEntry.Sound (e : ManifestEntry) : Prop where
  version : e.reportVersion.natAbs < Integer.ceiling
  counts : e.eventCounts.Sound 1
  sizes : e.sectionSizes.Sound 1
  settings : e.settings.Sound 1
  artifacts : e.artifacts.Sound 1

structure ManifestEntry.Within (room : Nat) (e : ManifestEntry) : Prop where
  version : e.reportVersion.natAbs < Integer.ceiling
  counts : e.eventCounts.Sound room
  sizes : e.sectionSizes.Sound room
  settings : e.settings.Sound room
  artifacts : e.artifacts.Sound room

theorem ManifestEntry.Sound.within {e : ManifestEntry} (h : e.Sound) : e.Within 1 :=
  ⟨h.version, h.counts, h.sizes, h.settings, h.artifacts⟩

namespace Manifest

def numbered (es : List Entered) : List Json :=
  (es.zipIdx 1).map fun p => runEntry p.1.entry p.2 p.1.time

theorem numbered_concat (es : List Entered) (x : Entered) :
    numbered (es ++ [x]) = numbered es ++ [runEntry x.entry (es.length + 1) x.time] := by
  rw [numbered, numbered, List.zipIdx_append, List.map_append, Nat.add_comm]
  rfl

theorem numbered_length (es : List Entered) : (numbered es).length = es.length := by
  rw [numbered, List.length_map, List.length_zipIdx]

def outline (version : Int) (created : String) (runs : List Json) (updated : String) : Members :=
  [(key "report_version", .int version), (key "created_at", .text created), (key "runs", .arr runs),
    (key "updated_at", .text updated)]

def document (es : List Entered) : Option Json :=
  match es.head?, es.getLast? with
  | some first, some last =>
    some (.obj (outline last.entry.reportVersion first.time (numbered es) last.time))
  | _, _ => none

theorem key_eq_iff (a b : String) : key a = key b ↔ a = b := Utf16.of_string_injective.eq_iff

theorem extend_fresh (e : ManifestEntry) (now : String) :
    extend (fresh e.reportVersion now) e now =
      .ok (outline e.reportVersion now [runEntry e 1 now] now, 1) := by
  simp [extend, fresh, outline, runs, Assoc.put, Assoc.update, Assoc.get?, key_eq_iff, bind,
    Except.bind, pure, Except.pure]

theorem extend_outline (version : Int) (created updated : String) (rs : List Json)
    (e : ManifestEntry) (now : String) :
    extend (outline version created rs updated) e now =
      .ok (outline e.reportVersion created (rs ++ [runEntry e (rs.length + 1) now]) now,
        rs.length + 1) := by
  simp [extend, outline, runs, Assoc.put, Assoc.update, Assoc.get?, key_eq_iff, bind,
    Except.bind, pure, Except.pure]

theorem entered_document (es : List Entered) (e : ManifestEntry) (now : String) :
    ∃ m n, membersOf e now (document es) = .ok m ∧
      extend m e now = .ok (n, es.length + 1) ∧ document (es ++ [⟨e, now⟩]) = some (.obj n) := by
  cases es with
  | nil => exact ⟨_, _, rfl, extend_fresh e now, rfl⟩
  | cons first later =>
    obtain ⟨last, hlast⟩ : ∃ last, (first :: later).getLast? = some last :=
      ⟨_, List.getLast?_eq_some_getLast (List.cons_ne_nil first later)⟩
    have hnext := extend_outline last.entry.reportVersion first.time last.time
      (numbered (first :: later)) e now
    rw [numbered_length] at hnext
    refine ⟨_, _, ?_, hnext, ?_⟩
    · rw [document, hlast]
      rfl
    · rw [document, List.getLast?_concat, numbered_concat]
      rfl

section Soundness
variable {room : Nat}

theorem sound_run_entry {e : ManifestEntry} (he : e.Within room) {runId : Nat}
    (hn : runId < Integer.ceiling) (now : String) : (runEntry e runId now).Sound (room + 1) := by
  have hkeys : ["run_id", "created_at", "event_counts", "section_sizes", "settings",
      "artifacts"].Nodup := by decide
  apply sound_of_pairs
  · exact hkeys
  · simp only [List.forall_mem_cons]
    exact ⟨sound_nat hn room, sound_text now room, he.counts, he.sizes, he.settings,
      he.artifacts, by simp⟩

theorem sound_numbered {es : List Entered} (h : ∀ x ∈ es, x.entry.Within room)
    (hn : es.length < Integer.ceiling) : (Json.arr (numbered es)).Sound (room + 2) := by
  apply (sound_arr_iff _ (room + 1)).mpr
  intro v hv
  obtain ⟨⟨x, n⟩, hx, rfl⟩ := List.mem_map.mp hv
  obtain ⟨_, hhigh, hget⟩ := List.mem_zipIdx hx
  have hmem : x ∈ es := hget ▸ List.getElem_mem _
  exact sound_run_entry (h x hmem) (by omega) x.time

theorem sound_document {es : List Entered} (h : ∀ x ∈ es, x.entry.Within room)
    (hn : es.length < Integer.ceiling) : ∀ v ∈ document es, v.Sound (room + 3) := by
  intro v hv
  rw [document] at hv
  split at hv
  · rename_i first last hfirst hlast
    have hkeys : ["report_version", "created_at", "runs", "updated_at"].Nodup := by decide
    have hversion := (h last (List.mem_of_getLast? hlast)).version
    rw [← Option.some.inj hv]
    change (ofPairs [("report_version", .int last.entry.reportVersion),
      ("created_at", .text first.time), ("runs", .arr (numbered es)),
      ("updated_at", .text last.time)]).Sound (room + 3)
    refine sound_of_pairs hkeys ?_
    simp only [List.forall_mem_cons]
    exact ⟨sound_int hversion _, sound_text _ _, sound_numbered h hn, sound_text _ _, by simp⟩
  · cases hv

end Soundness

theorem present_of_read {t : FileTree} {path : Path} {c : Content} (h : t.read path = .ok c) :
    t.present path = .ok true := by
  obtain ⟨p, hl, -, hc⟩ := FileTree.read_ok h
  rw [FileTree.present, hl]
  simp [FileTree.isFile, Assoc.has, hc]

theorem spares_load {other : Path} (path : Path) : (load? path).Spares other := by
  unfold load?
  refine (Work.spares_ask_files _).bind fun present => ?_
  split
  · exact Work.spares_pure _
  · refine (Work.spares_ask_files _).bind fun content => ?_
    refine (Work.spares_of_except _).bind fun text => Work.spares_get.bind fun w => ?_
    split
    · exact Work.spares_pure _
    · exact Work.spares_pure _
    · exact Work.spares_throw _
    · exact Work.spares_throw _
    · exact (Work.spares_log_line _ _ _).bind fun _ => Work.spares_pure _

theorem load_ok {path : Path} {w v : Workspace} {d : Option Json}
    (h : (load? path).run.run w = (.ok d, v)) : d = none ∨ ∃ c text doc, w.files.read path = .ok c ∧
      contentText c = .ok text ∧ Json.parse w.limits.nesting text = .ok doc ∧ doc ≠ .null ∧
      d = some doc := by
  unfold load? at h
  rw [Work.run_bind, Work.run_ask_files] at h
  cases hp : w.files.present path with
  | error e => rw [hp] at h; cases h
  | ok present =>
    rw [hp] at h
    dsimp only at h
    split at h
    · cases h
      exact Or.inl rfl
    · rw [Work.run_bind, Work.run_ask_files] at h
      cases hc : w.files.read path with
      | error e => rw [hc] at h; cases h
      | ok c =>
        rw [hc] at h
        dsimp only at h
        rw [Work.run_bind, Work.run_of_except] at h
        cases ht : contentText c with
        | error e => rw [ht] at h; cases h
        | ok text =>
          rw [ht] at h
          dsimp only at h
          rw [Work.run_bind, Work.run_get] at h
          dsimp only at h
          split at h
          · cases h
            exact Or.inl rfl
          · rename_i doc hnull hdoc
            cases h
            exact Or.inr ⟨c, text, doc, rfl, ht, hdoc, hnull, rfl⟩
          · cases h
          · cases h
          · cases h
            exact Or.inl rfl

theorem load_read {path : Path} {w : Workspace} {c : Content} {text : String} {v : Json}
    (hc : w.files.read path = .ok c) (ht : contentText c = .ok text)
    (hv : Json.parse w.limits.nesting text = .ok v) (hne : v ≠ .null) :
    (load? path).run.run w = (.ok (some v), w) := by
  unfold load?
  rw [Work.run_bind, Work.run_ask_files, present_of_read hc]
  simp only [Bool.not_true, Bool.false_eq_true, if_false]
  rw [Work.run_bind, Work.run_ask_files, hc]
  dsimp only
  rw [Work.run_bind, Work.run_of_except, ht]
  dsimp only
  rw [Work.run_bind, Work.run_get]
  dsimp only
  rw [hv]
  cases v with
  | null => exact absurd rfl hne
  | _ => rfl

def Blank (path : Path) (t : FileTree) : Prop :=
  ∀ c text room v, t.contentAt? path = some c → contentText c = .ok text →
    Json.parse room text = .ok v → v = .null

def Tells (path : Path) (es : List Entered) (t : FileTree) : Prop :=
  match document es with
  | some v => t.read path = .ok (.bytes v.pretty.text.toUTF8)
  | none => Blank path t

section Telling
variable {path : Path} {es : List Entered} {w : Workspace}

theorem Tells.kept {t u : FileTree} (h : Tells path es t) (hk : t.Keeps path u) :
    Tells path es u := by
  unfold Tells at h ⊢
  split
  · rename_i v hv
    rw [hv] at h
    exact hk.read h
  · rename_i hv
    rw [hv] at h
    intro c text room v hc
    exact h c text room v (hk.content ▸ hc)

theorem load_document {v : Json} (hv : v.Sound w.limits.nesting) (hne : v ≠ .null)
    (h : w.files.read path = .ok (.bytes v.pretty.text.toUTF8)) :
    (load? path).run.run w = (.ok (some v), w) :=
  load_read h (content_text _) (parse_pretty hv) hne

theorem load_told (h : Tells path es w.files) (hs : ∀ v ∈ document es, v.Sound w.limits.nesting)
    {d : Option Json} {u : Workspace} (hrun : (load? path).run.run w = (.ok d, u)) :
    d = document es := by
  unfold Tells at h
  cases hes : document es with
  | some v =>
    rw [hes] at h
    have hne : v ≠ .null := by
      rintro rfl
      rw [document] at hes
      split at hes <;> cases hes
    rw [load_document (hs v hes) hne h] at hrun
    exact (Except.ok.inj (congrArg Prod.fst hrun)).symm
  | none =>
    rw [hes] at h
    rcases load_ok hrun with rfl | ⟨c, text, v, hc, ht, hv, hne, -⟩
    · rfl
    · exact absurd (h c text _ v (FileTree.content_of_read hc) ht hv) hne

/-- What can be printed is written whole or not at all. -/
theorem write_leaves {v : Json} (hv : v.pretty.complete) (path : Path) (w : Workspace) :
    (writeDocument path v).Leaves w
      (fun _ u => u.files.read path = .ok (.bytes v.pretty.text.toUTF8))
      (fun u => w.files.Keeps path u.files) := by
  have hkeeps : w.files.Keeps path (w.files.makeFolders w.limits.folders path.parent).2 :=
    FileTree.keeps_make_folders _ w.files _
  unfold Work.Leaves
  rw [run_write_document]
  dsimp only
  cases (w.files.makeFolders w.limits.folders path.parent).1 with
  | error e => exact hkeeps
  | ok _ =>
    dsimp only
    cases hu : (w.files.makeFolders w.limits.folders path.parent).2.write path
      (.bytes v.pretty.text.toUTF8) with
    | error e => exact hkeeps
    | ok u =>
      rw [if_pos hv]
      exact FileTree.read_write hu

theorem append_tells (h : Tells path es w.files) {e : ManifestEntry}
    (hs : ∀ x ∈ es, x.entry.Sound) (he : e.Sound) (hn : es.length + 1 < Integer.ceiling) :
    (append path e).Leaves w
      (fun _ u => Tells path (es ++ [⟨e, "T" ++ toString (w.stamps + 1)⟩]) u.files)
      (fun u => w.files.Keeps path u.files) := by
  have hroom : 4 ≤ w.limits.nesting := le_trans (by decide) w.limits.enough
  have hsofar : ∀ v ∈ document es, v.Sound 4 :=
    sound_document (fun x hx => (hs x hx).within) (by omega)
  unfold append
  refine (spares_load path).stage (.refl path w) fun d u hload hu => ?_
  obtain rfl := load_told h (fun v hv => (hsofar v hv).mono hroom) hload
  -- loading takes no stamp, so the time of the entry is told by the stamps before it
  rw [← hu.stamps]
  obtain ⟨m, n, hm, hextend, hnext⟩ := entered_document es e ("T" ++ toString (u.stamps + 1))
  have hsound : (Json.obj n).Sound 4 := by
    refine sound_document (fun x hx => ?_) ?_ _ hnext
    · rcases List.mem_append.mp hx with hx | hx
      · exact (hs x hx).within
      · rw [List.mem_singleton.mp hx]
        exact he.within
    · rw [List.length_append]
      exact hn
  apply Work.Leaves.after (Work.run_stamp u)
  apply Work.Leaves.after (by rw [hm, Work.run_of_except])
  apply Work.Leaves.after (by rw [hextend, Work.run_of_except])
  apply Work.Leaves.bind
  apply (write_leaves ((pretty_complete _).mpr hsound.short) path _).mono
  · intro _ v hread
    change Tells path _ v.files
    rw [Tells, hnext]
    exact hread
  · intro v hv
    exact hu.files.trans hv

end Telling

end Manifest

end QueryTelemetry
