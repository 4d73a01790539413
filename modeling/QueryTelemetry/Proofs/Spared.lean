import QueryTelemetry.Proofs.Places
import QueryTelemetry.Run

/-!
# Files that work leaves alone

Folders are made and never taken away, a file stays where no path leads that is written or
removed, and a folder is never made in its place. So a file that could be read can still be read,
and as the same content, after any work that keeps to other paths, whether the work fails or not.
-/

set_option autoImplicit false

namespace QueryTelemetry

namespace FileTree

/-- From one tree to the other the file at the end of a path stays, or there is still none, and
nothing comes to be in its way. -/
structure Keeps (path : Path) (t u : FileTree) : Prop where
  content : u.contentAt? path = t.contentAt? path
  folders : ∀ q, t.isFolder q → u.isFolder q
  free : ∀ p, path.place = .ok p → t.isFile p → u.isFolder p → t.isFolder p

variable {path other : Path} {t u v : FileTree}

theorem Keeps.refl (path : Path) (t : FileTree) : Keeps path t t :=
  ⟨rfl, fun _ h => h, fun _ _ _ h => h⟩

theorem Keeps.trans (h : Keeps path t u) (k : Keeps path u v) : Keeps path t v where
  content := k.content.trans h.content
  folders q hq := k.folders q (h.folders q hq)
  free p hp hf hv := by
    have hcontent := h.content
    rw [content_at hp, content_at hp] at hcontent
    have hu : u.isFile p := by
      rw [isFile, Assoc.has, hcontent]
      exact hf
    exact h.free p hp hf (k.free p hp hu hv)

theorem Keeps.read (h : Keeps path t u) {c : Content} (hr : t.read path = .ok c) :
    u.read path = .ok c := by
  obtain ⟨p, hl, hf, hc⟩ := read_ok hr
  have hp := place_of_locate hl
  have hfile : t.isFile p := by rw [isFile, Assoc.has, hc]; rfl
  have hnone : u.isFolder p = false := by
    cases hu : u.isFolder p with
    | false => rfl
    | true => exact absurd (h.free p hp hfile hu) (by rw [hf]; exact Bool.false_ne_true)
  have hcontent := h.content
  rw [content_at hp, content_at hp, hc] at hcontent
  exact read_at (locate_grows h.folders hl) hnone hcontent

theorem keeps_new_folder {q : Place} (hq : ¬ t.isFile q) :
    Keeps path t { t with folders := (q.length, q) :: t.folders } where
  content := rfl
  folders x hx := by
    simp only [isFolder, Bool.or_eq_true, List.contains_cons] at hx ⊢
    exact hx.imp_right .inr
  free p _ hp hx := by
    have hne : p ≠ q := fun e => hq (e ▸ hp)
    simpa [isFolder, hne] using hx

theorem keeps_make_chain (room : Nat) (t : FileTree) (q : Place) (names : List String) :
    Keeps path t (t.makeChain room q names).2 := by
  induction names generalizing t q with
  | nil => exact .refl path t
  | cons n r ih =>
    unfold makeChain
    split
    · exact .refl path t
    · rename_i q' _
      split
      · exact ih t q'
      · split
        · exact .refl path t
        · rename_i hfile
          split
          · exact .refl path t
          · exact (keeps_new_folder hfile).trans (ih _ q')

theorem keeps_make_folders (room : Nat) (t : FileTree) (other : Path) :
    Keeps path t (t.makeFolders room other).2 := by
  unfold makeFolders
  split
  · exact keeps_make_chain room t _ _
  · exact keeps_make_chain room t _ _
  · exact .refl path t

theorem keeps_files {files : Assoc Place Content}
    (h : ∀ p, path.place = .ok p → files.get? p = t.files.get? p) :
    Keeps path t { t with files } := by
  refine ⟨?_, fun _ h => h, fun _ _ _ h => h⟩
  rw [contentAt?, contentAt?]
  cases hp : path.place with
  | ok p => exact h p hp
  | error e => rfl

theorem keeps_write {c : Content} (h : t.write other c = .ok u) (ha : path.Apart other) :
    Keeps path t u := by
  obtain ⟨q, hl, rfl⟩ := write_ok h
  refine keeps_files fun p hp => ?_
  have hne : p ≠ q := fun e => ha p hp (e ▸ place_of_locate hl)
  rw [Assoc.get_put, if_neg hne]

end FileTree

structure Workspace.Spared (path : Path) (w v : Workspace) : Prop where
  files : w.files.Keeps path v.files
  stamps : v.stamps = w.stamps
  limits : v.limits = w.limits

namespace Workspace.Spared

theorem refl (path : Path) (w : Workspace) : Spared path w w := ⟨.refl path w.files, rfl, rfl⟩

theorem trans {path : Path} {u v w : Workspace} (h : Spared path u v) (k : Spared path v w) :
    Spared path u w :=
  ⟨h.files.trans k.files, k.stamps.trans h.stamps, k.limits.trans h.limits⟩

end Workspace.Spared

namespace Work
open Workspace (Spared)
variable {α β : Type} {path : Path}

def Spares (path : Path) (x : Work α) : Prop := ∀ w, Spared path w (x.run.run w).2

theorem spares_quiet {x : Work α} (hf : ∀ w, (x.run.run w).2.files = w.files)
    (hs : ∀ w, (x.run.run w).2.stamps = w.stamps)
    (hl : ∀ w, (x.run.run w).2.limits = w.limits) : x.Spares path :=
  fun w => ⟨hf w ▸ .refl path w.files, hs w, hl w⟩

theorem spares_pure (a : α) : (pure a : Work α).Spares path := Spared.refl path

theorem spares_throw (e : Failure) : (throw e : Work α).Spares path := Spared.refl path

theorem spares_of_except (r : Except Failure α) : (ofExcept r).Spares path := Spared.refl path

theorem spares_of_option (e : Failure) (r : Option α) : (ofOption e r).Spares path := by
  cases r <;> exact Spared.refl path

theorem spares_get : (get : Work Workspace).Spares path := Spared.refl path

theorem spares_log_line (level : Level) (part message : String) :
    (logLine level part message).Spares path :=
  spares_quiet (fun _ => rfl) (fun _ => rfl) (fun _ => rfl)

theorem spares_tick : tick.Spares path := spares_quiet (fun _ => rfl) (fun _ => rfl) (fun _ => rfl)

theorem spares_record_timing (name : String) (duration : Binary64) :
    (recordTiming name duration).Spares path :=
  spares_quiet (fun _ => rfl) (fun _ => rfl) (fun _ => rfl)

theorem spares_make_folders (other : Path) : (makeFolders other).Spares path :=
  fun w => ⟨FileTree.keeps_make_folders w.limits.folders w.files other, rfl, rfl⟩

/-- What follows has to keep to other paths only after what can come before it. -/
theorem Spares.then {x : Work α} {f : α → Work β} (hx : x.Spares path)
    (hf : ∀ a w v, x.run.run w = (.ok a, v) → (f a).Spares path) : (x >>= f).Spares path := by
  intro w
  have hw := hx w
  rw [run_bind]
  cases hrun : x.run.run w with
  | mk r v =>
    rw [hrun] at hw
    cases r with
    | error e => exact hw
    | ok a => exact hw.trans (hf a w v hrun v)

theorem Spares.bind {x : Work α} {f : α → Work β} (hx : x.Spares path)
    (hf : ∀ a, (f a).Spares path) : (x >>= f).Spares path :=
  hx.then fun a _ _ _ => hf a

theorem Spares.outcome {x : Work α} (hx : x.Spares path) : (outcome x).Spares path := hx

theorem Spares.timed {sink : Binary64 → Work Unit} {x : Work α} (hs : ∀ d, (sink d).Spares path)
    (hx : x.Spares path) : (timed sink x).Spares path :=
  spares_tick.bind fun _ => hx.outcome.bind fun r => spares_tick.bind fun _ =>
    (hs _).bind fun _ => spares_of_except r

theorem spares_ask_files (f : FileTree → Except FileError α) : (askFiles f).Spares path := by
  intro w
  rw [run_ask_files]
  cases f w.files <;> exact .refl path w

theorem spares_change_files {f : FileTree → Except FileError FileTree}
    (hf : ∀ t u, f t = .ok u → t.Keeps path u) : (changeFiles f).Spares path := by
  intro w
  rw [run_change_files]
  cases h : f w.files with
  | ok u => exact ⟨hf _ u h, rfl, rfl⟩
  | error e => exact .refl path w

theorem spares_map {f : α → Work β} {xs : List α} (hf : ∀ a ∈ xs, (f a).Spares path) :
    (xs.mapM f).Spares path := by
  induction xs with
  | nil => exact spares_pure []
  | cons a xs ih =>
    rw [List.mapM_cons]
    have hrest := ih fun b hb => hf b (List.mem_cons_of_mem a hb)
    exact (hf a List.mem_cons_self).bind fun b => hrest.bind fun bs => spares_pure (b :: bs)

theorem spares_for_each {f : α → Work PUnit} (hf : ∀ a, (f a).Spares path) (xs : List α) :
    (xs.forM f).Spares path := by
  induction xs with
  | nil => exact spares_pure ()
  | cons a xs ih => exact (hf a).bind fun _ => ih

def Leaves (x : Work α) (w : Workspace) (done : α → Workspace → Prop)
    (failed : Workspace → Prop) : Prop :=
  match x.run.run w with
  | (.ok a, v) => done a v
  | (.error _, v) => failed v

section Leaves
variable {w₀ w : Workspace} {x : Work α} {f : α → Work β} {done : β → Workspace → Prop}
  {failed : Workspace → Prop}

theorem Leaves.bind (hx : x.Leaves w (fun a v => (f a).Leaves v done failed) failed) :
    (x >>= f).Leaves w done failed := by
  unfold Leaves at hx ⊢
  rw [run_bind]
  cases hrun : x.run.run w with
  | mk r v =>
    rw [hrun] at hx
    cases r <;> exact hx

theorem Leaves.mono {done₁ done₂ : α → Workspace → Prop} {failed₁ failed₂ : Workspace → Prop}
    (hx : x.Leaves w done₁ failed₁) (hd : ∀ a v, done₁ a v → done₂ a v)
    (hf : ∀ v, failed₁ v → failed₂ v) : x.Leaves w done₂ failed₂ := by
  unfold Leaves at hx ⊢
  split at hx
  · exact hd _ _ hx
  · exact hf _ hx

theorem Leaves.after {a : α} {v : Workspace} (hx : x.run.run w = (.ok a, v))
    (hf : (f a).Leaves v done failed) : (x >>= f).Leaves w done failed := by
  apply Leaves.bind
  unfold Leaves
  rw [hx]
  exact hf

/-- Work that has spared a file so far goes on with work that spares it. -/
theorem Spares.stage (hx : x.Spares path) (hw : Spared path w₀ w)
    (hf : ∀ a v, x.run.run w = (.ok a, v) → Spared path w₀ v →
      (f a).Leaves v done fun v => w₀.files.Keeps path v.files) :
    (x >>= f).Leaves w done fun v => w₀.files.Keeps path v.files := by
  have hv := hw.trans (hx w)
  apply Leaves.bind
  unfold Leaves
  cases hrun : x.run.run w with
  | mk r v =>
    rw [hrun] at hv
    cases r with
    | error e => exact hv.files
    | ok a => exact hf a v hrun hv

end Leaves

end Work

open Work

section Stages
variable {path : Path}

theorem spares_replay (es : List Event) (hs : List Handler) : (replay es hs).Spares path :=
  spares_tick.bind fun _ => (spares_of_except _).bind fun _ => spares_tick.bind fun _ =>
    (spares_log_line _ _ _).bind fun _ => spares_pure _

theorem spares_results (h : Handler) : h.results.Spares path := by
  induction h with
  | aggregator a => exact .timed (fun _ => spares_log_line _ _ _) (spares_of_option _ _)
  | custom c calls => exact spares_of_except _
  | guarded h ih => exact ih

theorem spares_collect_from (report : Report) (hs : List Handler) :
    (collectFrom report hs).Spares path := by
  induction hs generalizing report with
  | nil => exact spares_pure report
  | cons h hs ih =>
    refine (spares_results h).bind fun sections => ?_
    refine Spares.bind (spares_for_each (fun s => ?_) sections) fun _ => ih _
    split
    · exact spares_log_line _ _ _
    · exact spares_pure _

variable {other : Path}

theorem spares_write (ha : path.Apart other) (c : Content) :
    (changeFiles (·.write other c)).Spares path :=
  spares_change_files fun _ _ h => FileTree.keeps_write h ha

theorem spares_write_document (ha : path.Apart other) (v : Json) :
    (writeDocument other v).Spares path := by
  refine (spares_make_folders _).bind fun _ => (spares_write ha _).bind fun _ => ?_
  split
  · exact spares_pure _
  · exact spares_throw _

theorem spares_write_report (ha : path.Apart other) (v : Json) :
    (writeReport other v).Spares path :=
  (spares_write_document ha v).bind fun _ => (spares_of_option _ _).bind fun _ =>
    (spares_log_line _ _ _).bind fun _ => spares_pure _

variable {l : TableLibrary} (hl : l.Lawful)
include hl

theorem spares_store (ha : path.Apart other) (hp : other.Plain) (table : List Row)
    (compression : String) : (l.store other table compression).Spares path := by
  intro w
  obtain ⟨files, hrun, hfolders, hfiles⟩ := hl.elsewhere other table compression w hp
  rw [hrun]
  refine ⟨?_, rfl, rfl⟩
  have hsame : files = ⟨files.files, w.files.folders⟩ := by rw [← hfolders]
  rw [hsame]
  exact FileTree.keeps_files fun p hpath =>
    hfiles p fun hlocate => ha p hpath (FileTree.place_of_locate hlocate)

theorem spares_write_table (ha : path.Apart other) (hp : other.Plain) (schema : Schema)
    (rows : List Row) (compression : String) :
    (writeTable l other schema rows compression).Spares path :=
  (spares_make_folders _).bind fun _ => (spares_of_except _).bind fun table =>
    (spares_store hl ha hp table compression).bind fun _ => spares_pure _

theorem spares_export_tables {root : Path} (report : Report) (compression : String)
    (ha : ∀ s ∈ tabled, path.Apart (s.path root)) (hp : ∀ s ∈ tabled, (s.path root).Plain) :
    (exportTables l report root compression).Spares path := by
  refine Spares.bind (spares_map fun s hs => ?_) fun _ => spares_pure _
  refine (spares_of_except _).bind fun v => ?_
  cases v with
  | none => exact spares_pure _
  | some v =>
    exact (spares_of_except _).bind fun rows =>
      (spares_write_table hl (ha s hs) (hp s hs) _ _ _).bind fun _ => spares_pure _

end Stages

end QueryTelemetry
