import Mathlib.Tactic.NormNum
import QueryTelemetry.Proofs.Escapes
import QueryTelemetry.Proofs.Gather
import QueryTelemetry.Proofs.Places
import QueryTelemetry.Report.Storage

/-!
# The library of tables in use

Rows of the types of their columns become a table exactly if their numbers fit into 64 bits, and are
stored as they are. A plain path is no address and lies in no home, so it leads to where its text
leads. That is all that is relied on of a library of tables.
-/

set_option autoImplicit false

namespace QueryTelemetry

theorem for_each_ok_iff {ε α : Type} {f : α → Except ε Unit} {xs : List α} :
    xs.forM f = .ok () ↔ ∀ x ∈ xs, f x = .ok () := by
  induction xs with
  | nil => exact iff_of_true rfl (List.forall_mem_nil _)
  | cons x xs ih =>
    rw [List.forM, List.forall_mem_cons]
    cases hx : f x with
    | ok _ => exact ih.trans (and_iff_right rfl).symm
    | error e => exact iff_of_false (fun h => by cases h) fun h => by cases h.1

/-- Work that can fail in one way only fails in this way. -/
theorem for_each_fails {ε α : Type} {f : α → Except ε Unit} {e : ε} {xs : List α}
    (h : ∀ x ∈ xs, f x = .ok () ∨ f x = .error e) :
    xs.forM f = .ok () ∨ xs.forM f = .error e := by
  induction xs with
  | nil => exact .inl rfl
  | cons x xs ih =>
    obtain ⟨hx, hxs⟩ := List.forall_mem_cons.mp h
    rw [List.forM]
    rcases hx with hx | hx
    · rw [hx]
      exact ih hxs
    · rw [hx]
      exact .inr rfl

theorem fits_int64_iff (n : Int) : fitsInt64 n = true ↔ -2 ^ 63 ≤ n ∧ n < 2 ^ 63 := by
  simp only [fitsInt64, Bool.and_eq_true, decide_eq_true_eq]
  norm_num

namespace Utf16

theorem of_string_whole (s : String) : (ofString s).isWhole = true := by
  rw [isWhole, code_points_of_string, List.all_map, List.all_eq_true]
  exact fun c _ => decide_eq_true c.valid

end Utf16

/-! ## Rows of their types -/

section Cells
variable {type : CellType} {cell : Json}

theorem check_cell_suited (h : type.Suits cell) :
    checkCell type cell = .ok () ∨ checkCell type cell = .error .outOfRange := by
  cases type <;> cases cell <;> simp_all [CellType.Suits, checkCell]
  obtain ⟨t, rfl⟩ := h
  exact .inl (Utf16.of_string_whole t)

theorem check_cell_ok_iff (h : type.Suits cell) :
    checkCell type cell = .ok () ↔ ∀ n ∈ cellNumber? cell, fitsInt64 n = true := by
  cases type <;> cases cell <;> simp_all [CellType.Suits, checkCell, cellNumber?]
  obtain ⟨t, rfl⟩ := h
  exact Utf16.of_string_whole t

theorem stored_cell_suited (h : type.Suits cell) : storedCell type cell = cell := by
  cases type <;> cases cell <;> simp_all [CellType.Suits, storedCell]

end Cells

namespace Schema.Types
variable {schema : Schema} {row : Row} (h : schema.Types row)
include h

theorem row_of_cells : schema.map (fun column => (column.1, cellAt row column.1)) = row := by
  have hn : (row.map Prod.fst).Nodup := h.columns ▸ h.distinct
  have hcells : schema.map (fun column => (column.1, cellAt row column.1)) =
      (schema.map Prod.fst).map fun name => (name, cellAt row name) := by
    rw [List.map_map]
    rfl
  rw [hcells, ← h.columns, List.map_map]
  refine (List.map_congr_left fun cell hcell => ?_).trans (List.map_id row)
  rw [Function.comp, cellAt, (Assoc.get_mem hn).mpr (show (cell.1, cell.2) ∈ row from hcell)]
  rfl

theorem stored : storedRow schema row = row := by
  refine Eq.trans (List.map_congr_left fun column hcolumn => ?_) h.row_of_cells
  rw [stored_cell_suited (h.cells column hcolumn)]

theorem check_iff : (∀ column ∈ schema, checkCell column.2 (cellAt row column.1) = .ok ()) ↔
    ∀ n ∈ rowNumbers row, fitsInt64 n = true := by
  have hrow : rowNumbers row =
      schema.filterMap fun column => cellNumber? (cellAt row column.1) := by
    have hcells : rowNumbers (schema.map fun column => (column.1, cellAt row column.1)) =
        schema.filterMap fun column => cellNumber? (cellAt row column.1) := by
      rw [rowNumbers, List.filterMap_map]
      rfl
    rw [← hcells, h.row_of_cells]
  rw [hrow]
  simp only [List.mem_filterMap, forall_exists_index, and_imp]
  constructor
  · exact fun hall n column hcolumn hn =>
      (check_cell_ok_iff (h.cells column hcolumn)).mp (hall column hcolumn) n hn
  · exact fun hall column hcolumn =>
      (check_cell_ok_iff (h.cells column hcolumn)).mpr fun n hn => hall n column hcolumn hn

end Schema.Types

section Rows
variable {schema : Schema} {rows : List Row} (h : ∀ row ∈ rows, schema.Types row)
include h

theorem check_rows_ok_iff :
    checkRows schema rows = .ok () ↔ ∀ n ∈ rows.flatMap rowNumbers, fitsInt64 n = true := by
  rw [checkRows, for_each_ok_iff, List.forall_mem_flatMap]
  simp only [for_each_ok_iff]
  constructor
  · exact fun hall row hrow => (h row hrow).check_iff.mp fun column hcolumn =>
      hall column hcolumn row hrow
  · exact fun hall column hcolumn row hrow =>
      (h row hrow).check_iff.mpr (hall row hrow) column hcolumn

theorem check_rows_fails :
    checkRows schema rows = .ok () ∨ checkRows schema rows = .error .outOfRange :=
  for_each_fails fun column hcolumn => for_each_fails fun row hrow =>
    check_cell_suited ((h row hrow).cells column hcolumn)

theorem stored_rows : rows.map (storedRow schema) = rows :=
  (List.map_congr_left fun row hrow => (h row hrow).stored).trans (List.map_id rows)

end Rows

/-! ## Plain paths -/

namespace Path.Plain
variable {path : Path} (h : path.Plain)
include h

theorem no_scheme : Address.split? path.text.toList = none := by
  have hsplit := List.takeWhile_append_dropWhile (p := (· ≠ ':')) (l := path.text.toList)
  unfold Address.split?
  split
  · rename_i c s d r hscheme hrest
    have hd : d = ':' := by
      have hstop := List.head?_dropWhile_not (· ≠ ':') path.text.toList
      rw [hrest] at hstop
      simpa using hstop
    rw [hscheme, hrest, hd] at hsplit
    rw [if_neg (by rw [h.scheme _ _ hsplit.symm]; exact Bool.false_ne_true)]
  · rfl

theorem destination : path.destination = pure (.file path) := by
  rw [Path.destination, h.no_scheme]

theorem expand_home (homes : Homes) : path.expandHome homes = path := by
  unfold expandHome
  split
  · rename_i first rest
    have hfirst : homes.of? first = none := by
      unfold Homes.of?
      split
      · rename_i name hname
        refine absurd ?_ h.home
        have htext : Path.text ⟨"", first :: rest⟩ = String.intercalate "/" (first :: rest) := by
          simp [text]
        cases rest with
        | nil =>
          rw [htext, String.intercalate_singleton, hname]
          rfl
        | cons next rest =>
          rw [htext, String.intercalate_cons_cons, String.toList_append, String.toList_append,
            hname]
          rfl
      · rfl
    rw [hfirst]
  · rfl

end Path.Plain

/-! ## Storing -/

theorem Assoc.get_filter_other {κ ν : Type} [DecidableEq κ] (m : Assoc κ ν) {k j : κ} (h : k ≠ j) :
    get? (m.filter fun f => f.1 ≠ j) k = m.get? k := by
  induction m with
  | nil => rfl
  | cons f r ih =>
    obtain ⟨a, c⟩ := f
    by_cases ha : a = j
    · rw [List.filter_cons_of_neg (by simp [ha]), ih, get?, if_neg (ha ▸ Ne.symm h)]
    · rw [List.filter_cons_of_pos (by simp [ha]), get?, get?, ih]

structure FileTree.Elsewhere (path : Path) (t u : FileTree) : Prop where
  folders : u.folders = t.folders
  files : ∀ p, t.locate path ≠ .ok p → u.files.get? p = t.files.get? p

namespace FileTree.Elsewhere
variable {path : Path} {t u v : FileTree}

theorem trans (h : Elsewhere path t u) (k : Elsewhere path u v) : Elsewhere path t v where
  folders := k.folders.trans h.folders
  files p hp := by
    refine (k.files p fun hu => hp ?_).trans (h.files p hp)
    exact locate_folders h.folders.symm hu

theorem of_write {c : Content} (h : t.write path c = .ok u) : Elsewhere path t u := by
  obtain ⟨q, hq, rfl⟩ := write_ok h
  refine ⟨rfl, fun p hp => ?_⟩
  have hne : p ≠ q := fun e => hp (e ▸ hq)
  rw [Assoc.get_put, if_neg hne]

theorem of_remove (t : FileTree) (path : Path) : Elsewhere path t (t.remove path) := by
  unfold remove
  split
  · rename_i q hq
    refine ⟨rfl, fun p hp => t.files.get_filter_other ?_⟩
    exact fun e => hp (e ▸ hq)
  · exact ⟨rfl, fun _ _ => rfl⟩

end FileTree.Elsewhere

section Storing
variable {path : Path} (hp : path.Plain) (homes : Homes) (rows : List Row) (compression : String)
  (w : Workspace)
include hp

/-- The file is written first, and removed if the compression is not to be had. -/
theorem store_run : (storeOrRemove homes path rows compression).run.run w =
    match w.files.write path (storedContent rows (checkCompression compression)) with
    | .error e => (.error (.file e), { w with files := w.files.remove path })
    | .ok t =>
      match checkCompression compression with
      | .ok _ => (.ok (), { w with files := t })
      | .error e => (.error e, { w with files := t.remove path }) := by
  have hstore : (storeTable path rows compression).run.run w =
      match w.files.write path (storedContent rows (checkCompression compression)) with
      | .error e => (.error (.file e), w)
      | .ok t => (checkCompression compression, { w with files := t }) := by
    rw [storeTable, hp.destination]
    change (Work.changeFiles (·.write path (storedContent rows (checkCompression compression))) >>=
      fun _ => Work.ofExcept (checkCompression compression)).run.run w = _
    rw [Work.run_bind, Work.run_change_files]
    cases w.files.write path (storedContent rows (checkCompression compression)) <;> rfl
  have hremove (e : Failure) (v : Workspace) :
      (do Work.changeFiles fun t => .ok (t.remove path); throw e : Work Unit).run.run v =
        (.error e, { v with files := v.files.remove path }) := by
    rw [Work.run_bind, Work.run_change_files]
    rfl
  rw [storeOrRemove, hp.expand_home, Work.run_bind, Work.run_outcome, hstore]
  cases w.files.write path (storedContent rows (checkCompression compression)) with
  | error e => exact hremove (.file e) w
  | ok t =>
    cases checkCompression compression with
    | ok _ => rfl
    | error e => exact hremove e { w with files := t }

end Storing

theorem columnar_lawful (homes : Homes) : (TableLibrary.columnar homes).Lawful where
  made schema rows h hfits := by
    have hcheck := (check_rows_ok_iff h).mpr hfits
    exact (congrArg (Except.map _) hcheck).trans (congrArg Except.ok (stored_rows h))
  refused schema rows h hlarge := by
    obtain ⟨n, hn, hlarge⟩ := hlarge
    rcases check_rows_fails h with hcheck | hcheck
    · exact absurd ((check_rows_ok_iff h).mp hcheck n hn) hlarge
    · exact congrArg (Except.map _) hcheck
  counted schema rows table h := by
    change (checkRows schema rows).map _ = .ok table at h
    cases hcheck : checkRows schema rows with
    | error e => rw [hcheck] at h; cases h
    | ok _ => rw [hcheck] at h; cases h; exact List.length_map _
  stored path table compression w files hp hknown hwrite := by
    have hrun := store_run hp homes table compression w
    change checkCompression compression = .ok () at hknown
    rw [hknown, storedContent, hwrite] at hrun
    exact hrun
  elsewhere path table compression w hp := by
    have hrun := store_run hp homes table compression w
    change ∃ files, ((storeOrRemove homes path table compression).run.run w).2 = _ ∧ _
    rw [hrun]
    cases hwrite : w.files.write path (storedContent table (checkCompression compression)) with
    | error e =>
      have h := FileTree.Elsewhere.of_remove w.files path
      exact ⟨_, rfl, h.folders, h.files⟩
    | ok t =>
      have h := FileTree.Elsewhere.of_write hwrite
      cases checkCompression compression with
      | ok _ => exact ⟨_, rfl, h.folders, h.files⟩
      | error e =>
        have h := h.trans (.of_remove t path)
        exact ⟨_, rfl, h.folders, h.files⟩

end QueryTelemetry
