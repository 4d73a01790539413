import QueryTelemetry.Proofs.Sketches

/-!
# Cells and their types

A row has a cell of its type for each column of its table. Its numbers are those of the entry
itself, since a block is told by a text; that there is such a text depends on the numbers in it.
-/

set_option autoImplicit false

namespace QueryTelemetry
open Json
open Payload (AllShort all_short_append)

structure EntryNumbers where
  columns : List Int
  blocks : List Int
  deriving DecidableEq

def blockNumbers (properties : Option PropertyBlock) (rows : Option RowCounts) : List Int :=
  (properties.getD []).map (fun p => p.2.2) ++ (rows.getD []).map Prod.snd

def RollupEntry.numbers (e : RollupEntry) : EntryNumbers where
  columns := [e.count, e.duration, e.logicalReads, e.physicalReads, e.failures]
  blocks := blockNumbers e.properties e.rows

def SlowEntry.numbers (e : SlowEntry) : EntryNumbers where
  columns := [e.startTime, e.duration, e.logicalReads, e.physicalReads]
  blocks := blockNumbers e.properties e.rows

theorem rows_numbers (m : RowCounts) : m.json.integers = m.map Prod.snd := by
  rw [RowCounts.json, ofPairs, integers]
  induction m with
  | nil => rfl
  | cons p m ih =>
    rw [List.map_cons, List.map_cons, memberIntegers, ih]
    rfl

theorem properties_numbers (m : PropertyBlock) :
    (PropertyBlock.json m).integers = m.map fun p => p.2.2 := by
  rw [PropertyBlock.json, ofPairs, integers]
  induction m with
  | nil => rfl
  | cons p m ih =>
    rw [List.map_cons, List.map_cons, memberIntegers, ih]
    rfl

theorem block_cell_text {block : Option Json} {cell : Json} (h : blockCellOf block = .ok cell) :
    CellType.text.Suits cell := by
  cases block with
  | none =>
    cases h
    trivial
  | some v =>
    rw [blockCellOf] at h
    split at h
    · cases h
      exact ⟨_, rfl⟩
    · cases h

theorem text_no_number {cell : Json} (h : CellType.text.Suits cell) : cellNumber? cell = none := by
  cases cell <;> first | rfl | cases h

namespace Sketch
variable {k : Sketch} {row : Row}

def numbers (k : Sketch) : EntryNumbers where
  columns := k.plain.filterMap fun c => cellNumber? c.2
  blocks := blockNumbers k.properties k.rows

theorem row_numbers (h : k.row? = .ok row) : rowNumbers row = k.numbers.columns := by
  obtain ⟨p, r, hp, hr, rfl⟩ := row_ok_iff.mp h
  have hnone : [("properties", p), ("rows", r)].filterMap
      (fun c : String × Json => cellNumber? c.2) = [] := by
    simp only [List.filterMap_cons, text_no_number (block_cell_text hp),
      text_no_number (block_cell_text hr), List.filterMap_nil]
  rw [rowNumbers, List.filterMap_append, hnone, List.append_nil]
  rfl

theorem short_iff : k.Short ↔ AllShort k.numbers.blocks := by
  have hblock {α : Type} (f : α → Json) (g : α → List Int) (hf : ∀ a, (f a).integers = g a)
      (block : Option α) : (∀ b ∈ block.map f, AllShort b.integers) ↔
        ∀ b ∈ block, AllShort (g b) := by
    cases block <;> simp [hf]
  have hall {α : Type} (block : Option (List α)) (g : α → Int) :
      (∀ b ∈ block, AllShort (b.map g)) ↔ AllShort ((block.getD []).map g) := by
    cases block <;> simp [AllShort]
  change _ ↔ AllShort (blockNumbers k.properties k.rows)
  rw [Short, hblock _ _ properties_numbers, hblock _ _ rows_numbers, hall, hall, blockNumbers,
    all_short_append]

end Sketch

theorem rollup_sketch_typed {text : String} {e : RollupEntry} {row : Row}
    (h : (e.sketch text).row? = .ok row) : rollupSchema.Types row := by
  obtain ⟨p, r, hp, hr, rfl⟩ := Sketch.row_ok_iff.mp h
  refine ⟨by decide, rfl, ?_⟩
  simp only [rollupSchema, List.forall_mem_cons]
  exact ⟨⟨text, rfl⟩, trivial, trivial, trivial, trivial, trivial, block_cell_text hp,
    block_cell_text hr, List.forall_mem_nil _⟩

theorem slow_sketch_typed {node : String} {e : SlowEntry} {row : Row}
    (h : (e.sketch node).row? = .ok row) : topSlowSchema.Types row := by
  obtain ⟨p, r, hp, hr, rfl⟩ := Sketch.row_ok_iff.mp h
  refine ⟨by decide, rfl, ?_⟩
  simp only [topSlowSchema, List.forall_mem_cons]
  exact ⟨⟨e.text, rfl⟩, trivial, trivial, ⟨node, rfl⟩, trivial, trivial, trivial,
    block_cell_text hp, block_cell_text hr, List.forall_mem_nil _⟩

end QueryTelemetry
