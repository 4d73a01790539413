import QueryTelemetry.Proofs.Compact
import QueryTelemetry.Proofs.ReportFile
import QueryTelemetry.Report.Columns

/-!
# Blocks in cells

A block that an entry has becomes a cell of text, which is read as the same mapping, however little
room for nesting there is. The names and actions in a block ascend, so the cell is that of one block
only. A block with an integer that is too long to be printed has no text.
-/

set_option autoImplicit false

namespace QueryTelemetry
open Json
open Payload (AllShort)

/-! ## Cells of blocks -/

def blockCellOf : Option Json → Except Failure Json
  | none => .ok .null
  | some v =>
    match v.compact? with
    | some cs => .ok (.text (String.ofList cs))
    | none => .error .unwritable

/-- Null for no block, and otherwise the compact text, which is read as the block. -/
def HoldsBlock (block : Option Json) (cell : Json) : Prop :=
  (cell = .null ↔ block = none) ∧
  ∀ v ∈ block, ∃ (cs : List Char) (w : Json), v.compact? = some cs ∧
    cell = .text (String.ofList cs) ∧
    (∀ room, 2 ≤ room → parse room (String.ofList cs) = .ok w) ∧ v.Alike w

section Cells
variable {block : Option Json}

theorem block_cell_of_short (h : ∀ v ∈ block, AllShort v.integers) :
    ∃ cell, blockCellOf block = .ok cell := by
  cases block with
  | none => exact ⟨_, rfl⟩
  | some v =>
    obtain ⟨cs, hcs⟩ := Option.isSome_iff_exists.mp ((compact_iff_short v).mpr (h v rfl))
    exact ⟨_, by rw [blockCellOf, hcs]⟩

theorem block_cell_of_long (h : ¬ ∀ v ∈ block, AllShort v.integers) :
    blockCellOf block = .error .unwritable := by
  cases block with
  | none => exact absurd (fun v hv => nomatch hv) h
  | some v =>
    have hnone : v.compact? = none := by
      rw [← Option.not_isSome_iff_eq_none, compact_iff_short]
      exact fun hv => h fun w hw => Option.some.inj hw ▸ hv
    rw [blockCellOf, hnone]

theorem block_cell_short {cell : Json} (h : blockCellOf block = .ok cell) :
    ∀ v ∈ block, AllShort v.integers := by
  by_contra hlong
  rw [block_cell_of_long hlong] at h
  cases h

theorem block_cell_holds {cell : Json} (hs : ∀ v ∈ block, v.Shaped 2)
    (h : blockCellOf block = .ok cell) : HoldsBlock block cell := by
  have hshort := block_cell_short h
  cases block with
  | none =>
    cases h
    exact ⟨iff_of_true rfl rfl, fun v hv => nomatch hv⟩
  | some v =>
    obtain ⟨cs, hcs, -, halike⟩ := parse_compact ⟨hs v rfl, hshort v rfl⟩
    rw [blockCellOf, hcs] at h
    cases h
    refine ⟨iff_of_false nofun nofun, fun w hw => ?_⟩
    cases hw
    refine ⟨cs, _, hcs, rfl, fun room hroom => ?_, halike⟩
    obtain ⟨ds, hds, hparse, -⟩ := parse_compact ⟨(hs v rfl).mono hroom, hshort v rfl⟩
    cases hcs.symm.trans hds
    exact hparse

theorem block_cell_sorted {other : Option Json} {cell : Json}
    (hs : ∀ v ∈ block, v.Shaped 2) (ho : ∀ v ∈ other, v.Shaped 2)
    (h : blockCellOf block = .ok cell) (hother : blockCellOf other = .ok cell) :
    block.map sorted = other.map sorted := by
  have hshort := block_cell_short h
  have hoshort := block_cell_short hother
  cases block with
  | none =>
    cases h
    rw [(block_cell_holds ho hother).1.mp rfl]
  | some v =>
    cases other with
    | none =>
      cases hother
      exact absurd ((block_cell_holds hs h).1.mp rfl) nofun
    | some w =>
      obtain ⟨cs, hcs, hparse, -⟩ := parse_compact ⟨hs v rfl, hshort v rfl⟩
      obtain ⟨ds, hds, hoparse, -⟩ := parse_compact ⟨ho w rfl, hoshort w rfl⟩
      rw [blockCellOf, hcs] at h
      rw [blockCellOf, hds] at hother
      have htext := Utf16.of_string_injective (Json.str.inj (Except.ok.inj (h.trans hother.symm)))
      rw [htext, hoparse] at hparse
      exact congrArg some (Except.ok.inj hparse).symm

end Cells

/-! ## Blocks of a report -/

structure Ascending (properties : Option PropertyBlock) (rows : Option RowCounts) : Prop where
  names : ∀ b ∈ properties, (b.map Prod.fst).Pairwise (· < ·)
  actions : ∀ b ∈ rows, (b.map Prod.fst).Pairwise (· < ·)

theorem ascending_blocks (ps : List PropertyReport) (rs : List RowsReport) (detailed : Prop)
    [Decidable detailed] : Ascending (if detailed then propertyBlock ps else none)
      (if detailed then rowsBlock rs else none) := by
  constructor
  · intro b hb
    have hasc := property_block_ascends ps
    split at hb
    · rwa [Option.mem_def.mp hb] at hasc
    · cases hb
  · intro b hb
    have hasc := rows_block_ascends rs
    split at hb
    · rwa [Option.mem_def.mp hb] at hasc
    · cases hb

theorem Ascending.distinct {properties : Option PropertyBlock} {rows : Option RowCounts}
    (h : Ascending properties rows) : Distinct properties rows where
  names b hb := (h.names b hb).imp ne_of_lt
  actions b hb := (h.actions b hb).imp ne_of_lt

/-- Bindings in ascending order are known from what bindings there are. -/
theorem eq_of_ascending {ν : Type} {m n : Assoc String ν}
    (hm : (m.map Prod.fst).Pairwise (· < ·)) (hn : (n.map Prod.fst).Pairwise (· < ·))
    (h : m.Perm n) : m = n :=
  h.eq_of_pairwise (fun _ _ _ _ hab hba => absurd hab (lt_asymm hba))
    (List.pairwise_map.mp hm) (List.pairwise_map.mp hn)

theorem perm_of_sorted {ms ns : List (Utf16 × Json)} (h : (obj ms).sorted = (obj ns).sorted) :
    (sortedMembers ms).Perm (sortedMembers ns) := by
  have hsort := Json.obj.inj h
  exact (sort_members_perm _).symm.trans (hsort ▸ sort_members_perm _)

theorem rows_of_sorted {m n : RowCounts} (hm : (m.map Prod.fst).Pairwise (· < ·))
    (hn : (n.map Prod.fst).Pairwise (· < ·)) (h : m.json.sorted = n.json.sorted) : m = n := by
  have hperm := perm_of_sorted h
  rw [sorted_members_map, sorted_members_map, List.map_map, List.map_map, List.map_map,
    List.map_map] at hperm
  refine eq_of_ascending hm hn ((List.map_perm_map_iff fun p q hpq => ?_).mp hperm)
  obtain ⟨hkey, hvalue⟩ := Prod.mk.inj hpq
  exact Prod.ext (Utf16.of_string_injective hkey) (Json.int.inj hvalue)

theorem property_of_sorted {v w : String} {c d : Int}
    (h : (Json.ofPairs [("value", .text v), ("count", .int c)]).sorted =
      (Json.ofPairs [("value", .text w), ("count", .int d)]).sorted) : (v, c) = (w, d) := by
  have hperm := perm_of_sorted h
  rw [sorted_members_map, sorted_members_map] at hperm
  have hvalue := hperm.mem_iff.mp List.mem_cons_self
  have hcount := hperm.mem_iff.mp (List.mem_cons_of_mem _ List.mem_cons_self)
  simp only [List.map_cons, List.map_nil, List.mem_cons, List.not_mem_nil, or_false, Prod.mk.injEq,
    Json.text, sorted, Json.str.injEq, Json.int.injEq, reduceCtorEq, and_false, false_or,
    true_and] at hvalue hcount
  rw [Utf16.of_string_injective hvalue, hcount]

theorem properties_of_sorted {m n : PropertyBlock} (hm : (m.map Prod.fst).Pairwise (· < ·))
    (hn : (n.map Prod.fst).Pairwise (· < ·))
    (h : (PropertyBlock.json m).sorted = (PropertyBlock.json n).sorted) : m = n := by
  have hperm := perm_of_sorted h
  rw [sorted_members_map, sorted_members_map, List.map_map, List.map_map, List.map_map,
    List.map_map] at hperm
  refine eq_of_ascending hm hn ((List.map_perm_map_iff fun p q hpq => ?_).mp hperm)
  obtain ⟨hkey, hvalue⟩ := Prod.mk.inj hpq
  exact Prod.ext (Utf16.of_string_injective hkey) (property_of_sorted hvalue)

theorem block_of_sorted {α : Type} {f : α → Json} {x y : Option α}
    (hf : ∀ a ∈ x, ∀ b ∈ y, (f a).sorted = (f b).sorted → a = b)
    (h : (x.map f).map sorted = (y.map f).map sorted) : x = y := by
  cases x with
  | none =>
    cases y with
    | none => rfl
    | some b => cases h
  | some a =>
    cases y with
    | none => cases h
    | some b => rw [hf a rfl b rfl (Option.some.inj h)]

end QueryTelemetry
