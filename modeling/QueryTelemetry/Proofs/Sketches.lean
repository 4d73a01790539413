import QueryTelemetry.Proofs.Blocks

/-!
# Rows and what they are made of

The columns hold the fields of an entry under names of their own, so a row has one cell for every
field, and one for every block. Nothing of an entry is lost in its row.
-/

set_option autoImplicit false

namespace QueryTelemetry
open Json
open Payload (AllShort)

namespace Assoc
variable {κ ι ν : Type} [DecidableEq κ] [DecidableEq ι]

theorem get_append (m n : Assoc κ ν) (k : κ) : get? (m ++ n) k = (get? m k).or (get? n k) := by
  induction m with
  | nil => rfl
  | cons p m ih =>
    rw [List.cons_append, get?, get?]
    split
    · rfl
    · exact ih

theorem get_rename (g : κ → ι) {m : Assoc κ ν} {k : κ} (h : ∀ a ∈ m.keys, g a = g k → a = k) :
    get? (m.map fun p => (g p.1, p.2)) (g k) = get? m k := by
  induction m with
  | nil => rfl
  | cons p m ih =>
    obtain ⟨hp, hm⟩ := List.forall_mem_cons.mp h
    rw [List.map_cons, get?, get?, ih hm]
    by_cases hk : p.1 = k
    · rw [if_pos hk, if_pos (congrArg g hk)]
    · rw [if_neg hk, if_neg fun hg => hk (hp hg)]

end Assoc

/-! ## Rows -/

/-- What a row is made of: the text of an entry, its numbers and flags under the names of their
columns, and its blocks. -/
structure Sketch where
  text : String
  plain : List (String × Json)
  properties : Option PropertyBlock
  rows : Option RowCounts

def fieldOf : String → String
  | "start_time" => "startTime"
  | "duration_ms" => "duration"
  | "node_id" => "nodeId"
  | "logical_reads" => "logicalReads"
  | "physical_reads" => "physicalReads"
  | column => column

def blockColumns : List String := ["properties", "rows"]

namespace Sketch

def front (k : Sketch) : List (String × Json) := ("text", .text k.text) :: k.plain

def row? (k : Sketch) : Except Failure Row := do
  let properties ← blockCellOf (k.properties.map PropertyBlock.json)
  let rows ← blockCellOf (k.rows.map RowCounts.json)
  return k.front ++ [("properties", properties), ("rows", rows)]

def members (k : Sketch) : List (String × Json) :=
  k.plain.map (fun p => (fieldOf p.1, p.2)) ++ blockMembers k.properties k.rows

def entry (k : Sketch) : Assoc Utf16 Json :=
  (("text", .text k.text) :: k.members).map fun p => (Utf16.ofString p.1, p.2)

def Short (k : Sketch) : Prop :=
  (∀ b ∈ k.properties.map PropertyBlock.json, AllShort b.integers) ∧
  ∀ b ∈ k.rows.map RowCounts.json, AllShort b.integers

structure Fits (schema : Schema) (k : Sketch) : Prop where
  columns : k.front.map Prod.fst ++ blockColumns = schema.map Prod.fst
  ascending : Ascending k.properties k.rows

end Sketch

/-- A row with one cell for every field of the entry, and one for every block that it may have. -/
structure Carries (schema : Schema) (entry : Assoc Utf16 Json) (row : Row) : Prop where
  columns : row.map Prod.fst = schema.map Prod.fst
  fields : ∀ c ∈ row.map Prod.fst, c ∉ blockColumns → ∃ v, Assoc.get? row c = some v ∧
    entry.get? (Utf16.ofString (fieldOf c)) = some v
  blocks : ∀ c ∈ blockColumns, ∃ cell, Assoc.get? row c = some cell ∧
    HoldsBlock (entry.get? (Utf16.ofString c)) cell

def RollupEntry.sketch (text : String) (e : RollupEntry) : Sketch where
  text := text
  plain := [("count", .int e.count), ("duration_ms", .int e.duration),
    ("logical_reads", .int e.logicalReads), ("physical_reads", .int e.physicalReads),
    ("failures", .int e.failures)]
  properties := e.properties
  rows := e.rows

def SlowEntry.sketch (e : SlowEntry) (node : String) : Sketch where
  text := e.text
  plain := [("start_time", .int e.startTime), ("duration_ms", .int e.duration),
    ("node_id", .text node), ("success", .bool e.success), ("logical_reads", .int e.logicalReads),
    ("physical_reads", .int e.physicalReads)]
  properties := e.properties
  rows := e.rows

theorem slow_entry_json (e : SlowEntry) :
    e.json? = e.node.text?.map fun node =>
      .ofPairs (("text", .text e.text) :: (e.sketch node).members) := rfl

theorem get_of_pairs (ms : List (String × Json)) (key : String) :
    Assoc.get? (ms.map fun p => (Utf16.ofString p.1, p.2)) (Utf16.ofString key) =
      Assoc.get? ms key :=
  Assoc.get_rename Utf16.ofString fun _ _ h => Utf16.of_string_injective h

theorem member_of_pairs {ms : List (String × Json)} {key : String} {v : Json}
    (h : Assoc.get? ms key = some v) : (Json.ofPairs ms).member? key = .ok v := by
  rw [Json.ofPairs, Json.member?, get_of_pairs, h]

theorem block_of_pairs {ms : List (String × Json)} {key : String} {block : Option Json}
    (h : Assoc.get? ms key = block) (hnull : block ≠ some .null) :
    (Json.ofPairs ms).blockCell key = blockCellOf block := by
  rw [Json.ofPairs, Json.blockCell, get_of_pairs, h]
  cases block with
  | none => rfl
  | some v =>
    rw [blockCellOf]
    cases hc : v.compact? <;> cases v with
    | null => exact absurd rfl hnull
    | bool _ | int _ | float _ | str _ | arr _ | obj _ => simp only [hc]

section Blocks
variable (properties : Option PropertyBlock) (rows : Option RowCounts)

theorem get_properties : Assoc.get? (blockMembers properties rows) "properties" =
    properties.map PropertyBlock.json := by
  cases properties <;> cases rows <;> rfl

theorem get_rows : Assoc.get? (blockMembers properties rows) "rows" = rows.map RowCounts.json := by
  cases properties <;> cases rows <;> rfl

end Blocks

theorem rollup_row_sketch (text : String) (e : RollupEntry) :
    rollupRow (Utf16.ofString text) e.json = (e.sketch text).row? := by
  have hproperties : e.json.blockCell "properties" =
      blockCellOf (e.properties.map PropertyBlock.json) :=
    block_of_pairs (get_properties e.properties e.rows) (by cases e.properties <;> nofun)
  have hrows : e.json.blockCell "rows" = blockCellOf (e.rows.map RowCounts.json) :=
    block_of_pairs (get_rows e.properties e.rows) (by cases e.rows <;> nofun)
  have hcount : e.json.member? "count" = .ok (.int e.count) := member_of_pairs rfl
  have hduration : e.json.member? "duration" = .ok (.int e.duration) := member_of_pairs rfl
  have hlogical : e.json.member? "logicalReads" = .ok (.int e.logicalReads) := member_of_pairs rfl
  have hphysical : e.json.member? "physicalReads" = .ok (.int e.physicalReads) :=
    member_of_pairs rfl
  have hfailures : e.json.member? "failures" = .ok (.int e.failures) := member_of_pairs rfl
  rw [rollupRow, hcount, hduration, hlogical, hphysical, hfailures, hproperties, hrows]
  rfl

theorem slow_row_sketch (e : SlowEntry) (node : String) :
    topSlowRow (.ofPairs (("text", .text e.text) :: (e.sketch node).members)) =
      (e.sketch node).row? := by
  let v : Json := .ofPairs (("text", .text e.text) :: (e.sketch node).members)
  have hproperties : v.blockCell "properties" =
      blockCellOf (e.properties.map PropertyBlock.json) :=
    block_of_pairs (get_properties e.properties e.rows) (by cases e.properties <;> nofun)
  have hrows : v.blockCell "rows" = blockCellOf (e.rows.map RowCounts.json) :=
    block_of_pairs (get_rows e.properties e.rows) (by cases e.rows <;> nofun)
  have htext : v.member? "text" = .ok (.text e.text) := member_of_pairs rfl
  have hstart : v.member? "startTime" = .ok (.int e.startTime) := member_of_pairs rfl
  have hduration : v.member? "duration" = .ok (.int e.duration) := member_of_pairs rfl
  have hnode : v.member? "nodeId" = .ok (.text node) := member_of_pairs rfl
  have hsuccess : v.member? "success" = .ok (.bool e.success) := member_of_pairs rfl
  have hlogical : v.member? "logicalReads" = .ok (.int e.logicalReads) := member_of_pairs rfl
  have hphysical : v.member? "physicalReads" = .ok (.int e.physicalReads) := member_of_pairs rfl
  change topSlowRow v = _
  rw [topSlowRow, htext, hstart, hduration, hnode, hsuccess, hlogical, hphysical, hproperties,
    hrows]
  rfl

structure Schema.Apart (schema : Schema) : Prop where
  nodup : (schema.map Prod.fst).Nodup
  fields : ∀ c ∈ schema.map Prod.fst, c ∉ blockColumns → fieldOf c ∉ blockColumns ∧
    ∀ a ∈ schema.map Prod.fst, fieldOf a = fieldOf c → a = c

theorem tabled_apart : ∀ t ∈ tabled, t.schema.Apart := by
  have hall : ∀ t ∈ tabled, (t.schema.map Prod.fst).Nodup ∧
      ∀ c ∈ t.schema.map Prod.fst, c ∉ blockColumns → fieldOf c ∉ blockColumns ∧
        ∀ a ∈ t.schema.map Prod.fst, fieldOf a = fieldOf c → a = c := by decide
  exact fun t ht => ⟨(hall t ht).1, (hall t ht).2⟩

namespace Sketch
variable {k : Sketch} {schema : Schema} {row : Row}

theorem row_of_short (h : k.Short) : ∃ row, k.row? = .ok row := by
  obtain ⟨p, hp⟩ := block_cell_of_short h.1
  obtain ⟨r, hr⟩ := block_cell_of_short h.2
  exact ⟨_, by rw [row?, hp, hr]; rfl⟩

theorem row_of_long (h : ¬ k.Short) : k.row? = .error .unwritable := by
  by_cases hp : ∀ b ∈ k.properties.map PropertyBlock.json, AllShort b.integers
  · obtain ⟨p, hcell⟩ := block_cell_of_short hp
    rw [row?, hcell, block_cell_of_long fun hr => h ⟨hp, hr⟩]
    rfl
  · rw [row?, block_cell_of_long hp]
    rfl

theorem row_ok_iff : k.row? = .ok row ↔ ∃ p r,
    blockCellOf (k.properties.map PropertyBlock.json) = .ok p ∧
    blockCellOf (k.rows.map RowCounts.json) = .ok r ∧
    k.front ++ [("properties", p), ("rows", r)] = row := by
  simp only [row?, bind_ok_iff, pure, Except.pure, Except.ok.injEq]
  exact ⟨fun ⟨p, hp, r, hr, h⟩ => ⟨p, r, hp, hr, h⟩, fun ⟨p, r, hp, hr, h⟩ => ⟨p, hp, r, hr, h⟩⟩

theorem shaped_properties (h : Ascending k.properties k.rows) :
    ∀ b ∈ k.properties.map PropertyBlock.json, b.Shaped 2 := by
  intro b hb
  obtain ⟨m, hm, rfl⟩ := Option.map_eq_some_iff.mp hb
  exact QueryTelemetry.shaped_properties (h.distinct.names m hm)

theorem shaped_rows (h : Ascending k.properties k.rows) :
    ∀ b ∈ k.rows.map RowCounts.json, b.Shaped 2 := by
  intro b hb
  obtain ⟨m, hm, rfl⟩ := Option.map_eq_some_iff.mp hb
  exact (QueryTelemetry.shaped_rows (h.distinct.actions m hm)).mono (by decide)

theorem entry_get (k : Sketch) (key : String) : k.entry.get? (Utf16.ofString key) =
    (Assoc.get? (k.front.map fun p => (fieldOf p.1, p.2)) key).or
      (Assoc.get? (blockMembers k.properties k.rows) key) := by
  rw [entry, get_of_pairs, ← Assoc.get_append]
  rfl

theorem mem_columns (h : k.Fits schema) {c : String} (hc : c ∈ k.front.map Prod.fst) :
    c ∈ schema.map Prod.fst := by
  rw [← h.columns]
  exact List.mem_append_left _ hc

theorem front_apart (h : k.Fits schema) (ha : schema.Apart) {c : String}
    (hc : c ∈ k.front.map Prod.fst) : c ∉ blockColumns := by
  have hnodup := ha.nodup
  rw [← h.columns] at hnodup
  exact fun hb => (List.nodup_append.mp hnodup).2.2 c hc c hb rfl

theorem entry_field (h : k.Fits schema) (ha : schema.Apart) {c : String} {v : Json}
    (hv : Assoc.get? k.front c = some v) : k.entry.get? (Utf16.ofString (fieldOf c)) = some v := by
  have hc : c ∈ k.front.map Prod.fst := by
    rw [← Assoc.keys, ← Assoc.has_iff, Assoc.has, hv]
    rfl
  have happ := (ha.fields c (mem_columns h hc) (front_apart h ha hc)).2
  rw [entry_get, Assoc.get_rename fieldOf fun a hfront => happ a (mem_columns h hfront), hv]
  rfl

theorem entry_block (h : k.Fits schema) (ha : schema.Apart) {c : String} (hc : c ∈ blockColumns) :
    k.entry.get? (Utf16.ofString c) = Assoc.get? (blockMembers k.properties k.rows) c := by
  have hnone : Assoc.get? (k.front.map fun p => (fieldOf p.1, p.2)) c = none := by
    rw [Assoc.get_none_iff, Assoc.keys, List.map_map]
    intro hmem
    obtain ⟨p, hp, rfl⟩ := List.mem_map.mp hmem
    have hfront := List.mem_map_of_mem (f := Prod.fst) hp
    exact (ha.fields p.1 (mem_columns h hfront) (front_apart h ha hfront)).1 hc
  rw [entry_get, hnone, Option.none_or]

theorem entry_short_iff (h : k.Fits schema) (ha : schema.Apart) :
    (∀ c ∈ blockColumns, ∀ b ∈ k.entry.get? (Utf16.ofString c), AllShort b.integers) ↔ k.Short := by
  have hp : k.entry.get? (Utf16.ofString "properties") = k.properties.map PropertyBlock.json := by
    rw [entry_block h ha (by decide), get_properties]
  have hr : k.entry.get? (Utf16.ofString "rows") = k.rows.map RowCounts.json := by
    rw [entry_block h ha (by decide), get_rows]
  simp only [blockColumns, List.forall_mem_cons, List.not_mem_nil, false_implies, implies_true,
    and_true, hp, hr]
  rfl

theorem row_carries (h : k.Fits schema) (ha : schema.Apart) (hrow : k.row? = .ok row) :
    Carries schema k.entry row := by
  obtain ⟨p, r, hp, hr, rfl⟩ := row_ok_iff.mp hrow
  have hfront {c : String} (hc : c ∈ blockColumns) : Assoc.get? k.front c = none :=
    (Assoc.get_none_iff _ _).mpr fun hmem => front_apart h ha hmem hc
  refine ⟨?_, fun c hc hb => ?_, ?_⟩
  · rw [List.map_append, ← h.columns]
    rfl
  · rw [List.map_append] at hc
    have hmem := (List.mem_append.mp hc).resolve_right hb
    obtain ⟨v, hv⟩ := Option.isSome_iff_exists.mp ((Assoc.has_iff _ _).mpr hmem)
    refine ⟨v, ?_, entry_field h ha hv⟩
    rw [Assoc.get_append, hv, Option.some_or]
  · simp only [blockColumns, List.forall_mem_cons]
    refine ⟨⟨p, ?_, ?_⟩, ⟨r, ?_, ?_⟩, List.forall_mem_nil _⟩
    · rw [Assoc.get_append, hfront (by decide), Option.none_or]
      rfl
    · rw [entry_block h ha (by decide), get_properties]
      exact block_cell_holds (shaped_properties h.ascending) hp
    · rw [Assoc.get_append, hfront (by decide), Option.none_or]
      rfl
    · rw [entry_block h ha (by decide), get_rows]
      exact block_cell_holds (shaped_rows h.ascending) hr

/-- Nothing of an entry is lost in its row. -/
theorem row_injective {l : Sketch} (hk : Ascending k.properties k.rows)
    (hl : Ascending l.properties l.rows) (h : k.row? = .ok row) (hrow : l.row? = .ok row) :
    k = l := by
  obtain ⟨p, r, hp, hr, hcells⟩ := row_ok_iff.mp h
  obtain ⟨q, s, hq, hs, rfl⟩ := row_ok_iff.mp hrow
  obtain ⟨hfront, hblocks⟩ := List.append_inj' hcells rfl
  simp only [List.cons.injEq, Prod.mk.injEq, true_and, and_true] at hblocks
  obtain ⟨rfl, rfl⟩ := hblocks
  have hproperties : k.properties = l.properties :=
    block_of_sorted (fun a ha b hb => properties_of_sorted (hk.names a ha) (hl.names b hb))
      (block_cell_sorted (shaped_properties hk) (shaped_properties hl) hp hq)
  have hrows : k.rows = l.rows :=
    block_of_sorted (fun a ha b hb => rows_of_sorted (hk.actions a ha) (hl.actions b hb))
      (block_cell_sorted (shaped_rows hk) (shaped_rows hl) hr hs)
  obtain ⟨htext, hplain⟩ := List.cons.inj hfront
  have htext := Utf16.of_string_injective (Json.str.inj (Prod.mk.inj htext).2)
  cases k
  cases l
  simp_all

end Sketch

end QueryTelemetry
