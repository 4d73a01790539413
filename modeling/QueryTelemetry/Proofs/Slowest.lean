import QueryTelemetry.Proofs.Join
import QueryTelemetry.Proofs.Ranking

/-!
# Slowest queries of whole runs

The leaderboard of a kind is offered the completions of that kind and of no other, so it holds
what their stream retains. Facts are looked up when the list is made, so each element shows all
reads, rows and properties of its identity, also those that came after the completion.
-/

set_option autoImplicit false

namespace QueryTelemetry
open Leaderboard

section AfterRun
variable (s : Settings) (h : History) (kind : QueryKind)

theorem slowest_after_run : ((Aggregator.start s).run h).slowest.get? kind =
    if h.completed kind = [] then none else some (fill s.topSlowSize (h.offers kind)) := by
  have hfold : (h.completed kind).foldl (fun b c => b.put c.duration c) (empty s.topSlowSize) =
      fill s.topSlowSize (h.offers kind) := by
    rw [fill, History.offers, List.foldl_map]
    rfl
  rw [Aggregator.run_slowest, Assoc.get_gather,
    fold_default fun (b : Leaderboard Completion) (c : Completion) => b.put c.duration c]
  exact congrArg (fun b => if h.completed kind = [] then none else some b) hfold

theorem properties_shown_after_run (i : Identity) :
    (((Aggregator.start s).run h).correlator.properties? kind i).map (·.block) =
      propertyBlock (h.propertiesOf s.rowsByKind kind [i]) := by
  have ht := tally_properties (h.propertiesOf s.rowsByKind kind [i])
  rw [properties_after_run, ← shown_properties ht]
  exact ht.lookup_shown PropertyCounts.block

theorem rows_shown_after_run (i : Identity) :
    (((Aggregator.start s).run h).correlator.rows? kind i).map (·.block) =
      rowsBlock (h.rowsOf s.rowsByKind kind [i]) := by
  have ht := tally_rows (h.rowsOf s.rowsByKind kind [i])
  rw [rows_after_run, ← shown_rows ht]
  exact ht.lookup_shown RowCounts.block

theorem slow_entry_after_run (c : Completion) :
    ((Aggregator.start s).run h).slowEntry kind c = h.slowEntry s.rowsByKind kind c := by
  rw [Aggregator.slowEntry, total_reads_after_run, properties_shown_after_run,
    rows_shown_after_run, nanosToMillis, Int.fdiv_eq_ediv_of_nonneg _ (by decide)]
  rfl

theorem top_slow_after_run : ((Aggregator.start s).run h).topSlow kind =
    (retained s.topSlowSize.val (h.offers kind)).map fun e =>
      h.slowEntry s.rowsByKind kind e.item := by
  have hentries := fill_entries s.topSlowSize (h.offers kind)
  rw [Aggregator.topSlow, slowest_after_run]
  by_cases hn : h.completed kind = []
  · have hempty : retained s.topSlowSize.val (h.offers kind) = [] := by
      rw [← hentries, History.offers, hn]
      rfl
    rw [if_pos hn, hempty]
    rfl
  · rw [if_neg hn]
    simp only [Leaderboard.items, hentries, List.map_map]
    apply List.map_congr_left
    intro e _
    exact slow_entry_after_run s h kind e.item

end AfterRun

theorem collect_eq {α β : Type} (f : α → Option β) (xs : List α) :
    xs.mapM f = if xs.all (fun x => (f x).isSome) then some (xs.filterMap f) else none := by
  induction xs with
  | nil => rfl
  | cons x xs ih =>
    rw [List.mapM_cons, ih]
    cases hx : f x with
    | none => simp [hx]
    | some y => by_cases hall : xs.all (fun x => (f x).isSome) <;> simp [hx, hall]

theorem slow_entry_written (h : History) (byKind : Bool) (kind : QueryKind) (c : Completion) :
    (h.slowEntry byKind kind c).json?.isSome = c.node.text?.isSome := by
  rw [SlowEntry.json?, Option.isSome_map]
  rfl

theorem top_slow_of_session (s : Settings) (calls : List Call) (kind : QueryKind) :
    ((Session.start s).run calls).aggregator.topSlow kind =
      (retained s.topSlowSize.val ((history calls).offers kind)).map fun e =>
        (history calls).slowEntry s.rowsByKind kind e.item := by
  rw [Session.run_aggregator]
  exact top_slow_after_run s (history calls) kind

theorem offer_score {h : History} {kind : QueryKind} {e : Scored Completion}
    (he : e ∈ h.offers kind) : e.item.duration = e.score := by
  obtain ⟨c, -, rfl⟩ := List.mem_map.mp he
  rfl

/-- Rounding down to milliseconds keeps the order. -/
theorem durations_ascend (h : History) (byKind : Bool) (kind : QueryKind) {k : Nat} (hk : 0 < k) :
    (((retained k (h.offers kind)).map fun e => h.slowEntry byKind kind e.item).map
      (·.duration)).Pairwise (· ≤ ·) := by
  rw [List.map_map, List.pairwise_map]
  apply (sort_by_ascends Scored.score (kept k (h.offers kind))).imp_of_mem
  intro e f he hf hle
  rw [← offer_score (mem_retained hk he), ← offer_score (mem_retained hk hf)] at hle
  exact Int.ediv_le_ediv (by decide) hle

/-! ## What is written -/

/-- The text of a node; an integer that is too long has none. -/
def NodeId.written? : NodeId → Option String
  | .named s => some s
  | .numbered n => if n.natAbs < Integer.ceiling then some (toString n) else none
  | .other _ text => text

def SlowEntry.shown (e : SlowEntry) (node : String) : List (String × Json) := [
    ("text", .text e.text),
    ("startTime", .int e.startTime),
    ("duration", .int e.duration),
    ("nodeId", .text node),
    ("success", .bool e.success),
    ("logicalReads", .int e.logicalReads),
    ("physicalReads", .int e.physicalReads)] ++
  (e.properties.map fun b => ("properties", .ofPairs (b.map fun p =>
    (p.1, .ofPairs [("value", .text p.2.1), ("count", .int p.2.2)])))).toList ++
  (e.rows.map fun b => ("rows", .ofPairs (b.map fun p => (p.1, .int p.2)))).toList

theorem node_text_written (node : NodeId) : node.text? = node.written? := by
  cases node with
  | named s => rfl
  | numbered n => exact Integer.text_eq n
  | other key text => rfl

theorem slow_entry_shown (e : SlowEntry) :
    e.json? = e.node.written?.map fun node => .ofPairs (e.shown node) := by
  rw [SlowEntry.json?, node_text_written]
  refine congrArg (Option.map · e.node.written?) (funext fun node => ?_)
  rw [SlowEntry.shown, List.append_assoc]
  rfl

/-- In any session the slowest queries of a kind are what its completions alone make a leaderboard
hold, by ascending duration and in order of arrival among equals. Each shows all facts of its
identity. There is no list to write if a node has no text. -/
theorem top_slow_of_history (s : Settings) (calls : List Call) (kind : QueryKind) :
    let h := history calls
    let a := ((Session.start s).run calls).aggregator
    let slow := retained s.topSlowSize.val (h.offers kind)
    slow = (fill s.topSlowSize (h.offers kind)).entries ∧
    Ascends Scored.score slow ∧
    (∀ n, (slow.filter (·.score = n)).Sublist ((h.offers kind).filter (·.score = n))) ∧
    a.topSlow kind = slow.map (fun e => h.slowEntry s.rowsByKind kind e.item) ∧
    ((a.topSlow kind).map (·.duration)).Pairwise (· ≤ ·) ∧
    a.topSlowJson? kind =
      if slow.all (·.item.node.written?.isSome) then
        some (.arr (slow.filterMap fun e => e.item.node.written?.map fun node =>
          .ofPairs ((h.slowEntry s.rowsByKind kind e.item).shown node)))
      else none := by
  intro h a slow
  have hslow : a.topSlow kind = slow.map fun e => h.slowEntry s.rowsByKind kind e.item :=
    top_slow_of_session s calls kind
  refine ⟨(fill_entries _ _).symm, sort_by_ascends _ _, ?_, hslow, ?_, ?_⟩
  · exact retained_arrival s.topSlowSize.2 (h.offers kind)
  · rw [hslow]
    exact durations_ascend h s.rowsByKind kind s.topSlowSize.2
  · rw [Aggregator.topSlowJson?, hslow, collect_eq, List.all_map, List.filterMap_map]
    have hnode (c : Completion) : (h.slowEntry s.rowsByKind kind c).node = c.node := rfl
    simp only [Function.comp_def, slow_entry_shown, Option.isSome_map, hnode]
    by_cases hall : slow.all (·.item.node.written?.isSome)
    · rw [if_pos hall, if_pos hall]
      rfl
    · rw [if_neg hall, if_neg hall]
      rfl

end QueryTelemetry
