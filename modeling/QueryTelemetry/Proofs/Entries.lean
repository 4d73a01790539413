import Mathlib.Data.List.Nodup
import QueryTelemetry.Proofs.Facts

/-!
# Entries of the table

A set of identities keeps its nodes distinct and the ids of a node ascending, so it lists every
identity once. The entry of a text counts the executions of the text and lists their identities;
the table holds exactly one entry for each text of a kind, in the order of first sight.
-/

set_option autoImplicit false

namespace QueryTelemetry

namespace IdentitySet

structure Proper (s : IdentitySet) : Prop where
  nodes : (Assoc.keys s).Nodup
  ids : ∀ node ids, Assoc.get? s node = some ids → ids.Pairwise (· < ·)

theorem insert_id_ascends (n : Int) {xs : List Int} (h : xs.Pairwise (· < ·)) :
    (insertId n xs).Pairwise (· < ·) := by
  induction xs with
  | nil => simp [insertId]
  | cons x r ih =>
    obtain ⟨hx, hr⟩ := List.pairwise_cons.mp h
    unfold insertId
    split
    · rename_i hn
      apply List.pairwise_cons.mpr
      constructor
      · intro y hy
        rcases List.mem_cons.mp hy with rfl | hy
        · exact hn
        · exact lt_trans hn (hx y hy)
      · exact h
    · split
      · exact h
      · rename_i hlt hne
        apply List.pairwise_cons.mpr
        constructor
        · intro y hy
          rcases (mem_insert_id n y r).mp hy with rfl | hy
          · omega
          · exact hx y hy
        · exact ih hr

theorem proper_nil : Proper [] := ⟨List.nodup_nil, fun _ _ h => by simp [Assoc.get?] at h⟩

theorem proper_insert {s : IdentitySet} (h : s.Proper) (i : Identity) : (s.insert i).Proper := by
  refine ⟨Assoc.keys_nodup_update h.nodes _ _, ?_⟩
  intro node ids hg
  rw [insert, Assoc.get_update] at hg
  split at hg
  · cases hold : Assoc.get? s i.node with
    | none =>
      rw [hold, Option.some.injEq] at hg
      exact hg ▸ insert_id_ascends _ List.Pairwise.nil
    | some old =>
      rw [hold, Option.some.injEq] at hg
      exact hg ▸ insert_id_ascends _ (h.ids i.node old hold)
  · exact h.ids node ids hg

theorem mem_to_list {s : IdentitySet} (h : s.Proper) (i : Identity) :
    i ∈ s.toList ↔ ∃ ids, Assoc.get? s i.node = some ids ∧ i.id ∈ ids := by
  rw [toList, List.mem_flatMap]
  constructor
  · rintro ⟨p, hp, hi⟩
    obtain ⟨n, hn, rfl⟩ := List.mem_map.mp hi
    exact ⟨p.2, (Assoc.get_mem h.nodes).mpr hp, hn⟩
  · rintro ⟨ids, hg, hi⟩
    exact ⟨(i.node, ids), (Assoc.get_mem h.nodes).mp hg, List.mem_map.mpr ⟨i.id, hi, rfl⟩⟩

theorem mem_insert {s : IdentitySet} (h : s.Proper) (i j : Identity) :
    j ∈ (s.insert i).toList ↔ j = i ∨ j ∈ s.toList := by
  obtain ⟨node, n⟩ := i
  obtain ⟨node', n'⟩ := j
  rw [mem_to_list (proper_insert h _), mem_to_list h, insert, Assoc.get_update]
  by_cases hn : node' = node
  · subst hn
    cases Assoc.get? s node' <;> simp [mem_insert_id]
  · simp [hn]

theorem to_list_nodup {s : IdentitySet} (h : s.Proper) : s.toList.Nodup := by
  rw [toList, List.nodup_flatMap]
  constructor
  · rintro ⟨node, ids⟩ hp
    have hids : ids.Nodup := (h.ids node ids ((Assoc.get_mem h.nodes).mpr hp)).imp ne_of_lt
    exact hids.map fun a b hab => by simpa using hab
  · apply (List.pairwise_map.mp h.nodes).imp
    intro p q hpq i hip hiq
    obtain ⟨n, -, rfl⟩ := List.mem_map.mp hip
    obtain ⟨n', -, hn'⟩ := List.mem_map.mp hiq
    exact hpq (congrArg Identity.node hn').symm

theorem nodes_of_inserts (is : List Identity) :
    (Assoc.keys (is.foldl insert [])) = (is.map (·.node)).eraseDups :=
  Assoc.keys_gather Identity.node (fun i old => insertId i.id (old.getD [])) is

theorem proper_inserts (is : List Identity) : Proper (is.foldl insert []) := by
  induction is using List.reverseRecOn with
  | nil => exact proper_nil
  | append_singleton is i ih =>
    rw [List.foldl_append]
    exact proper_insert ih i

theorem mem_inserts (is : List Identity) (i : Identity) :
    i ∈ toList (is.foldl insert []) ↔ i ∈ is := by
  induction is using List.reverseRecOn with
  | nil => simp [toList]
  | append_singleton is j ih =>
    rw [List.foldl_append, List.foldl_cons, List.foldl_nil, mem_insert (proper_inserts is), ih,
      List.mem_append, List.mem_singleton, or_comm]

end IdentitySet

namespace Entry

def ofExecutions (cs : List Completion) : Entry :=
  cs.foldl (fun e c => e.merge c.identity c.duration c.success) .empty

theorem of_executions_concat (cs : List Completion) (c : Completion) :
    ofExecutions (cs ++ [c]) = (ofExecutions cs).merge c.identity c.duration c.success := by
  simp [ofExecutions]

theorem totals_of_executions (cs : List Completion) : (ofExecutions cs).totals =
    { count := cs.length, duration := (cs.map (·.duration)).sum, logicalReads := 0,
      physicalReads := 0, failures := cs.countP (!·.success), properties := [], rows := [] } := by
  induction cs using List.reverseRecOn with
  | nil => rfl
  | append_singleton cs c ih =>
    rw [of_executions_concat, merge, Totals.merge, ih]
    cases hs : c.success <;> simp [hs]

theorem identities_of_executions (cs : List Completion) :
    (ofExecutions cs).identities = (cs.map (·.identity)).foldl IdentitySet.insert [] := by
  induction cs using List.reverseRecOn with
  | nil => rfl
  | append_singleton cs c ih =>
    rw [of_executions_concat, merge, ih, List.map_append, List.map_singleton, List.foldl_append]
    rfl

theorem proper_of_executions (cs : List Completion) : (ofExecutions cs).identities.Proper := by
  rw [identities_of_executions]
  exact IdentitySet.proper_inserts _

theorem mem_of_executions (cs : List Completion) (i : Identity) :
    i ∈ (ofExecutions cs).identities.toList ↔ i ∈ cs.map (·.identity) := by
  rw [identities_of_executions]
  exact IdentitySet.mem_inserts _ i

end Entry

namespace Table

theorem of_kind_map (ks : List (QueryKind × String)) (f : QueryKind × String → Entry)
    (kind : QueryKind) :
    ofKind (ks.map fun k => (k, f k)) kind =
      (ks.filterMap fun k => if k.1 = kind then some k.2 else none).map fun t =>
        (t, f (kind, t)) := by
  induction ks with
  | nil => rfl
  | cons k ks ih =>
    obtain ⟨j, t⟩ := k
    simp only [ofKind] at ih
    by_cases hj : j = kind
    · subst hj; simp [ofKind, ih]
    · simp [ofKind, hj, ih]

end Table

theorem History.texts_eq (h : History) (kind : QueryKind) :
    ((h.completions.map fun c => (c.kind, c.text)).eraseDups.filterMap fun k =>
      if k.1 = kind then some k.2 else none) = h.texts kind := by
  rw [first_seen_filter_map]
  · rw [texts, completed, List.filterMap_map]
    congr 1
    induction h.completions with
    | nil => rfl
    | cons c cs ih =>
      simp only [Function.comp_def] at ih ⊢
      by_cases hc : c.kind = kind <;> simp [hc, ih]
  · rintro ⟨j, t⟩ ⟨j', t'⟩ c hj hj'
    simp only [Option.ite_none_right_eq_some, Option.some.injEq] at hj hj'
    rw [hj.1, hj.2, hj'.1, hj'.2]

theorem History.executions_eq (h : History) (kind : QueryKind) (text : String) :
    h.completions.filter (fun c => (c.kind, c.text) = (kind, text)) = h.executions kind text := by
  rw [executions, completed, List.filter_filter]
  simp only [Prod.mk.injEq, Bool.decide_and, Bool.and_comm]

theorem table_keys_after_run (s : Settings) (h : History) :
    ((Aggregator.start s).run h).table.keys =
      (h.completions.map fun c => (c.kind, c.text)).eraseDups := by
  rw [Aggregator.run_table]
  exact Assoc.keys_gather (fun c : Completion => (c.kind, c.text)) _ h.completions

/-- One entry for every text, made of the executions of the text. -/
theorem entries_after_run (s : Settings) (h : History) (kind : QueryKind) :
    ((Aggregator.start s).run h).table.ofKind kind =
      (h.texts kind).map fun t => (t, Entry.ofExecutions (h.executions kind t)) := by
  let entry (k : QueryKind × String) : Entry :=
    Entry.ofExecutions (h.completions.filter fun c => (c.kind, c.text) = k)
  have hkeys := table_keys_after_run s h
  have hget : ∀ k ∈ ((Aggregator.start s).run h).table.keys,
      ((Aggregator.start s).run h).table.get? k = some (entry k) := by
    intro k hk
    rw [hkeys, List.mem_eraseDups, List.mem_map] at hk
    obtain ⟨c, hc, hck⟩ := hk
    have hmem : c ∈ h.completions.filter fun c => (c.kind, c.text) = k :=
      List.mem_filter.mpr ⟨hc, by simpa using hck⟩
    rw [Aggregator.run_table, Assoc.get_gather,
      fold_default fun (e : Entry) (c : Completion) => e.merge c.identity c.duration c.success,
      if_neg (List.ne_nil_of_mem hmem)]
    rfl
  have hnodup : ((Aggregator.start s).run h).table.keys.Nodup := hkeys ▸ first_seen_nodup _
  rw [Assoc.eq_map_keys hnodup entry hget, Table.of_kind_map, hkeys, h.texts_eq]
  apply List.map_congr_left
  intro t ht
  simp only [entry, h.executions_eq]

end QueryTelemetry
