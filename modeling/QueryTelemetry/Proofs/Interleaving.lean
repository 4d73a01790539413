import QueryTelemetry.Proofs.Arrival
import QueryTelemetry.Proofs.Delivery

/-!
# Interleaving

Threads that run side by side put one item at a time into a common list, each thread its own items
in their order. Such a list has the items of all threads and nothing else; where only one thread has
items of a sort, these come in the order in which the threads would give them one after another. So
aggregators that were fed by any interleaving of shards report what they would report after the
concatenation, up to order of arrival.
-/

set_option autoImplicit false

namespace QueryTelemetry

inductive Interleaving {α : Type} : List (List α) → List α → Prop where
  | done {threads : List (List α)} (h : ∀ t ∈ threads, t = []) : Interleaving threads []
  | next {threads : List (List α)} {i : Nat} {x : α} {rest merged : List α}
      (h : threads[i]? = some (x :: rest)) (hm : Interleaving (threads.set i rest) merged) :
      Interleaving threads (x :: merged)

section Places
variable {α : Type} {xs : List α} {i : Nat} {x : α} (h : xs[i]? = some x)
include h

theorem split_at : xs.take i ++ x :: xs.drop (i + 1) = xs := by
  obtain ⟨hi, rfl⟩ := List.getElem?_eq_some_iff.mp h
  rw [List.cons_getElem_drop_succ, List.take_append_drop]

theorem set_at (y : α) : xs.set i y = xs.take i ++ y :: xs.drop (i + 1) := by
  obtain ⟨hi, -⟩ := List.getElem?_eq_some_iff.mp h
  rw [List.set_eq_take_append_cons_drop, if_pos hi]

theorem set_same : xs.set i x = xs := by
  rw [set_at h, split_at h]

end Places

namespace Interleaving
variable {α β : Type} {threads : List (List α)} {merged : List α}

theorem perm (h : Interleaving threads merged) : merged.Perm threads.flatten := by
  induction h with
  | done h => rw [List.flatten_eq_nil_iff.mpr h]
  | @next threads i x rest merged h _ ih =>
    rw [set_at h, List.flatten_append, List.flatten_cons] at ih
    rw [← split_at h, List.flatten_append, List.flatten_cons, List.cons_append]
    exact (ih.cons x).trans List.perm_middle.symm

theorem filterMap (h : Interleaving threads merged) (f : α → Option β) :
    Interleaving (threads.map (List.filterMap f)) (merged.filterMap f) := by
  induction h with
  | done h =>
    refine .done fun t ht => ?_
    obtain ⟨u, hu, rfl⟩ := List.mem_map.mp ht
    rw [h u hu, List.filterMap_nil]
  | @next threads i x rest merged h _ ih =>
    have hi : (threads.map (List.filterMap f))[i]? = some ((x :: rest).filterMap f) := by
      rw [List.getElem?_map, h, Option.map_some]
    rw [List.map_set] at ih
    cases hx : f x with
    | none =>
      rw [List.filterMap_cons_none hx] at hi ⊢
      rwa [set_same hi] at ih
    | some y =>
      rw [List.filterMap_cons_some hx] at hi ⊢
      exact .next hi ih

theorem filter (h : Interleaving threads merged) (p : α → Bool) :
    Interleaving (threads.map (List.filter p)) (merged.filter p) := by
  have hf := h.filterMap (Option.guard p)
  simp only [List.filterMap_eq_filter] at hf
  exact hf

/-- If all threads but one are empty, the items keep their order. -/
theorem of_single {i : Nat} (h : Interleaving threads merged)
    (hi : ∀ t ∈ threads.eraseIdx i, t = []) : merged = threads.flatten := by
  induction h with
  | done h => exact (List.flatten_eq_nil_iff.mpr h).symm
  | @next threads j x rest merged h _ ih =>
    have hj : j = i := by
      by_contra hne
      exact List.cons_ne_nil x rest (hi _ (List.mem_eraseIdx_iff_getElem?.mpr ⟨j, hne, h⟩))
    subst hj
    have hbefore : (threads.take j).flatten = [] := by
      rw [List.flatten_eq_nil_iff]
      intro t ht
      exact hi t (by rw [List.eraseIdx_eq_take_drop_succ]; exact List.mem_append_left _ ht)
    have hmerged := ih (by rwa [List.eraseIdx_set_eq])
    rw [set_at h, List.flatten_append, hbefore] at hmerged
    rw [← split_at h, List.flatten_append, hbefore, hmerged]
    rfl

end Interleaving

/-- For each kind there is a shard outside of which nothing of that kind completes. -/
def KindsApart (shards : List (List Event)) : Prop :=
  ∀ kind, ∃ i, ∀ es ∈ shards.eraseIdx i, (deliveries es).completed kind = []

section Shards
variable {shards : List (List Event)} {merged : History}
  (hm : Interleaving (shards.map deliveries) merged)
include hm

theorem merged_perm : merged.Perm (deliveries shards.flatten) := by
  rw [deliveries_flatten]
  exact hm.perm

theorem merged_completed (hk : KindsApart shards) (kind : QueryKind) :
    merged.completed kind = (deliveries shards.flatten).completed kind := by
  obtain ⟨i, hi⟩ := hk kind
  have hc : Interleaving (shards.map fun es => (deliveries es).completed kind)
      (merged.completed kind) := by
    have hf := (hm.filterMap Record.completion?).filter (·.kind = kind)
    rwa [List.map_map, List.map_map] at hf
  rw [hc.of_single (i := i), deliveries_flatten, History.completed, History.completions,
    List.filterMap_flatten, List.filter_flatten, List.map_map, List.map_map]
  · rfl
  · rw [List.eraseIdx_map, List.forall_mem_map]
    exact hi

end Shards

/-- Building a report is the same work, up to the report itself and the number of texts in it. -/
theorem results_in_order (s : Settings) {h g : History} (hp : h.Perm g)
    (hc : ∀ kind, h.completed kind = g.completed kind) :
    (Handler.aggregator ((Aggregator.start s).run h)).results =
      (Handler.aggregator ((Aggregator.start s).run g)).results := by
  rw [Handler.results, Handler.results, report_in_order s hp hc, table_length_perm s hp]

end QueryTelemetry
