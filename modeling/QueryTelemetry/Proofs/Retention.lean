import QueryTelemetry.Proofs.Ranking

/-!
# Leaderboards in use

Between the entries that it is offered a leaderboard is asked for its values, its least score and
its size. Questions leave it alone, so after any calls it holds what the stream of its entries
keeps: all of a short stream, and else every entry above the threshold with the latest ties that
there is room for. An entry is let in if there is room, or if it is above the threshold of those
before it.
-/

set_option autoImplicit false

namespace QueryTelemetry

namespace Leaderboard
variable {α : Type}

inductive Move (α : Type) where
  | put (e : Scored α)
  | values
  | least
  | size

inductive Answer (α : Type) where
  | admitted (b : Bool)
  | values (items : List α)
  | least (score : Option Int)
  | size (n : Nat)

def respond (b : Leaderboard α) : Move α → Answer α × Leaderboard α
  | .put e => (.admitted (b.offer e).1, (b.offer e).2)
  | .values => (.values b.items, b)
  | .least => (.least b.minScore?, b)
  | .size => (.size b.size, b)

def after (b : Leaderboard α) (calls : List (Move α)) : Leaderboard α :=
  calls.foldl (fun b m => (b.respond m).2) b

def Move.put? : Move α → Option (Scored α)
  | .put e => some e
  | _ => none

def puts (calls : List (Move α)) : List (Scored α) := calls.filterMap Move.put?

theorem after_fill (capacity : Capacity) (calls : List (Move α)) :
    (empty capacity).after calls = fill capacity (puts calls) := by
  have hrun : ∀ b : Leaderboard α, b.after calls =
      (puts calls).foldl (fun b e => (b.offer e).2) b := by
    induction calls with
    | nil => exact fun _ => rfl
    | cons m calls ih =>
      intro b
      cases m with
      | put e => exact ih (b.offer e).2
      | values | least | size => exact ih b
  exact hrun (empty capacity)

section Scores
variable {k : Nat} {es : List (Scored α)}

theorem retained_length (hk : 0 < k) (es : List (Scored α)) :
    (retained k es).length = min k es.length := by
  rw [retained, ranked, (sort_by_perm _ _).length_eq, kept_length hk]

theorem ranked_scores (es : List (Scored α)) :
    (ranked es).map Scored.score = sortBy id (es.map Scored.score) := by
  apply List.Perm.eq_of_pairwise' (r := (· ≤ ·))
  · exact List.pairwise_map.mpr (sort_by_ascends Scored.score es)
  · exact sort_by_ascends id _
  · exact ((sort_by_perm _ es).map _).trans (sort_by_perm id _).symm

theorem lowest_highest (es : List (Scored α)) :
    kthHighest es.length (es.map Scored.score) = (ranked es).head?.map Scored.score := by
  rw [← List.head?_map, ranked_scores, List.head?_eq_getElem?, kthHighest]
  have hlen : (sortBy id (es.map Scored.score)).length = es.length := by
    rw [(sort_by_perm id _).length_eq, List.length_map]
  cases hn : es.length with
  | zero =>
    rw [List.length_eq_zero_iff.mp (hlen.trans hn)]
    rfl
  | succ n =>
    rw [List.getElem?_reverse (by omega)]
    congr 1
    omega

/-- The entry that gives way next has the least of the scores that are kept. -/
theorem retained_least (hk : 0 < k) (es : List (Scored α)) :
    (retained k es).head?.map Scored.score =
      kthHighest (min k es.length) (es.map Scored.score) := by
  rcases short_or_threshold hk es with hs | ⟨t, ht⟩
  · rw [retained_all hs.le, Nat.min_eq_right hs.le, lowest_highest]
  · have hreach : (reaching t es).length ≤ es.length := List.length_filter_le _ _
    obtain ⟨least, hleast, hcons⟩ := retained_cons hk ht
    rw [Nat.min_eq_left (ht.reaching.trans hreach), (threshold_iff hk es).mpr ht, hcons,
      List.head?_cons, Option.map_some, hleast]

theorem retained_perm (hk : 0 < k) (es : List (Scored α)) :
    if es.length ≤ k then (retained k es).Perm es
    else ∃ t, kthHighest k (es.map Scored.score) = some t ∧
      (retained k es).Perm (latest k t es ++ above t es) := by
  have hperm : (retained k es).Perm (kept k es) := sort_by_perm _ _
  rw [kept] at hperm
  split
  · rename_i hlen
    rwa [if_pos hlen] at hperm
  · rename_i hlen
    rw [if_neg hlen] at hperm
    cases hs : kthHighest k (es.map Scored.score) with
    | none =>
      have hshort := (kth_none_iff hk _).mp hs
      rw [List.length_map] at hshort
      omega
    | some t =>
      rw [hs] at hperm
      exact ⟨t, rfl, hperm⟩

/-- An entry is let in if there is room, or if it is above the least score that is kept. -/
theorem offer_admits (b : Leaderboard α) (e : Scored α) :
    (b.offer e).1 = (decide (b.size < b.capacity.val) || b.minScore?.any (· < e.score)) := by
  have hc := b.capacity.2
  unfold offer size minScore?
  split
  · simp [*]
  · rename_i hfull
    rw [decide_eq_false hfull, Bool.false_or]
    cases he : b.entries with
    | nil =>
      rw [he] at hfull
      exact absurd hc hfull
    | cons least r =>
      rw [List.head?_cons, Option.map_some, Option.any_some]
      dsimp only
      split
      · exact (decide_eq_true ‹_›).symm
      · exact (decide_eq_false ‹_›).symm

theorem fill_least (capacity : Capacity) (es : List (Scored α)) :
    (fill capacity es).minScore? =
      kthHighest (min capacity.val es.length) (es.map Scored.score) := by
  rw [minScore?, fill_entries, retained_least capacity.2]

theorem fill_size (capacity : Capacity) (es : List (Scored α)) :
    (fill capacity es).size = min capacity.val es.length := by
  rw [size, fill_entries, retained_length capacity.2]

/-- As long as there is room the threshold does not matter. -/
theorem fill_admits (capacity : Capacity) (es : List (Scored α)) (e : Scored α) :
    ((fill capacity es).offer e).1 = (decide (es.length < capacity.val) ||
      (kthHighest capacity.val (es.map Scored.score)).any (· < e.score)) := by
  have hc := capacity.2
  rw [offer_admits, fill_size, fill_least, fill_capacity]
  by_cases hroom : es.length < capacity.val
  · have hmin : min capacity.val es.length < capacity.val := by omega
    rw [decide_eq_true hroom, decide_eq_true hmin, Bool.true_or, Bool.true_or]
  · have hmin : min capacity.val es.length = capacity.val := by omega
    have hfull : ¬min capacity.val es.length < capacity.val := by omega
    rw [decide_eq_false hroom, decide_eq_false hfull, hmin]

theorem least_none_iff (hk : 0 < k) (es : List (Scored α)) :
    kthHighest (min k es.length) (es.map Scored.score) = none ↔ es = [] := by
  rw [← retained_least hk, Option.map_eq_none_iff, List.head?_eq_none_iff,
    ← List.length_eq_zero_iff, retained_length hk, ← List.length_eq_zero_iff]
  omega

theorem least_le (hk : 0 < k) {es : List (Scored α)} {e : Scored α} (he : e ∈ retained k es)
    {t : Int} (ht : t ∈ kthHighest (min k es.length) (es.map Scored.score)) : t ≤ e.score := by
  have hasc : Ascends Scored.score (retained k es) := sort_by_ascends _ _
  rw [← retained_least hk] at ht
  cases hr : retained k es with
  | nil =>
    rw [hr] at he
    cases he
  | cons least r =>
    rw [hr] at he ht hasc
    cases ht
    rcases List.mem_cons.mp he with rfl | he
    · exact le_rfl
    · exact (List.pairwise_cons.mp hasc).1 e he

end Scores

/-- After any calls a board is that of its entries alone. It holds what the policy keeps of them, by
ascending score and in order of arrival among equals, and answers accordingly. -/
theorem retention_of_calls (capacity : Capacity) (calls : List (Move α)) :
    let k := capacity.val
    let es := puts calls
    let scores := es.map Scored.score
    let b := (empty capacity).after calls
    let held := b.entries
    b = fill capacity es ∧
    held.length = min k es.length ∧
    (if es.length ≤ k then held.Perm es
      else ∃ t, kthHighest k scores = some t ∧
        held.Perm ((tied k t es).rtake (k - (above t es).length) ++ above t es)) ∧
    Ascends Scored.score held ∧
    (∀ n, (held.filter (·.score = n)).Sublist (es.filter (·.score = n))) ∧
    (b.respond .values).1 = .values (held.map Scored.item) ∧
    (b.respond .size).1 = .size held.length ∧
    (b.respond .least).1 = .least (kthHighest (min k es.length) scores) ∧
    (kthHighest (min k es.length) scores = none ↔ es = []) ∧
    (∀ e ∈ held, ∀ t ∈ kthHighest (min k es.length) scores, t ≤ e.score) ∧
    ∀ e, (b.respond (.put e)).1 =
      .admitted (es.length < k || (kthHighest k scores).any (· < e.score)) := by
  intro k es scores b held
  have hb : b = fill capacity es := after_fill capacity calls
  have hheld : held = retained k es := by rw [← fill_entries, ← hb]
  refine ⟨hb, ?_, ?_, ?_, ?_, rfl, rfl, ?_, least_none_iff capacity.2 es, ?_, ?_⟩
  · rw [hheld, retained_length capacity.2]
  · rw [hheld]
    exact retained_perm capacity.2 es
  · rw [hheld]
    exact sort_by_ascends _ _
  · rw [hheld]
    exact retained_arrival capacity.2 es
  · rw [respond, hb, fill_least]
  · rw [hheld]
    exact fun e he t ht => least_le capacity.2 he ht
  · intro e
    rw [respond, hb, fill_admits]

/-- A tie that comes late is not let in, since the two before it fill the board. -/
theorem retention_of_late_tie :
    let capacity : Capacity := ⟨2, by decide⟩
    let calls : List (Move String) := [.put ⟨1, "a"⟩, .values, .put ⟨2, "b"⟩, .put ⟨2, "c"⟩,
      .least, .put ⟨2, "d"⟩]
    let b := (empty capacity).after calls
    b.entries.length = 2 ∧ (∀ e ∈ b.entries, 2 ≤ e.score) ∧
    (b.respond .values).1 = .values ["b", "c"] ∧ (b.respond .least).1 = .least (some 2) ∧
    (b.respond (.put ⟨2, "e"⟩)).1 = .admitted false := by
  intro capacity calls b
  have hleast : kthHighest 2 ((puts calls).map Scored.score) = some 2 := by
    have hasc : ((puts calls).map Scored.score).Pairwise (· ≤ ·) := by decide
    rw [kthHighest, sort_by_of_ascends id hasc]
    rfl
  obtain ⟨-, hlength, -, -, -, hvalues, -, hasked, -, habove, hput⟩ :=
    retention_of_calls capacity calls
  refine ⟨hlength, fun e he => habove e he 2 hleast, hvalues, hasked.trans ?_, ?_⟩
  · exact congrArg Answer.least hleast
  · rw [hput, hleast]
    rfl

end Leaderboard

end QueryTelemetry
