import QueryTelemetry.Proofs.Threshold

/-!
# What a leaderboard holds

A board that is offered a stream of entries holds what the stream keeps, by ascending score and in
order of arrival among equals. Each offer carries this over to the longer stream.
-/

set_option autoImplicit false

namespace QueryTelemetry

namespace Leaderboard
variable {α : Type} {k : Nat} {t : Int}

theorem place_ascends {es : List (Scored α)} (e : Scored α) (h : Ascends Scored.score es) :
    Ascends Scored.score (place e es) := by
  induction es with
  | nil => exact List.pairwise_singleton _ _
  | cons x r ih =>
    obtain ⟨hx, hr⟩ := List.pairwise_cons.mp h
    unfold place
    split
    · rename_i hlt
      apply List.pairwise_cons.mpr
      constructor
      · intro y hy
        rcases List.mem_cons.mp hy with rfl | hy
        · exact hlt.le
        · exact hlt.le.trans (hx y hy)
      · exact h
    · rename_i hge
      apply List.pairwise_cons.mpr
      constructor
      · intro y hy
        rcases (place_mem e y r).mp hy with rfl | hy
        · exact not_lt.mp hge
        · exact hx y hy
      · exact ih hr

theorem place_filter {es : List (Scored α)} (e : Scored α) (h : Ascends Scored.score es) (n : Int) :
    (place e es).filter (·.score = n) = (es ++ [e]).filter (·.score = n) := by
  induction es with
  | nil => rfl
  | cons x r ih =>
    obtain ⟨hx, hr⟩ := List.pairwise_cons.mp h
    unfold place
    split
    · rename_i hlt
      by_cases hn : e.score = n
      · have hnone : (x :: r).filter (·.score = n) = [] := by
          rw [List.filter_eq_nil_iff]
          intro y hy
          have hxy : x.score ≤ y.score := by
            rcases List.mem_cons.mp hy with rfl | hy
            · exact le_rfl
            · exact hx y hy
          simp only [decide_eq_true_eq]
          omega
        rw [List.filter_cons, List.filter_append, hnone]
        simp [hn]
      · rw [List.filter_cons, List.filter_append]
        simp [hn]
    · rw [List.cons_append, List.filter_cons, List.filter_cons, ih hr]

theorem place_ranked (e : Scored α) (es : List (Scored α)) :
    place e (ranked es) = ranked (es ++ [e]) := by
  symm
  apply sort_by_eq
  · exact place_ascends e (sort_by_ascends _ es)
  · intro n
    have hs : (ranked es).filter (·.score = n) = es.filter (·.score = n) :=
      sort_by_filter Scored.score es n
    have hp : (place e (ranked es)).filter (·.score = n) =
        (ranked es ++ [e]).filter (·.score = n) := place_filter e (sort_by_ascends _ es) n
    rw [hp, List.filter_append, List.filter_append, hs]

/-- A full board starts with an entry tied at the threshold. -/
theorem retained_cons {es : List (Scored α)} (hk : 0 < k) (h : Threshold k t es) :
    ∃ least, least.score = t ∧ retained k es = least ::
      ranked ((tied k t es).rtake (k - (above t es).length - 1) ++ above t es) := by
  have hlen := latest_length h
  have ha := h.above
  cases hl : latest k t es with
  | nil =>
    rw [hl, List.length_nil] at hlen
    omega
  | cons least rest =>
    have hleast : least.score = t := mem_latest (hl ▸ List.mem_cons_self)
    have hrest : (tied k t es).rtake (k - (above t es).length - 1) = rest := by
      have htail := congrArg List.tail hl
      rw [latest, List.rtake, List.tail_drop, List.tail_cons] at htail
      have hn := tied_enough h
      rw [← htail, List.rtake]
      congr 1
      omega
    refine ⟨least, hleast, ?_⟩
    rw [retained_of_threshold hk h, hrest, hl]
    have htied (e : Scored α) (he : e ∈ least :: rest) : e.score = t := mem_latest (hl ▸ he)
    rw [ranked_tied htied fun e => mem_above,
      ranked_tied (fun e he => htied e (List.mem_cons_of_mem _ he)) fun e => mem_above]
    rfl

/-- One offer brings the board up to the longer stream. -/
theorem offer_retained (b : Leaderboard α) (e : Scored α) {es : List (Scored α)}
    (h : b.entries = retained b.capacity.val es) :
    (b.offer e).2.entries = retained b.capacity.val (es ++ [e]) := by
  have hk := b.capacity.2
  have hlen : b.entries.length = min b.capacity.val es.length := by
    rw [h, retained, ranked, (sort_by_perm _ _).length_eq, kept_length hk]
  rcases short_or_threshold hk es with hs | ⟨t, ht⟩
  · have hroom : b.entries.length < b.capacity.val := by omega
    have hnext : (es ++ [e]).length ≤ b.capacity.val := by
      rw [List.length_append, List.length_singleton]
      omega
    rw [offer, if_pos hroom, retained_all hnext, ← place_ranked, h, retained_all hs.le]
  · have hreach := ht.reaching
    have hle : (reaching t es).length ≤ es.length := List.length_filter_le _ _
    have hfull : ¬b.entries.length < b.capacity.val := by omega
    obtain ⟨least, hleast, hcons⟩ := retained_cons hk ht
    rw [offer, if_neg hfull, h.trans hcons]
    by_cases he : t < e.score
    · simp only [hleast, he, if_true]
      rw [retained_high hk ht he, place_ranked, List.append_assoc]
    · simp only [hleast, he, if_false]
      rw [h, retained_low hk ht (not_lt.mp he)]

def fill (capacity : Capacity) (es : List (Scored α)) : Leaderboard α :=
  es.foldl (fun b e => (b.offer e).2) (empty capacity)

theorem fill_concat (capacity : Capacity) (es : List (Scored α)) (e : Scored α) :
    fill capacity (es ++ [e]) = ((fill capacity es).offer e).2 := by
  rw [fill, List.foldl_append]
  rfl

theorem fill_capacity (capacity : Capacity) (es : List (Scored α)) :
    (fill capacity es).capacity = capacity := by
  induction es using List.reverseRecOn with
  | nil => rfl
  | append_singleton es e ih => rw [fill_concat, offer_capacity, ih]

theorem fill_entries (capacity : Capacity) (es : List (Scored α)) :
    (fill capacity es).entries = retained capacity.val es := by
  induction es using List.reverseRecOn with
  | nil => simp [fill, empty, retained, kept, ranked, sortBy]
  | append_singleton es e ih =>
    have hc := fill_capacity capacity es
    have hb : (fill capacity es).entries = retained (fill capacity es).capacity.val es := by
      rw [hc, ih]
    rw [fill_concat, offer_retained _ e hb, hc]

/-- The earlier of two tied entries gives way, and a third finds no room. -/
example : (fill ⟨2, by decide⟩ [⟨5, 'a'⟩, ⟨5, 'b'⟩, ⟨7, 'c'⟩, ⟨5, 'd'⟩]).items = ['b', 'c'] := by
  decide

end Leaderboard

end QueryTelemetry
