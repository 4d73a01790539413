import Mathlib.Data.List.DropRight
import QueryTelemetry.Leaderboard
import QueryTelemetry.Proofs.Sorting

/-!
# The highest of a stream

The threshold of a stream is its `k`-th highest score. Every entry above it is kept. Of the
entries tied at it the latest are kept that there is room for, but only of those among the first
`k` entries that reach it: whoever comes later finds no room, and earlier ones give way first.
-/

set_option autoImplicit false

namespace QueryTelemetry

section Kth

def kthHighest (k : Nat) (scores : List Int) : Option Int := (sortBy id scores).reverse[k - 1]?

theorem kth_none_iff {k : Nat} (hk : 0 < k) (scores : List Int) :
    kthHighest k scores = none ↔ scores.length < k := by
  rw [kthHighest, List.getElem?_eq_none_iff, List.length_reverse,
    (sort_by_perm id scores).length_eq]
  omega

theorem descending_get_iff {d : List Int} (h : d.Pairwise (· ≥ ·)) (k : Nat) (t : Int) :
    d[k]? = some t ↔ (d.filter (t < ·)).length ≤ k ∧ k < (d.filter (t ≤ ·)).length := by
  induction d generalizing k with
  | nil => simp
  | cons x d ih =>
    obtain ⟨hx, hd⟩ := List.pairwise_cons.mp h
    have hnone (hxt : x ≤ t) : d.filter (t < ·) = [] := by
      rw [List.filter_eq_nil_iff]
      intro y hy
      have hyx := hx y hy
      simp only [decide_eq_true_eq]
      omega
    have hless (hxt : x < t) : d.filter (t ≤ ·) = [] := by
      rw [List.filter_eq_nil_iff]
      intro y hy
      have hyx := hx y hy
      simp only [decide_eq_true_eq]
      omega
    rcases lt_trichotomy x t with hxt | hxt | hxt
    · have hge : ¬t ≤ x := by omega
      have hgt : ¬t < x := by omega
      have hi := ih hd (k - 1)
      simp only [hnone hxt.le, hless hxt] at hi
      cases k with
      | zero => simp [hge, hgt, hless hxt]; omega
      | succ k => simpa [hge, hgt, hless hxt, hnone hxt.le] using hi
    · subst hxt
      cases k with
      | zero => simp [hnone le_rfl]
      | succ k => simp [ih hd, hnone le_rfl]
    · have hge : t ≤ x := by omega
      cases k with
      | zero => simp [hxt]; omega
      | succ k => simp [ih hd, hxt, hge]

end Kth

namespace Leaderboard
variable {α : Type} {k : Nat} {t : Int}

def ranked (es : List (Scored α)) : List (Scored α) := sortBy Scored.score es

def above (t : Int) (es : List (Scored α)) : List (Scored α) := es.filter (t < ·.score)

def reaching (t : Int) (es : List (Scored α)) : List (Scored α) := es.filter (t ≤ ·.score)

def tied (k : Nat) (t : Int) (es : List (Scored α)) : List (Scored α) :=
  ((reaching t es).take k).filter (·.score = t)

def latest (k : Nat) (t : Int) (es : List (Scored α)) : List (Scored α) :=
  (tied k t es).rtake (k - (above t es).length)

def kept (k : Nat) (es : List (Scored α)) : List (Scored α) :=
  if es.length ≤ k then es
  else
    match kthHighest k (es.map Scored.score) with
    | some t => latest k t es ++ above t es
    | none => []

def retained (k : Nat) (es : List (Scored α)) : List (Scored α) := ranked (kept k es)

/-- Fewer than `k` entries are above the score, and `k` reach it. -/
structure Threshold (k : Nat) (t : Int) (es : List (Scored α)) : Prop where
  above : (above t es).length < k
  reaching : k ≤ (reaching t es).length

theorem threshold_iff (hk : 0 < k) (es : List (Scored α)) :
    kthHighest k (es.map Scored.score) = some t ↔ Threshold k t es := by
  have hd : (sortBy id (es.map Scored.score)).reverse.Pairwise (· ≥ ·) :=
    List.pairwise_reverse.mpr (sort_by_ascends id _)
  have hp : (sortBy id (es.map Scored.score)).reverse.Perm (es.map Scored.score) :=
    (List.reverse_perm _).trans (sort_by_perm id _)
  rw [kthHighest, descending_get_iff hd, (hp.filter _).length_eq, (hp.filter _).length_eq,
    List.filter_map, List.filter_map, List.length_map, List.length_map]
  show (Leaderboard.above t es).length ≤ k - 1 ∧ k - 1 < (Leaderboard.reaching t es).length ↔ _
  constructor
  · rintro ⟨ha, hr⟩
    constructor
    · omega
    · omega
  · rintro ⟨ha, hr⟩
    constructor
    · omega
    · omega

theorem short_or_threshold (hk : 0 < k) (es : List (Scored α)) :
    es.length < k ∨ ∃ t, Threshold k t es := by
  cases hs : kthHighest k (es.map Scored.score) with
  | none =>
    left
    simpa using (kth_none_iff hk _).mp hs
  | some t => exact Or.inr ⟨t, (threshold_iff hk es).mp hs⟩

theorem above_append (t : Int) (es fs : List (Scored α)) :
    above t (es ++ fs) = above t es ++ above t fs := List.filter_append ..

theorem reaching_append (t : Int) (es fs : List (Scored α)) :
    reaching t (es ++ fs) = reaching t es ++ reaching t fs := List.filter_append ..

/-- A threshold stays until too many entries are above it. -/
theorem Threshold.append {es fs : List (Scored α)} (h : Threshold k t es)
    (ha : (Leaderboard.above t (es ++ fs)).length < k) : Threshold k t (es ++ fs) := by
  constructor
  · exact ha
  · rw [reaching_append, List.length_append]
    exact Nat.le_add_right_of_le h.reaching

/-- What comes after `k` entries have reached the score no longer matters to the tie. -/
theorem tied_append {es : List (Scored α)} (h : k ≤ (reaching t es).length)
    (fs : List (Scored α)) : tied k t (es ++ fs) = tied k t es := by
  rw [tied, tied, reaching_append, List.take_append_of_le_length h]

theorem above_of_reaching (t : Int) (es : List (Scored α)) :
    (reaching t es).filter (fun e => !decide (e.score = t)) = above t es := by
  rw [reaching, above, List.filter_filter]
  apply List.filter_congr
  intro e _
  by_cases ht : t < e.score
  · have hne : e.score ≠ t := by omega
    simp [ht, hne, ht.le]
  · by_cases he : e.score = t
    · simp [he]
    · have hle : ¬t ≤ e.score := by omega
      simp [ht, hle]

theorem reaching_length (t : Int) (es : List (Scored α)) : (reaching t es).length =
    ((reaching t es).filter (·.score = t)).length + (above t es).length := by
  rw [← above_of_reaching]
  exact List.length_eq_length_filter_add fun e : Scored α => decide (e.score = t)

theorem tied_enough {es : List (Scored α)} (h : Threshold k t es) :
    k - (above t es).length ≤ (tied k t es).length := by
  have htake : ((reaching t es).take k).length = k := by
    rw [List.length_take]
    exact Nat.min_eq_left h.reaching
  have hsplit : ((reaching t es).take k).length = (tied k t es).length +
      (((reaching t es).take k).filter fun e => !decide (e.score = t)).length :=
    List.length_eq_length_filter_add fun e : Scored α => decide (e.score = t)
  have hrest := ((List.take_sublist k (reaching t es)).filter
    fun e => !decide (e.score = t)).length_le
  rw [above_of_reaching] at hrest
  omega

theorem latest_length {es : List (Scored α)} (h : Threshold k t es) :
    (latest k t es).length = k - (above t es).length := by
  have hn := tied_enough h
  rw [latest, List.rtake, List.length_drop]
  omega

theorem mem_latest {es : List (Scored α)} {e : Scored α} (h : e ∈ latest k t es) : e.score = t := by
  have hm : e ∈ tied k t es := List.mem_of_mem_drop h
  simpa using (List.mem_filter.mp hm).2

theorem mem_above {es : List (Scored α)} {e : Scored α} (h : e ∈ above t es) : t < e.score := by
  simpa using (List.mem_filter.mp h).2

theorem ranked_congr {es fs : List (Scored α)}
    (h : ∀ n, es.filter (·.score = n) = fs.filter (·.score = n)) : ranked es = ranked fs :=
  sort_by_eq Scored.score (sort_by_ascends _ fs) fun n =>
    (h n).trans (sort_by_filter Scored.score fs n).symm

/-- Entries tied below all others come first, in their order. -/
theorem ranked_tied {ts es : List (Scored α)} (ht : ∀ e ∈ ts, e.score = t)
    (he : ∀ e ∈ es, t < e.score) : ranked (ts ++ es) = ts ++ ranked es := by
  apply sort_by_eq
  · apply List.pairwise_append.mpr
    refine ⟨?_, sort_by_ascends _ es, ?_⟩
    · apply List.pairwise_of_forall_mem_list
      intro a ha b hb
      rw [ht a ha, ht b hb]
    · intro a ha b hb
      rw [ht a ha]
      exact (he b ((sort_by_perm _ es).mem_iff.mp hb)).le
  · intro n
    rw [List.filter_append, List.filter_append]
    exact congrArg _ (sort_by_filter Scored.score es n).symm

/-- If just `k` entries reach the score, all of them are kept. -/
theorem ranked_reaching {es : List (Scored α)} (h : (reaching t es).length = k) :
    ranked (latest k t es ++ above t es) = ranked (reaching t es) := by
  have htied : tied k t es = (reaching t es).filter (·.score = t) := by
    rw [tied, List.take_of_length_le h.le]
  have hall : latest k t es = (reaching t es).filter (·.score = t) := by
    have hsplit := reaching_length t es
    have hzero : ((reaching t es).filter (·.score = t)).length - (k - (above t es).length) = 0 := by
      omega
    rw [latest, htied, List.rtake, hzero, List.drop_zero]
  rw [hall]
  apply ranked_congr
  intro n
  rw [← above_of_reaching, List.filter_append, List.filter_filter, List.filter_filter]
  by_cases hn : n = t
  · subst hn
    simp
  · have hnone : (reaching t es).filter (fun e => decide (e.score = n) && decide (e.score = t)) =
        [] := by
      rw [List.filter_eq_nil_iff]
      intro e _
      simp only [Bool.and_eq_true, decide_eq_true_eq]
      omega
    rw [hnone, List.nil_append]
    apply List.filter_congr
    intro e _
    by_cases he : e.score = n
    · simp [he, hn]
    · simp [he]

theorem retained_all {es : List (Scored α)} (h : es.length ≤ k) : retained k es = ranked es := by
  rw [retained, kept, if_pos h]

/-- With a threshold it does not matter whether the stream is longer than the board. -/
theorem retained_of_threshold {es : List (Scored α)} (hk : 0 < k) (h : Threshold k t es) :
    retained k es = ranked (latest k t es ++ above t es) := by
  by_cases hlen : es.length ≤ k
  · have hsub : (reaching t es).Sublist es := List.filter_sublist
    have hle := hsub.length_le
    have hr := h.reaching
    have hall : reaching t es = es := hsub.eq_of_length (by omega)
    rw [retained_all hlen, ranked_reaching (by omega), hall]
  · rw [retained, kept, if_neg hlen, (threshold_iff hk es).mpr h]

theorem kept_length (hk : 0 < k) (es : List (Scored α)) : (kept k es).length = min k es.length := by
  by_cases hlen : es.length ≤ k
  · rw [kept, if_pos hlen, Nat.min_eq_right hlen]
  · rcases short_or_threshold hk es with hs | ⟨t, ht⟩
    · omega
    · have ha := ht.above
      rw [kept, if_neg hlen, (threshold_iff hk es).mpr ht]
      simp only [List.length_append, latest_length ht]
      omega

/-- Once `k` entries are above a score, the least of theirs is the threshold. -/
theorem reaching_next {es : List (Scored α)} {s : Int} (ha : (above t es).length = k)
    (h : Threshold k s es) : reaching s es = above t es := by
  have hts : t < s := by
    by_contra hst
    have hsub : (above t es).Sublist (above s es) := by
      apply List.monotone_filter_right
      intro e he
      simp only [decide_eq_true_eq] at he ⊢
      omega
    have hle := hsub.length_le
    have hlt := h.above
    omega
  have hsub : (reaching s es).Sublist (above t es) := by
    apply List.monotone_filter_right
    intro e he
    simp only [decide_eq_true_eq] at he ⊢
    omega
  have hk := h.reaching
  exact hsub.eq_of_length_le (by omega)

/-- An entry that is not above the threshold changes nothing. -/
theorem retained_low {es : List (Scored α)} (hk : 0 < k) (h : Threshold k t es) {e : Scored α}
    (he : e.score ≤ t) : retained k (es ++ [e]) = retained k es := by
  have habove : above t (es ++ [e]) = above t es := by
    rw [above_append]
    simp [above, he]
  have hnew : Threshold k t (es ++ [e]) := h.append (habove ▸ h.above)
  rw [retained_of_threshold hk hnew, retained_of_threshold hk h, latest, latest, habove,
    tied_append h.reaching]

/-- An entry above the threshold leaves room for one tied entry less. -/
theorem retained_high {es : List (Scored α)} (hk : 0 < k) (h : Threshold k t es) {e : Scored α}
    (he : t < e.score) : retained k (es ++ [e]) =
      ranked ((tied k t es).rtake (k - (above t es).length - 1) ++ (above t es ++ [e])) := by
  have habove : above t (es ++ [e]) = above t es ++ [e] := by
    rw [above_append]
    simp [above, he]
  have hlen : (above t (es ++ [e])).length = (above t es).length + 1 := by
    rw [habove, List.length_append, List.length_singleton]
  by_cases hroom : (above t (es ++ [e])).length < k
  · rw [retained_of_threshold hk (h.append hroom), latest, tied_append h.reaching, hlen, habove,
      Nat.sub_sub]
  · -- no room is left for tied entries: the least score above them is the new threshold
    have hold := h.above
    have hfull : (above t (es ++ [e])).length = k := by omega
    have hnone : (tied k t es).rtake (k - (above t es).length - 1) = [] := by
      rw [Nat.sub_sub, ← hlen, hfull, Nat.sub_self, List.rtake_zero]
    rcases short_or_threshold hk (es ++ [e]) with hs | ⟨s, hs⟩
    · have hle : (above t (es ++ [e])).length ≤ (es ++ [e]).length := List.length_filter_le _ _
      omega
    · have hreach := reaching_next hfull hs
      rw [retained_of_threshold hk hs, ranked_reaching (hreach ▸ hfull), hreach, hnone,
        List.nil_append, habove]

/-- Entries of one score stand in their order of arrival. -/
theorem retained_arrival (hk : 0 < k) (es : List (Scored α)) (n : Int) :
    ((retained k es).filter (·.score = n)).Sublist (es.filter (·.score = n)) := by
  have hs : (retained k es).filter (·.score = n) = (kept k es).filter (·.score = n) :=
    sort_by_filter Scored.score (kept k es) n
  rw [hs]
  by_cases hlen : es.length ≤ k
  · rw [kept, if_pos hlen]
  · rcases short_or_threshold hk es with hs | ⟨t, ht⟩
    · omega
    · have hlatest : (latest k t es).Sublist es :=
        (List.drop_sublist _ _).trans
          (List.filter_sublist.trans ((List.take_sublist _ _).trans List.filter_sublist))
      have habove : (above t es).Sublist es := List.filter_sublist
      rw [kept, if_neg hlen, (threshold_iff hk es).mpr ht]
      simp only [List.filter_append]
      by_cases hn : n = t
      · have hnone : (above t es).filter (·.score = n) = [] := by
          rw [List.filter_eq_nil_iff]
          intro e he
          have hte := mem_above he
          simp only [decide_eq_true_eq]
          omega
        rw [hnone, List.append_nil]
        exact hlatest.filter _
      · have hnone : (latest k t es).filter (·.score = n) = [] := by
          rw [List.filter_eq_nil_iff]
          intro e he
          have hte := mem_latest he
          simp only [decide_eq_true_eq]
          omega
        rw [hnone, List.nil_append]
        exact habove.filter _

theorem mem_retained (hk : 0 < k) {es : List (Scored α)} {e : Scored α} (h : e ∈ retained k es) :
    e ∈ es := by
  have hm : e ∈ (retained k es).filter (·.score = e.score) :=
    List.mem_filter.mpr ⟨h, decide_eq_true rfl⟩
  exact (List.mem_filter.mp ((retained_arrival hk es e.score).mem hm)).1

section Order
variable {es fs : List (Scored α)}

theorem Threshold.perm (h : Threshold k t es) (hp : es.Perm fs) : Threshold k t fs := by
  have ha : (Leaderboard.above t es).Perm (Leaderboard.above t fs) := hp.filter _
  have hr : (Leaderboard.reaching t es).Perm (Leaderboard.reaching t fs) := hp.filter _
  exact ⟨ha.length_eq ▸ h.above, hr.length_eq ▸ h.reaching⟩

theorem latest_scores (h : Threshold k t es) : (latest k t es).map Scored.score =
    List.replicate (k - (above t es).length) t := by
  rw [List.eq_replicate_iff, List.length_map, latest_length h]
  refine ⟨rfl, ?_⟩
  intro n hn
  obtain ⟨e, he, rfl⟩ := List.mem_map.mp hn
  exact mem_latest he

theorem ranked_scores_perm (h : (es.map Scored.score).Perm (fs.map Scored.score)) :
    (ranked es).map Scored.score = (ranked fs).map Scored.score := by
  apply List.Perm.eq_of_pairwise' (r := (· ≤ ·))
  · exact List.pairwise_map.mpr (sort_by_ascends Scored.score es)
  · exact List.pairwise_map.mpr (sort_by_ascends Scored.score fs)
  · exact ((sort_by_perm _ es).map _).trans (h.trans ((sort_by_perm _ fs).map _).symm)

/-- Which of the tied entries are retained depends on the order of the stream, but no score
does. -/
theorem retained_scores_perm (hk : 0 < k) (h : es.Perm fs) :
    (retained k es).map Scored.score = (retained k fs).map Scored.score := by
  rcases short_or_threshold hk es with hs | ⟨t, ht⟩
  · rw [retained_all hs.le, retained_all (h.length_eq ▸ hs.le)]
    exact ranked_scores_perm (h.map _)
  · have habove : (above t es).Perm (above t fs) := h.filter _
    rw [retained_of_threshold hk ht, retained_of_threshold hk (ht.perm h)]
    apply ranked_scores_perm
    rw [List.map_append, List.map_append, latest_scores ht, latest_scores (ht.perm h),
      habove.length_eq]
    exact (habove.map _).append_left _

/-- Without ties just `k` entries reach the threshold. -/
theorem reaching_distinct (h : Threshold k t es) (hd : (es.map Scored.score).Nodup) :
    (reaching t es).length = k := by
  have hone : ((reaching t es).filter (·.score = t)).length ≤ 1 :=
    filter_length_distinct Scored.score (hd.sublist (List.filter_sublist.map _)) t
  have hsplit := reaching_length t es
  have ha := h.above
  have hr := h.reaching
  omega

theorem retained_distinct (hk : 0 < k) (h : es.Perm fs) (hd : (es.map Scored.score).Nodup) :
    retained k es = retained k fs := by
  rcases short_or_threshold hk es with hs | ⟨t, ht⟩
  · rw [retained_all hs.le, retained_all (h.length_eq ▸ hs.le)]
    exact sort_by_perm_distinct Scored.score h hd
  · have hd' : (fs.map Scored.score).Nodup := (h.map _).nodup_iff.mp hd
    rw [retained_of_threshold hk ht, retained_of_threshold hk (ht.perm h),
      ranked_reaching (reaching_distinct ht hd), ranked_reaching (reaching_distinct (ht.perm h) hd')]
    apply sort_by_perm_distinct
    · exact h.filter _
    · exact hd.sublist (List.filter_sublist.map _)

end Order

end Leaderboard

end QueryTelemetry
