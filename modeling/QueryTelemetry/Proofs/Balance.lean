import Mathlib.Algebra.GroupWithZero.Nat
import Mathlib.Algebra.Order.BigOperators.Group.List
import Mathlib.Algebra.Order.Group.Int
import Mathlib.Data.List.DropRight
import QueryTelemetry.Proofs.Rollup
import QueryTelemetry.Proofs.Slowest

/-!
# Tables and leaderboards in balance

A completion goes into the table, which forgets nothing, and into the leaderboard of its kind,
which keeps only the slowest. After any session the two agree: whatever the board holds is
accounted for in the table, and the board is as full as the counts of the table and its capacity
say. While a board has room the two even add up, but for the milliseconds that are lost by rounding
each duration down by itself.
-/

set_option autoImplicit false

namespace QueryTelemetry
open Leaderboard

/-- Rounding down item by item loses less than one for each item but one. -/
theorem floor_sum_bounds (ds : List Int) :
    (ds.map (· / 1000000)).sum ≤ ds.sum / 1000000 ∧
      (ds ≠ [] → ds.sum / 1000000 + 1 ≤ (ds.map (· / 1000000)).sum + ds.length) := by
  induction ds with
  | nil => simp
  | cons d ds ih =>
    obtain ⟨hlow, hhigh⟩ := ih
    simp only [List.map_cons, List.sum_cons, List.length_cons, Nat.cast_add, Nat.cast_one]
    constructor
    · omega
    · intro _
      by_cases hn : ds = []
      · subst hn
        simp
      · have htail := hhigh hn
        omega

structure Entry.Sound (e : Entry) : Prop where
  failures : e.totals.failures ≤ e.totals.count
  some : 1 ≤ e.identities.toList.length
  distinct : e.identities.toList.Nodup
  few : e.identities.toList.length ≤ e.totals.count

structure Aggregator.Balanced (a : Aggregator) : Prop where
  texts : ∀ kind, ((a.table.ofKind kind).map Prod.fst).Nodup
  sound : ∀ kind, ∀ p ∈ a.table.ofKind kind, p.2.Sound
  board : ∀ kind, (a.slowest.get? kind).isSome ↔ a.table.ofKind kind ≠ []
  size : ∀ kind b, a.slowest.get? kind = some b →
    b.size = min a.capacity.val ((a.table.ofKind kind).map (·.2.totals.count)).sum
  held : ∀ kind b, a.slowest.get? kind = some b → ∀ c ∈ b.items,
    ∃ e, (c.text, e) ∈ a.table.ofKind kind ∧ c.identity ∈ e.identities.toList

theorem Entry.sound_of_executions {cs : List Completion} (h : cs ≠ []) :
    (ofExecutions cs).Sound := by
  have hproper := proper_of_executions cs
  have hdistinct := IdentitySet.to_list_nodup hproper
  have hmem := mem_of_executions cs
  have htotals := totals_of_executions cs
  refine ⟨?_, ?_, hdistinct, ?_⟩
  · rw [htotals]
    exact List.countP_le_length
  · obtain ⟨c, hc⟩ := List.exists_mem_of_ne_nil cs h
    exact List.length_pos_of_mem ((hmem c.identity).mpr (List.mem_map_of_mem hc))
  · have hsub : (ofExecutions cs).identities.toList.Subperm (cs.map (·.identity)) :=
      List.subperm_of_subset hdistinct fun i hi => (hmem i).mp hi
    have hlen := hsub.length_le
    rw [List.length_map] at hlen
    rw [htotals]
    exact hlen

namespace History
variable (h : History) (kind : QueryKind)

theorem completed_by_text :
    ((h.texts kind).flatMap (h.executions kind)).Perm (h.completed kind) := by
  have hp := filter_regroup (fun _ : Completion => True) Completion.text (h.completed kind)
    (first_seen_nodup ((h.completed kind).map (·.text)))
  have hall : ∀ c ∈ h.completed kind, c.text ∈ h.texts kind := by
    intro c hc
    exact List.mem_eraseDups.mpr (List.mem_map_of_mem hc)
  simp only [true_and, List.mem_singleton] at hp
  refine hp.trans (List.Perm.of_eq ?_)
  exact List.filter_eq_self.mpr fun c hc => decide_eq_true (hall c hc)

theorem texts_nil_iff : h.texts kind = [] ↔ h.completed kind = [] := by
  constructor
  · intro hn
    have hp := h.completed_by_text kind
    rw [hn] at hp
    exact List.nil_perm.mp hp
  · intro hn
    rw [texts, hn]
    rfl

variable {h kind}

theorem mem_executions {c : Completion} (hc : c ∈ h.completed kind) :
    c ∈ h.executions kind c.text :=
  List.mem_filter.mpr ⟨hc, decide_eq_true rfl⟩

theorem executions_ne_nil {t : String} (ht : t ∈ h.texts kind) : h.executions kind t ≠ [] := by
  obtain ⟨c, hc, rfl⟩ := List.mem_map.mp (List.mem_eraseDups.mp ht)
  exact List.ne_nil_of_mem (mem_executions hc)

theorem mem_texts {c : Completion} (hc : c ∈ h.completed kind) : c.text ∈ h.texts kind :=
  List.mem_eraseDups.mpr (List.mem_map_of_mem hc)

end History

section AfterRun
variable (s : Settings) (h : History) (kind : QueryKind)

theorem counts_after_run :
    ((((Aggregator.start s).run h).table.ofKind kind).map (·.2.totals.count)).sum =
      (h.completed kind).length := by
  rw [entries_after_run, List.map_map, ← (h.completed_by_text kind).length_eq, List.length_flatMap]
  congr 1
  apply List.map_congr_left
  intro t _
  exact congrArg Totals.count (Entry.totals_of_executions (h.executions kind t))

theorem board_after_run {b : Leaderboard Completion}
    (hb : ((Aggregator.start s).run h).slowest.get? kind = some b) :
    b.entries = retained s.topSlowSize.val (h.offers kind) := by
  rw [slowest_after_run] at hb
  split at hb
  · cases hb
  · rw [← Option.some.inj hb]
    exact fill_entries _ _

theorem offer_completed {e : Scored Completion} (he : e ∈ h.offers kind) :
    e.item ∈ h.completed kind := by
  obtain ⟨c, hc, rfl⟩ := List.mem_map.mp he
  exact hc

theorem balanced_after_run : ((Aggregator.start s).run h).Balanced where
  texts kind := by
    rw [entries_after_run, List.map_map]
    exact (List.map_id (h.texts kind)).symm ▸ first_seen_nodup _
  sound kind p hp := by
    rw [entries_after_run] at hp
    obtain ⟨t, ht, rfl⟩ := List.mem_map.mp hp
    exact Entry.sound_of_executions (History.executions_ne_nil ht)
  board kind := by
    rw [slowest_after_run, entries_after_run, ne_eq, List.map_eq_nil_iff, h.texts_nil_iff]
    split <;> simp [*]
  size kind b hb := by
    rw [counts_after_run, Leaderboard.size, board_after_run s h kind hb, Aggregator.run_capacity,
      retained, ranked, (sort_by_perm _ _).length_eq, kept_length s.topSlowSize.2, History.offers,
      List.length_map]
    rfl
  held kind b hb c hc := by
    obtain ⟨e, he, rfl⟩ := List.mem_map.mp hc
    rw [board_after_run s h kind hb] at he
    have hdone := offer_completed h kind (mem_retained s.topSlowSize.2 he)
    refine ⟨Entry.ofExecutions (h.executions kind e.item.text), ?_, ?_⟩
    · rw [entries_after_run]
      exact List.mem_map_of_mem (History.mem_texts hdone)
    · rw [Entry.mem_of_executions]
      exact List.mem_map_of_mem (History.mem_executions hdone)

theorem table_length_after_run : ((Aggregator.start s).run h).table.length =
    (h.completions.map fun c => (c.kind, c.text)).eraseDups.length := by
  have hkeys := congrArg List.length (table_keys_after_run s h)
  rwa [Assoc.keys, List.length_map] at hkeys

end AfterRun

section Shown
variable {h : History} {byKind : Bool} {kind : QueryKind} {c : Completion}

theorem reads_within (hc : c ∈ h.completed kind) :
    (h.readsOf kind [c.identity]).Sublist (h.readsOf kind (h.identities kind c.text)) := by
  apply List.monotone_filter_right
  intro r hr
  have hm : c.identity ∈ h.identities kind c.text :=
    List.mem_map_of_mem (History.mem_executions hc)
  simp only [List.mem_singleton, decide_eq_true_eq] at hr ⊢
  exact ⟨hr.1, hr.2 ▸ hm⟩

/-- Numbers that are nowhere negative sum up to no less for more reports. -/
theorem read_sum_within (f : ReadsReport → Int) (hc : c ∈ h.completed kind)
    (hn : ∀ r ∈ h.reads, r.kind = kind → 0 ≤ f r) :
    ((h.readsOf kind [c.identity]).map f).sum ≤
      ((h.readsOf kind (h.identities kind c.text)).map f).sum := by
  apply ((reads_within hc).map f).sum_le_sum
  intro n hm
  obtain ⟨r, hr, rfl⟩ := List.mem_map.mp hm
  obtain ⟨hr, hk⟩ := List.mem_filter.mp hr
  exact hn r hr (of_decide_eq_true hk).1

theorem duration_within (hc : c ∈ h.completed kind) (hn : ∀ d ∈ h.completed kind, 0 ≤ d.duration) :
    c.duration / 1000000 ≤ ((h.executions kind c.text).map (·.duration)).sum / 1000000 := by
  apply Int.ediv_le_ediv (by decide)
  apply List.single_le_sum
  · intro n hm
    obtain ⟨d, hd, rfl⟩ := List.mem_map.mp hm
    exact hn d (List.mem_filter.mp hd).1
  · exact List.mem_map_of_mem (History.mem_executions hc)

/-- A board with room shows every execution of a text. -/
theorem shown_executions {k : Nat} (hk : (h.completed kind).length ≤ k) (t : String) :
    (((retained k (h.offers kind)).map fun e => h.slowEntry byKind kind e.item).filter
      (·.text = t)).Perm ((h.executions kind t).map (h.slowEntry byKind kind)) := by
  have hlen : (h.offers kind).length ≤ k := by rwa [History.offers, List.length_map]
  have hp : ((retained k (h.offers kind)).map fun e => h.slowEntry byKind kind e.item).Perm
      ((h.completed kind).map (h.slowEntry byKind kind)) := by
    rw [retained_all hlen]
    refine ((sort_by_perm Scored.score (h.offers kind)).map _).trans ?_
    rw [History.offers, List.map_map]
    exact List.Perm.refl _
  refine (hp.filter _).trans ?_
  rw [List.filter_map]
  exact List.Perm.refl _

/-- A text that completed is in the rollup with no less than one of its executions shows. -/
theorem slow_within_rollup (s : Settings) (calls : List Call) (kind : QueryKind) :
    let h := history calls
    let a := ((Session.start s).run calls).aggregator
    ∀ x ∈ a.topSlow kind, ∃ e, (x.text, e) ∈ a.rollup kind ∧
      ((∀ r ∈ h.reads, r.kind = kind → 0 ≤ r.logical) → x.logicalReads ≤ e.logicalReads) ∧
      ((∀ r ∈ h.reads, r.kind = kind → 0 ≤ r.physical) → x.physicalReads ≤ e.physicalReads) ∧
      ((∀ c ∈ h.completed kind, 0 ≤ c.duration) → x.duration ≤ e.duration) := by
  intro h a x hx
  have hrollup : a.rollup kind = _ := rollup_of_session s calls kind
  have hslow : a.topSlow kind = _ := top_slow_of_session s calls kind
  rw [hslow] at hx
  obtain ⟨e, he, rfl⟩ := List.mem_map.mp hx
  have hdone : e.item ∈ h.completed kind :=
    offer_completed h kind (mem_retained s.topSlowSize.2 he)
  refine ⟨h.rollupEntry s.rowsByKind kind e.item.text, ?_, ?_, ?_, ?_⟩
  · rw [hrollup]
    exact List.mem_map_of_mem (History.mem_texts hdone)
  · exact read_sum_within (·.logical) hdone
  · exact read_sum_within (·.physical) hdone
  · exact duration_within hdone

/-- A board with room for every completion shows as many of a text as the rollup counts, and loses
less than a millisecond for each. -/
theorem slow_adds_up (s : Settings) (calls : List Call) (kind : QueryKind) :
    let h := history calls
    let a := ((Session.start s).run calls).aggregator
    (h.completed kind).length ≤ s.topSlowSize.val → ∀ p ∈ a.rollup kind,
      let slow := (a.topSlow kind).filter (·.text = p.1)
      slow.length = p.2.count ∧ slow.countP (!·.success) = p.2.failures ∧
      0 ≤ p.2.duration - (slow.map (·.duration)).sum ∧
      p.2.duration - (slow.map (·.duration)).sum ≤ p.2.count - 1 := by
  intro h a hk p hp slow
  have hrollup : a.rollup kind = _ := rollup_of_session s calls kind
  have hslow : a.topSlow kind = _ := top_slow_of_session s calls kind
  rw [hrollup] at hp
  obtain ⟨t, ht, rfl⟩ := List.mem_map.mp hp
  have hall : slow.Perm ((h.executions kind t).map (h.slowEntry s.rowsByKind kind)) := by
    simp only [slow, hslow]
    exact shown_executions hk t
  have hsum : (slow.map (·.duration)).sum =
      (((h.executions kind t).map (·.duration)).map (· / 1000000)).sum := by
    rw [(hall.map _).sum_eq, List.map_map, List.map_map]
    rfl
  obtain ⟨hlow, hhigh⟩ := floor_sum_bounds ((h.executions kind t).map (·.duration))
  have hgap := hhigh (by simpa using History.executions_ne_nil ht)
  rw [← hsum] at hlow hgap
  rw [List.length_map] at hgap
  have hshown : (h.rollupEntry s.rowsByKind kind t).duration =
      ((h.executions kind t).map (·.duration)).sum / 1000000 := rfl
  have hcount : (h.rollupEntry s.rowsByKind kind t).count = (h.executions kind t).length := rfl
  refine ⟨?_, ?_, ?_, ?_⟩
  · rw [hall.length_eq, List.length_map]
    rfl
  · rw [hall.countP_eq, List.countP_map]
    rfl
  · rw [hshown]
    omega
  · rw [hshown, hcount]
    omega

end Shown

/-- After any session the boards agree with the table, which has one entry for each kind and text
that completed. Each slow query has its text in the rollup, with reads and a duration within those
shown there unless negative ones came. If no completion had to give way, the slow queries of a text
are as many as its count and its failures say, and their durations add up to that of the text but
for less than a millisecond each. -/
theorem sections_in_balance (s : Settings) (calls : List Call) :
    let h := history calls
    let a := ((Session.start s).run calls).aggregator
    a.Balanced ∧ a.capacity = s.topSlowSize ∧
    a.table.length = (h.completions.map fun c => (c.kind, c.text)).eraseDups.length ∧
    ∀ kind,
      (∀ x ∈ a.topSlow kind, ∃ e, (x.text, e) ∈ a.rollup kind ∧
        ((∀ r ∈ h.reads, r.kind = kind → 0 ≤ r.logical) → x.logicalReads ≤ e.logicalReads) ∧
        ((∀ r ∈ h.reads, r.kind = kind → 0 ≤ r.physical) → x.physicalReads ≤ e.physicalReads) ∧
        ((∀ c ∈ h.completed kind, 0 ≤ c.duration) → x.duration ≤ e.duration)) ∧
      ((h.completed kind).length ≤ s.topSlowSize.val → ∀ p ∈ a.rollup kind,
        let slow := (a.topSlow kind).filter (·.text = p.1)
        slow.length = p.2.count ∧ slow.countP (!·.success) = p.2.failures ∧
        0 ≤ p.2.duration - (slow.map (·.duration)).sum ∧
        p.2.duration - (slow.map (·.duration)).sum ≤ p.2.count - 1) := by
  intro h a
  have ha : a = (Aggregator.start s).run h := Session.run_aggregator _ calls
  refine ⟨ha ▸ balanced_after_run s h, ha ▸ Aggregator.run_capacity _ h,
    ha ▸ table_length_after_run s h, ?_⟩
  intro kind
  exact ⟨slow_within_rollup s calls kind, slow_adds_up s calls kind⟩

/-- A text that ran twice, once in vain, on a board with room for it. -/
theorem balance_of_repeated_text :
    let s := { Settings.default with topSlowSize := ⟨3, by decide⟩ }
    let first : Completion := ⟨.scan, "q", .named "n", 1, 0, 1500000, true⟩
    let again : Completion := ⟨.scan, "q", .numbered 2, 1, 0, 2600000, false⟩
    let read : ReadsReport := ⟨.named "m", .scan, .named "n", 1, 4, 2⟩
    let calls : List Call := [.deliver (.reads read), .deliver (.completion first), .results,
      .deliver (.completion again)]
    let h := history calls
    let a := ((Session.start s).run calls).aggregator
    (∀ r ∈ h.reads, r.kind = .scan → 0 ≤ r.logical) ∧
    (∀ r ∈ h.reads, r.kind = .scan → 0 ≤ r.physical) ∧
    (∀ c ∈ h.completed .scan, 0 ≤ c.duration) ∧
    (h.completed .scan).length ≤ 3 ∧
    (∀ x ∈ a.topSlow .scan, ∃ e, (x.text, e) ∈ a.rollup .scan ∧ x.logicalReads ≤ e.logicalReads ∧
      x.physicalReads ≤ e.physicalReads ∧ x.duration ≤ e.duration) ∧
    ∀ p ∈ a.rollup .scan, ((a.topSlow .scan).filter (·.text = p.1)).length = p.2.count := by
  intro s first again read calls h a
  have hlogical : ∀ r ∈ h.reads, r.kind = .scan → 0 ≤ r.logical := by decide
  have hphysical : ∀ r ∈ h.reads, r.kind = .scan → 0 ≤ r.physical := by decide
  have hduration : ∀ c ∈ h.completed .scan, 0 ≤ c.duration := by decide
  have hroom : (h.completed .scan).length ≤ 3 := by decide
  obtain ⟨hwithin, hcounts⟩ := (sections_in_balance s calls).2.2.2 .scan
  refine ⟨hlogical, hphysical, hduration, hroom, ?_, ?_⟩
  · intro x hx
    obtain ⟨e, he, hl, hp, hd⟩ := hwithin x hx
    exact ⟨e, he, hl hlogical, hp hphysical, hd hduration⟩
  · exact fun p hp => (hcounts hroom p hp).1

end QueryTelemetry
