import Mathlib.Algebra.BigOperators.Group.List.Basic
import Mathlib.Algebra.Ring.Int.Defs
import QueryTelemetry.Proofs.Sorting
import QueryTelemetry.Report.Basic

/-!
# Tallies and their blocks

A map of counts tallies a list of increments if it has the keys of the list and under each key
the sum of its increments. Writing and merging keep this, in whatever order, and the block that
a report shows of a tally depends on the increments alone.
-/

set_option autoImplicit false

namespace QueryTelemetry

section Tallies
variable {κ : Type} [DecidableEq κ]

def bump (m : Assoc κ Int) (k : κ) (n : Int) : Assoc κ Int := m.update k fun old => old.getD 0 + n

def amount (xs : List (κ × Int)) (k : κ) : Int := ((xs.filter (·.1 = k)).map Prod.snd).sum

structure Tallies (m : Assoc κ Int) (xs : List (κ × Int)) : Prop where
  nodup : m.keys.Nodup
  mem : ∀ k, k ∈ m.keys ↔ k ∈ xs.map Prod.fst
  sum : ∀ k, (m.get? k).getD 0 = amount xs k

theorem amount_append (xs ys : List (κ × Int)) (k : κ) :
    amount (xs ++ ys) k = amount xs k + amount ys k := by
  simp [amount, List.filter_append]

theorem amount_perm {xs ys : List (κ × Int)} (h : xs.Perm ys) (k : κ) :
    amount xs k = amount ys k :=
  ((h.filter _).map _).sum_eq

theorem amount_unseen {xs : List (κ × Int)} {k : κ} (hk : k ∉ xs.map Prod.fst) :
    amount xs k = 0 := by
  rw [amount, filter_unseen hk]
  rfl

/-- Increments of keys that are new, each of them once, are listed behind what there is. -/
theorem fold_bump_new (ps m : Assoc κ Int) (h : Assoc.keys (m ++ ps) |>.Nodup) :
    ps.foldl (fun m b => bump m b.1 b.2) m = m ++ ps := by
  induction ps generalizing m with
  | nil => exact (List.append_nil m).symm
  | cons b ps ih =>
    have hsplit : m ++ b :: ps = (m ++ [b]) ++ ps := List.append_cons m b ps
    have hb : b.1 ∉ m.keys := by
      rw [Assoc.keys, List.map_append, List.map_cons, List.nodup_append'] at h
      exact fun hm => h.2.2 hm List.mem_cons_self
    have hone : bump m b.1 b.2 = m ++ [b] := by
      rw [bump, Assoc.update_new m hb, Option.getD_none, zero_add]
    rw [List.foldl_cons, hone, hsplit]
    exact ih _ (hsplit ▸ h)

namespace Tallies
variable {m p : Assoc κ Int} {xs ys : List (κ × Int)}

theorem nil : Tallies ([] : Assoc κ Int) [] :=
  ⟨List.nodup_nil, fun _ => by simp [Assoc.keys], fun _ => rfl⟩

theorem congr (h : Tallies m xs) (hk : ∀ k, k ∈ xs.map Prod.fst ↔ k ∈ ys.map Prod.fst)
    (hs : ∀ k, amount xs k = amount ys k) : Tallies m ys :=
  ⟨h.nodup, fun k => (h.mem k).trans (hk k), fun k => (h.sum k).trans (hs k)⟩

theorem perm (h : Tallies m xs) (hp : xs.Perm ys) : Tallies m ys :=
  h.congr (fun _ => (hp.map _).mem_iff) (amount_perm hp)

theorem bump (h : Tallies m xs) (k : κ) (n : Int) : Tallies (bump m k n) (xs ++ [(k, n)]) := by
  refine ⟨Assoc.keys_nodup_update h.nodup _ _, ?_, ?_⟩
  · intro j
    rw [QueryTelemetry.bump, Assoc.keys_update, List.map_append, List.mem_append, ← h.mem]
    by_cases hk : k ∈ m.keys
    · simp only [hk, if_true, List.map_cons, List.map_nil, List.mem_singleton]
      exact ⟨Or.inl, fun hj => hj.elim id fun e => e ▸ hk⟩
    · simp [hk]
  · intro j
    rw [QueryTelemetry.bump, Assoc.get_update, amount_append, ← h.sum]
    by_cases hj : j = k
    · subst hj; simp [amount]
    · simp [amount, hj, Ne.symm hj]

theorem writes (h : Tallies m xs) (ws : List (κ × Int)) :
    Tallies (ws.foldl (fun m w => QueryTelemetry.bump m w.1 w.2) m) (xs ++ ws) := by
  induction ws generalizing m xs with
  | nil => simpa using h
  | cons w ws ih => simpa using ih (h.bump w.1 w.2)

/-- Bindings of distinct keys are increments of the same keys and sums. -/
theorem bindings (h : p.keys.Nodup) : Tallies p p := by
  refine ⟨h, fun k => Iff.rfl, fun k => ?_⟩
  cases hg : p.get? k with
  | none =>
    rw [amount_unseen ((Assoc.get_none_iff p k).mp hg)]
    rfl
  | some v =>
    have hm := (Assoc.get_mem h).mp hg
    have hd : (p.filter (·.1 = k)).Perm [(k, v)] := by
      rw [List.perm_ext_iff_of_nodup (h.of_map.filter _) (List.nodup_singleton _)]
      rintro ⟨a, w⟩
      simp only [List.mem_filter, decide_eq_true_eq, List.mem_singleton, Prod.mk.injEq]
      constructor
      · rintro ⟨ha, rfl⟩
        have hw := (Assoc.get_mem h).mpr ha
        exact ⟨rfl, by simpa [hw] using hg⟩
      · rintro ⟨rfl, rfl⟩
        exact ⟨hm, rfl⟩
    simp [amount, (hd.map Prod.snd).sum_eq]

theorem merge (h : Tallies m xs) (hp : Tallies p ys) :
    Tallies (p.foldl (fun m q => QueryTelemetry.bump m q.1 q.2) m) (xs ++ ys) := by
  have hown := bindings hp.nodup
  apply (h.writes p).congr
  · intro k
    have hk := (hown.mem k).symm.trans (hp.mem k)
    simp only [List.map_append, List.mem_append, hk]
  · intro k
    rw [amount_append, amount_append, ← hown.sum, hp.sum]

theorem empty_iff (h : Tallies m xs) : m = [] ↔ xs = [] := by
  have hm : m = [] ↔ m.keys = [] := List.map_eq_nil_iff.symm
  have hx : xs = [] ↔ xs.map Prod.fst = [] := List.map_eq_nil_iff.symm
  rw [hm, hx, List.eq_nil_iff_forall_not_mem, List.eq_nil_iff_forall_not_mem]
  simp only [h.mem]

section Lookup
variable {ρ : Type} {rs : List ρ} {f : ρ → κ × Int}

/-- What was never written is looked up as nothing, which tallies no increments. -/
theorem lookup (h : Tallies m (rs.map f)) :
    Tallies ((if rs = [] then none else some m).getD []) (rs.map f) := by
  by_cases hr : rs = []
  · rw [if_pos hr, hr]
    exact nil
  · rw [if_neg hr]
    exact h

/-- So to show what was found, and to show what is not empty, is the same. -/
theorem lookup_shown {β : Type} (h : Tallies m (rs.map f)) (block : Assoc κ Int → β) :
    (if rs = [] then none else some m).map block =
      if m.isEmpty then none else some (block m) := by
  have he : m = [] ↔ rs = [] := h.empty_iff.trans List.map_eq_nil_iff
  by_cases hr : rs = []
  · simp [hr, he.mpr hr]
  · have hm : m ≠ [] := fun hm => hr (he.mp hm)
    simp [hr, hm]

end Lookup

theorem eq_map (h : Tallies m xs) : m = m.keys.map fun k => (k, amount xs k) := by
  apply Assoc.eq_map_keys h.nodup
  intro k hk
  rw [← h.sum]
  cases hg : m.get? k with
  | none => exact absurd hk ((Assoc.get_none_iff m k).mp hg)
  | some v => rfl

end Tallies

end Tallies

namespace RowCounts

theorem add_eq_bump (m : RowCounts) (action : String) (n : Int) :
    m.add action n = bump m action n :=
  rfl

theorem block_tally {m : RowCounts} {xs : List (String × Int)} (h : Tallies m xs) :
    m.block = (ascending (xs.map Prod.fst)).map fun a => (a, amount xs a) := by
  have hb : m.block = sortBy Prod.fst (m.keys.map fun a => (a, amount xs a)) := by
    rw [← h.eq_map]
    rfl
  rw [hb, ← sort_distinct h.nodup h.mem]
  exact (List.map_mergeSort (f := fun a => (a, amount xs a)) fun _ _ _ _ => rfl).symm

end RowCounts

namespace PropertyCounts

theorem add_eq_bump (m : PropertyCounts) (pair : String × String) (n : Int) :
    m.add pair n = bump m pair n := by
  unfold add bump
  congr 1
  funext old
  cases old <;> simp

def leastValue (pairs : List (String × String)) (name : String) : String :=
  (((pairs.filter (·.1 = name)).map Prod.snd).min?).getD ""

theorem pair_le_trans (a b c : String × String) (hab : pairLe a b) (hbc : pairLe b c) :
    pairLe a c := by
  simp only [pairLe, Bool.or_eq_true, Bool.and_eq_true, decide_eq_true_eq] at *
  rcases hab with h | ⟨h, h'⟩ <;> rcases hbc with k | ⟨k, k'⟩
  · exact Or.inl (lt_trans h k)
  · exact Or.inl (k ▸ h)
  · exact Or.inl (h ▸ k)
  · exact Or.inr ⟨h.trans k, le_trans h' k'⟩

theorem pair_le_total (a b : String × String) : pairLe a b || pairLe b a := by
  simp only [pairLe, Bool.or_eq_true, Bool.and_eq_true, decide_eq_true_eq]
  rcases lt_trichotomy a.1 b.1 with h | h | h
  · exact Or.inl (Or.inl h)
  · rcases le_total a.2 b.2 with k | k
    · exact Or.inl (Or.inr ⟨h, k⟩)
    · exact Or.inr (Or.inr ⟨h.symm, k⟩)
  · exact Or.inr (Or.inl h)

def sorted (m : PropertyCounts) : PropertyCounts := m.mergeSort fun a b => pairLe a.1 b.1

theorem sorted_perm (m : PropertyCounts) : m.sorted.Perm m := List.mergeSort_perm _ _

theorem sorted_pairwise (m : PropertyCounts) : m.sorted.Pairwise fun a b => pairLe a.1 b.1 := by
  apply List.pairwise_mergeSort
  · exact fun a b c => pair_le_trans a.1 b.1 c.1
  · exact fun a b => pair_le_total a.1 b.1

theorem sorted_names (m : PropertyCounts) : Ascends id (m.sorted.map (·.1.1)) := by
  apply List.pairwise_map.mpr
  apply m.sorted_pairwise.imp
  intro a b hab
  simp only [pairLe, Bool.or_eq_true, Bool.and_eq_true, decide_eq_true_eq] at hab
  exact hab.elim le_of_lt fun h => le_of_eq h.1

theorem keep_update (b : PropertyBlock) (name : String) (v : String × Int) :
    (if b.has name then b else b ++ [(name, v)]) = b.update name fun old => old.getD v := by
  induction b with
  | nil => rfl
  | cons p r ih =>
    obtain ⟨a, w⟩ := p
    by_cases ha : a = name
    · simp [Assoc.has, Assoc.get?, Assoc.update, ha]
    · simp only [Assoc.has, Assoc.get?, Assoc.update, ha, if_false] at ih ⊢
      rw [← ih]
      split <;> simp [*]

theorem block_gather (m : PropertyCounts) :
    m.block = Assoc.gather (·.1.1) (fun p old => old.getD (p.1.2, p.2)) [] m.sorted := by
  unfold block Assoc.gather
  congr 1
  funext b p
  exact keep_update b p.1.1 (p.1.2, p.2)

theorem keep_first (xs : PropertyCounts) (o : Option (String × Int)) :
    xs.foldl (fun o p => some (o.getD (p.1.2, p.2))) o =
      o.or (xs.head?.map fun p => (p.1.2, p.2)) := by
  induction xs generalizing o with
  | nil => simp
  | cons p r ih => rw [List.foldl_cons, ih]; cases o <;> simp

theorem block_keys {m : PropertyCounts} {xs : List ((String × String) × Int)} (h : Tallies m xs) :
    m.block.keys = ascending (xs.map (·.1.1)) := by
  rw [block_gather, Assoc.keys_gather, first_seen_ascends m.sorted_names]
  apply ascending_congr
  intro n
  have hm : m.map (·.1.1) = m.keys.map Prod.fst := by simp [Assoc.keys]
  have hx : xs.map (·.1.1) = (xs.map Prod.fst).map Prod.fst := by simp
  rw [(m.sorted_perm.map _).mem_iff, hm, hx, List.mem_map, List.mem_map]
  simp only [h.mem]

/-- The first of the sorted pairs with a name has the least value. -/
theorem sorted_head {m : PropertyCounts} {xs : List ((String × String) × Int)} (h : Tallies m xs)
    {n : String} {p : (String × String) × Int} {r : PropertyCounts}
    (hp : m.sorted.filter (·.1.1 = n) = p :: r) :
    p ∈ m ∧ p.1 = (n, leastValue (xs.map Prod.fst) n) := by
  have hmem : p ∈ m.sorted.filter (·.1.1 = n) := hp ▸ List.mem_cons_self
  obtain ⟨hs, hn⟩ := List.mem_filter.mp hmem
  have hpm : p ∈ m := m.sorted_perm.mem_iff.mp hs
  have hname : p.1.1 = n := by simpa using hn
  have hleast : (((xs.map Prod.fst).filter (·.1 = n)).map Prod.snd).min? = some p.1.2 := by
    rw [List.min?_eq_some_iff]
    constructor
    · have hk : p.1 ∈ xs.map Prod.fst := (h.mem p.1).mp (List.mem_map_of_mem hpm)
      exact List.mem_map.mpr ⟨p.1, List.mem_filter.mpr ⟨hk, hn⟩, rfl⟩
    · intro b hb
      obtain ⟨q, hq, rfl⟩ := List.mem_map.mp hb
      obtain ⟨hqx, hqn⟩ := List.mem_filter.mp hq
      obtain ⟨q', hq', rfl⟩ := List.mem_map.mp ((h.mem q).mpr hqx)
      have hin : q' ∈ m.sorted.filter (·.1.1 = n) :=
        List.mem_filter.mpr ⟨m.sorted_perm.mem_iff.mpr hq', hqn⟩
      rw [hp] at hin
      rcases List.mem_cons.mp hin with rfl | hr
      · exact le_refl _
      · have hpw := m.sorted_pairwise.filter (·.1.1 = n)
        rw [hp] at hpw
        have hle := (List.pairwise_cons.mp hpw).1 q' hr
        have hqname : q'.1.1 = n := by simpa using hqn
        simpa [pairLe, hname, hqname] using hle
  refine ⟨hpm, Prod.ext hname ?_⟩
  rw [leastValue, hleast]
  rfl

theorem block_tally {m : PropertyCounts} {xs : List ((String × String) × Int)} (h : Tallies m xs) :
    m.block = (ascending (xs.map (·.1.1))).map fun n =>
      (n, leastValue (xs.map Prod.fst) n, amount xs (n, leastValue (xs.map Prod.fst) n)) := by
  have hget : ∀ n ∈ m.block.keys, m.block.get? n = some
      (leastValue (xs.map Prod.fst) n, amount xs (n, leastValue (xs.map Prod.fst) n)) := by
    intro n hn
    rw [block_gather, Assoc.keys_gather, List.mem_eraseDups, List.mem_map] at hn
    obtain ⟨q, hq, hqn⟩ := hn
    rw [block_gather, Assoc.get_gather, keep_first]
    cases hp : m.sorted.filter (·.1.1 = n) with
    | nil =>
      have hmem : q ∈ m.sorted.filter (·.1.1 = n) := List.mem_filter.mpr ⟨hq, by simpa using hqn⟩
      rw [hp] at hmem
      exact absurd hmem List.not_mem_nil
    | cons p r =>
      obtain ⟨hpm, hkey⟩ := sorted_head h hp
      have hv : m.get? p.1 = some p.2 := (Assoc.get_mem h.nodup).mpr hpm
      have hs := h.sum p.1
      rw [hv, hkey] at hs
      simp [Assoc.get?, hkey, ← hs]
  have hnodup : m.block.keys.Nodup := by
    rw [block_gather, Assoc.keys_gather]
    exact first_seen_nodup _
  exact (Assoc.eq_map_keys hnodup _ hget).trans (by rw [block_keys h])

end PropertyCounts

end QueryTelemetry
