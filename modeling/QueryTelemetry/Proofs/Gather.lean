import Mathlib.Data.List.Induction
import Mathlib.Data.List.Nodup
import QueryTelemetry.Assoc

/-!
# Maps gathered from a list

Every table of a run is filled by writing item after item under the key of the item. What stands
under a key in the end depends only on the items with that key, and the keys stand in the order
in which they were first written.
-/

set_option autoImplicit false

namespace QueryTelemetry

section FirstSeen
variable {α β : Type} [BEq α] [LawfulBEq α] [BEq β] [LawfulBEq β]

theorem first_seen_concat (xs : List α) (x : α) :
    (xs ++ [x]).eraseDups = if x ∈ xs then xs.eraseDups else xs.eraseDups ++ [x] := by
  rw [List.eraseDups_append, List.removeAll]
  by_cases hx : x ∈ xs <;> simp [hx, List.eraseDups_cons]

theorem first_seen_nodup (xs : List α) : xs.eraseDups.Nodup := by
  induction xs using List.reverseRecOn with
  | nil => simp
  | append_singleton xs x ih =>
    rw [first_seen_concat]
    split
    · exact ih
    · rename_i hx
      apply List.nodup_append.mpr
      refine ⟨ih, List.nodup_singleton x, ?_⟩
      intro a ha b hb hab
      rw [List.mem_singleton.mp hb] at hab
      exact hx (hab ▸ List.mem_eraseDups.mp ha)

theorem first_seen_sublist (xs : List α) : xs.eraseDups.Sublist xs := by
  induction xs using List.reverseRecOn with
  | nil => simp
  | append_singleton xs x ih =>
    rw [first_seen_concat]
    split
    · exact ih.trans (List.sublist_append_left xs [x])
    · exact ih.append (List.Sublist.refl [x])

theorem first_seen_distinct {xs : List α} (h : xs.Nodup) : xs.eraseDups = xs := by
  apply (first_seen_sublist xs).eq_of_length
  apply List.Perm.length_eq
  apply (List.perm_ext_iff_of_nodup (first_seen_nodup xs) h).mpr
  exact fun a => List.mem_eraseDups

theorem first_seen_perm {xs ys : List α} (h : xs.Perm ys) : xs.eraseDups.Perm ys.eraseDups := by
  apply (List.perm_ext_iff_of_nodup (first_seen_nodup xs) (first_seen_nodup ys)).mpr
  intro a
  rw [List.mem_eraseDups, List.mem_eraseDups, h.mem_iff]

/-- Dropping items and renaming the rest one to one keeps the order of first sight. -/
theorem first_seen_filter_map (g : α → Option β)
    (hg : ∀ a b c, g a = some c → g b = some c → a = b) (xs : List α) :
    xs.eraseDups.filterMap g = (xs.filterMap g).eraseDups := by
  induction xs using List.reverseRecOn with
  | nil => simp
  | append_singleton xs x ih =>
    rw [first_seen_concat, List.filterMap_append]
    cases hx : g x with
    | none =>
      split <;> simp [hx, ih]
    | some y =>
      have hmem : y ∈ xs.filterMap g ↔ x ∈ xs := by
        rw [List.mem_filterMap]
        constructor
        · rintro ⟨a, ha, hy⟩
          exact hg a x y hy hx ▸ ha
        · exact fun h => ⟨x, h, hx⟩
      simp only [List.filterMap_cons, hx, List.filterMap_nil, first_seen_concat, hmem]
      split <;> simp [hx, ih]

end FirstSeen

theorem filter_unseen {α κ : Type} [DecidableEq κ] {key : α → κ} {xs : List α} {k : κ}
    (hk : k ∉ xs.map key) : xs.filter (key · = k) = [] := by
  apply List.filter_eq_nil_iff.mpr
  intro x hx hxk
  exact hk (List.mem_map.mpr ⟨x, hx, of_decide_eq_true hxk⟩)

/-- Selecting for one key after another gives what selecting for all of them gives. -/
theorem filter_regroup {α κ : Type} [DecidableEq κ] (p : α → Prop) [DecidablePred p] (key : α → κ)
    (xs : List α) {ks : List κ} (h : ks.Nodup) :
    (ks.flatMap fun k => xs.filter fun x => p x ∧ key x ∈ [k]).Perm
      (xs.filter fun x => p x ∧ key x ∈ ks) := by
  induction ks with
  | nil => simp
  | cons k ks ih =>
    obtain ⟨hk, hks⟩ := List.nodup_cons.mp h
    have hsplit := List.filter_append_perm (fun x => decide (key x = k))
      (xs.filter fun x => p x ∧ key x ∈ k :: ks)
    have hone : (xs.filter fun x => p x ∧ key x ∈ k :: ks).filter (fun x => decide (key x = k)) =
        xs.filter fun x => p x ∧ key x ∈ [k] := by
      rw [List.filter_filter]
      apply List.filter_congr
      intro x _
      by_cases hx : key x = k <;> simp [hx]
    have hrest : (xs.filter fun x => p x ∧ key x ∈ k :: ks).filter
        (fun x => !decide (key x = k)) = xs.filter fun x => p x ∧ key x ∈ ks := by
      rw [List.filter_filter]
      apply List.filter_congr
      intro x _
      by_cases hx : key x = k <;> simp [hx, hk]
    rw [hone, hrest] at hsplit
    rw [List.flatMap_cons]
    exact ((ih hks).append_left _).trans hsplit

namespace Assoc
variable {κ ν α : Type} [DecidableEq κ]

theorem update_new (m : Assoc κ ν) {k : κ} (hk : k ∉ keys m) (f : Option ν → ν) :
    update m k f = m ++ [(k, f none)] := by
  induction m with
  | nil => rfl
  | cons p r ih =>
    rw [keys, List.map_cons, List.mem_cons, not_or] at hk
    rw [update, if_neg (Ne.symm hk.1), ih hk.2]
    rfl

/-- To update a key is to put there what is made of what was found. -/
theorem update_eq_put (m : Assoc κ ν) (k : κ) (f : Option ν → ν) :
    update m k f = put m k (f (get? m k)) := by
  induction m with
  | nil => rfl
  | cons p r ih =>
    obtain ⟨a, v⟩ := p
    by_cases ha : a = k
    · simp [put, update, get?, ha]
    · rw [put, update, update, get?, if_neg ha, if_neg ha, if_neg ha, ih, put]

def gather (key : α → κ) (f : α → Option ν → ν) (m : Assoc κ ν) (xs : List α) : Assoc κ ν :=
  xs.foldl (fun m x => m.update (key x) (f x)) m

theorem get_gather (key : α → κ) (f : α → Option ν → ν) (m : Assoc κ ν) (xs : List α) (k : κ) :
    get? (gather key f m xs) k =
      (xs.filter (key · = k)).foldl (fun o x => some (f x o)) (get? m k) := by
  induction xs generalizing m with
  | nil => rfl
  | cons x xs ih =>
    have hx : gather key f m (x :: xs) = gather key f (m.update (key x) (f x)) xs := rfl
    rw [hx, ih, get_update]
    by_cases hk : key x = k
    · subst hk; simp
    · simp [hk, Ne.symm hk]

theorem keys_gather [BEq κ] [LawfulBEq κ] (key : α → κ) (f : α → Option ν → ν) (xs : List α) :
    keys (gather key f [] xs) = (xs.map key).eraseDups := by
  induction xs using List.reverseRecOn with
  | nil => rfl
  | append_singleton xs x ih =>
    have hx : gather key f [] (xs ++ [x]) = (gather key f [] xs).update (key x) (f x) := by
      simp [gather]
    rw [hx, keys_update, ih, List.map_append, List.map_singleton, first_seen_concat]
    by_cases hk : key x ∈ xs.map key
    · rw [if_pos hk, if_pos (List.mem_eraseDups.mpr hk)]
    · rw [if_neg hk, if_neg fun h => hk (List.mem_eraseDups.mp h)]

theorem get_mem {m : Assoc κ ν} (h : (keys m).Nodup) {k : κ} {v : ν} :
    get? m k = some v ↔ (k, v) ∈ m := by
  induction m with
  | nil => simp [get?]
  | cons p r ih =>
    obtain ⟨a, w⟩ := p
    obtain ⟨ha, hr⟩ := List.nodup_cons.mp h
    by_cases hk : a = k
    · subst hk
      have hn : (a, v) ∉ r := fun hv => ha (List.mem_map.mpr ⟨(a, v), hv, rfl⟩)
      simp [get?, hn, eq_comm]
    · simp [get?, hk, Ne.symm hk, ih hr]

theorem get_none_iff (m : Assoc κ ν) (k : κ) : get? m k = none ↔ k ∉ keys m := by
  rw [← has_iff, has, Bool.not_eq_true, Option.isSome_eq_false_iff, Option.isNone_iff_eq_none]

theorem get_map_keys (ks : List κ) (f : κ → ν) (k : κ) :
    get? (ks.map fun k => (k, f k)) k = if k ∈ ks then some (f k) else none := by
  induction ks with
  | nil => rfl
  | cons j ks ih =>
    by_cases hj : j = k
    · subst hj
      simp [get?]
    · simp [get?, hj, Ne.symm hj, ih]

theorem eq_map_keys {m : Assoc κ ν} (h : (keys m).Nodup) (f : κ → ν)
    (hf : ∀ k ∈ keys m, get? m k = some (f k)) : m = (keys m).map fun k => (k, f k) := by
  rw [keys, List.map_map]
  apply (List.map_id m).symm.trans
  apply List.map_congr_left
  intro p hp
  have hk : get? m p.1 = some p.2 := (get_mem h).mpr hp
  have hv := hf p.1 (List.mem_map_of_mem hp)
  rw [hk, Option.some.injEq] at hv
  simp [← hv]

end Assoc

end QueryTelemetry
