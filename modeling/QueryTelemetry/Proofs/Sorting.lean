import Mathlib.Data.List.Sort
import Mathlib.Data.String.Basic
import QueryTelemetry.Proofs.Gather

/-!
# Stable order

A list sorted by a key is known by two things: its keys ascend, and the items that share a key
stand in their old order. Distinct keys leave no choice, so the order in which the items arrived
is then forgotten.
-/

set_option autoImplicit false

namespace QueryTelemetry

section Stable
variable {α β : Type} [LinearOrder β] (key : α → β)

def sortBy (xs : List α) : List α := xs.mergeSort fun a b => key a ≤ key b

def Ascends (xs : List α) : Prop := xs.Pairwise fun a b => key a ≤ key b

theorem sort_by_perm (xs : List α) : (sortBy key xs).Perm xs := List.mergeSort_perm _ _

theorem key_trans (a b c : α) (hab : decide (key a ≤ key b)) (hbc : decide (key b ≤ key c)) :
    decide (key a ≤ key c) := by
  simp only [decide_eq_true_eq] at *
  exact le_trans hab hbc

theorem key_total (a b : α) : decide (key a ≤ key b) || decide (key b ≤ key a) := by
  simpa using le_total (key a) (key b)

theorem sort_by_ascends (xs : List α) : Ascends key (sortBy key xs) := by
  have h : (sortBy key xs).Pairwise fun a b => decide (key a ≤ key b) = true :=
    List.pairwise_mergeSort (key_trans key) (key_total key) xs
  exact h.imp fun hab => of_decide_eq_true hab

theorem sort_by_filter (xs : List α) (k : β) :
    (sortBy key xs).filter (key · = k) = xs.filter (key · = k) := by
  have hs : (xs.filter (key · = k)).Sublist (sortBy key xs) := by
    apply List.sublist_mergeSort (key_trans key) (key_total key)
    · apply List.pairwise_of_forall_mem_list
      intro a ha b hb
      have hka := (List.mem_filter.mp ha).2
      have hkb := (List.mem_filter.mp hb).2
      simp only [decide_eq_true_eq] at hka hkb ⊢
      exact le_of_eq (hka.trans hkb.symm)
    · exact List.filter_sublist
  have hf := hs.filter (key · = k)
  simp only [List.filter_filter, Bool.and_self] at hf
  exact (hf.eq_of_length ((sort_by_perm key xs).filter _).length_eq.symm).symm

theorem mem_of_filters {xs ys : List α}
    (h : ∀ k, xs.filter (key · = k) = ys.filter (key · = k)) {x : α} (hx : x ∈ xs) : x ∈ ys := by
  have hm : x ∈ ys.filter (key · = key x) := h (key x) ▸ List.mem_filter.mpr ⟨hx, by simp⟩
  exact (List.mem_filter.mp hm).1

theorem ascends_ext {xs ys : List α} (hx : Ascends key xs) (hy : Ascends key ys)
    (h : ∀ k, xs.filter (key · = k) = ys.filter (key · = k)) : xs = ys := by
  induction xs generalizing ys with
  | nil =>
    rcases ys with _ | ⟨y, ys⟩
    · rfl
    · simpa using mem_of_filters key (fun k => (h k).symm) (List.mem_cons_self (a := y))
  | cons x xs ih =>
    rcases ys with _ | ⟨y, ys⟩
    · simpa using mem_of_filters key h (List.mem_cons_self (a := x))
    · have hxy : key x ≤ key y := by
        rcases List.mem_cons.mp (mem_of_filters key (fun k => (h k).symm) List.mem_cons_self)
          with hy' | hy'
        · rw [hy']
        · exact (List.pairwise_cons.mp hx).1 y hy'
      have hyx : key y ≤ key x := by
        rcases List.mem_cons.mp (mem_of_filters key h List.mem_cons_self) with hx' | hx'
        · rw [hx']
        · exact (List.pairwise_cons.mp hy).1 x hx'
      have hk : key y = key x := le_antisymm hyx hxy
      have hhead := h (key x)
      simp only [List.filter_cons, hk, decide_true, if_true, List.cons.injEq] at hhead
      obtain ⟨rfl, -⟩ := hhead
      rw [ih (List.pairwise_cons.mp hx).2 (List.pairwise_cons.mp hy).2]
      intro k
      have hall := h k
      by_cases hkx : key x = k <;> simpa [List.filter_cons, hkx] using hall

/-- What sorting by a key gives is known by the order of the keys and of each key's items. -/
theorem sort_by_eq {xs ys : List α} (hy : Ascends key ys)
    (h : ∀ k, xs.filter (key · = k) = ys.filter (key · = k)) : sortBy key xs = ys :=
  ascends_ext key (sort_by_ascends key xs) hy fun k => (sort_by_filter key xs k).trans (h k)

theorem filter_length_distinct {xs : List α} (h : (xs.map key).Nodup) (k : β) :
    (xs.filter (key · = k)).length ≤ 1 := by
  have hc := List.nodup_iff_count_le_one.mp h k
  rw [List.count, List.countP_map, List.countP_eq_length_filter] at hc
  simpa [Function.comp_def, beq_eq_decide] using hc

theorem filter_distinct {xs ys : List α} (h : xs.Perm ys) (hd : (xs.map key).Nodup) (k : β) :
    xs.filter (key · = k) = ys.filter (key · = k) := by
  have hp : (xs.filter (key · = k)).Perm (ys.filter (key · = k)) := h.filter _
  have hl := filter_length_distinct key hd k
  rcases hf : xs.filter (key · = k) with _ | ⟨x, _ | ⟨z, r⟩⟩
  · rw [hf] at hp
    exact (List.nil_perm.mp hp).symm
  · rw [hf] at hp
    exact List.singleton_perm.mp hp
  · rw [hf] at hl
    simp at hl

theorem sort_by_perm_distinct {xs ys : List α} (h : xs.Perm ys) (hd : (xs.map key).Nodup) :
    sortBy key xs = sortBy key ys :=
  sort_by_eq key (sort_by_ascends key ys) fun k =>
    (filter_distinct key h hd k).trans (sort_by_filter key ys k).symm

theorem sort_by_of_ascends {xs : List α} (h : Ascends key xs) : sortBy key xs = xs :=
  sort_by_eq key h fun _ => rfl

end Stable

def ascending (xs : List String) : List String := sortBy id xs.eraseDups

theorem ascending_strict (xs : List String) : (ascending xs).Pairwise (· < ·) := by
  have hn : (ascending xs).Nodup :=
    (sort_by_perm id xs.eraseDups).nodup_iff.mpr (first_seen_nodup xs)
  exact (sort_by_ascends id xs.eraseDups).imp₂ (fun _ _ hle hne => lt_of_le_of_ne hle hne) hn

/-- Only the members matter. -/
theorem sort_distinct {ks xs : List String} (hk : ks.Nodup) (h : ∀ a, a ∈ ks ↔ a ∈ xs) :
    sortBy id ks = ascending xs := by
  have hp : ks.Perm xs.eraseDups :=
    (List.perm_ext_iff_of_nodup hk (first_seen_nodup xs)).mpr fun a => by
      rw [h, List.mem_eraseDups]
  exact sort_by_perm_distinct id hp (by simpa using hk)

theorem ascending_congr {xs ys : List String} (h : ∀ a, a ∈ xs ↔ a ∈ ys) :
    ascending xs = ascending ys :=
  sort_distinct (first_seen_nodup xs) fun a => by rw [List.mem_eraseDups, h]

theorem first_seen_ascends {xs : List String} (h : Ascends id xs) :
    xs.eraseDups = ascending xs :=
  (sort_by_of_ascends id (h.sublist (first_seen_sublist xs))).symm

end QueryTelemetry
