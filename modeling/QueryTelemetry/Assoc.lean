/-!
# Insertion-ordered maps

A map is the list of its bindings in the order in which their keys first arrived. Writing to a
key that is present keeps its place; a new key goes to the end. One equation per operation
says what a later lookup finds.
-/

set_option autoImplicit false

namespace QueryTelemetry

abbrev Assoc (κ ν : Type) := List (κ × ν)

namespace Assoc
variable {κ ν : Type} [DecidableEq κ]

def get? : Assoc κ ν → κ → Option ν
  | [], _ => none
  | (a, v) :: r, k => if a = k then some v else get? r k

def update (m : Assoc κ ν) (k : κ) (f : Option ν → ν) : Assoc κ ν :=
  match m with
  | [] => [(k, f none)]
  | (a, v) :: r => if a = k then (a, f (some v)) :: r else (a, v) :: update r k f

def put (m : Assoc κ ν) (k : κ) (v : ν) : Assoc κ ν := update m k fun _ => v

def keys (m : Assoc κ ν) : List κ := m.map Prod.fst

def has (m : Assoc κ ν) (k : κ) : Bool := (get? m k).isSome

def ofPairs (ps : List (κ × ν)) : Assoc κ ν := ps.foldl (fun m p => put m p.1 p.2) []

theorem get_update (m : Assoc κ ν) (k j : κ) (f : Option ν → ν) :
    get? (update m k f) j = if j = k then some (f (get? m k)) else get? m j := by
  induction m with
  | nil => simp [update, get?, eq_comm]
  | cons p r ih =>
    obtain ⟨a, v⟩ := p
    by_cases ha : a = k
    · subst ha
      by_cases hj : j = a
      · simp [update, get?, hj]
      · simp [update, get?, hj, Ne.symm hj]
    · simp only [update, ha, if_false, get?]
      by_cases hj : a = j
      · subst hj; simp [ha]
      · simp [hj, ih]

theorem get_put (m : Assoc κ ν) (k j : κ) (v : ν) :
    get? (put m k v) j = if j = k then some v else get? m j :=
  get_update m k j _

theorem keys_update (m : Assoc κ ν) (k : κ) (f : Option ν → ν) :
    keys (update m k f) = if k ∈ keys m then keys m else keys m ++ [k] := by
  induction m with
  | nil => simp [update, keys]
  | cons p r ih =>
    obtain ⟨a, v⟩ := p
    by_cases ha : a = k
    · simp [update, keys, ha]
    · simp only [keys] at ih
      simp only [update, ha, if_false, keys, List.map_cons, ih, List.mem_cons, Ne.symm ha,
        false_or]
      split <;> simp [*]

theorem keys_nodup_update {m : Assoc κ ν} (h : (keys m).Nodup) (k : κ) (f : Option ν → ν) :
    (keys (update m k f)).Nodup := by
  rw [keys_update]
  split
  · exact h
  · rename_i hk
    refine List.nodup_append.2 ⟨h, by simp, fun a ha b hb => ?_⟩
    rw [List.mem_singleton.1 hb]
    exact fun e => hk (e ▸ ha)

theorem has_iff (m : Assoc κ ν) (k : κ) : has m k = true ↔ k ∈ keys m := by
  induction m with
  | nil => simp [has, get?, keys]
  | cons p r ih =>
    obtain ⟨a, v⟩ := p
    simp only [has, keys] at ih
    by_cases ha : a = k
    · simp [has, get?, keys, ha]
    · simp only [has, get?, ha, if_false, ih, keys, List.map_cons, List.mem_cons, Ne.symm ha,
        false_or]

end Assoc

end QueryTelemetry
