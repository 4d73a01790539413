import QueryTelemetry.Proofs.Entries
import QueryTelemetry.Proofs.Objects

/-!
# Totals of detached copies

The totals of a slot are those it began with and the sums of what was done to it since. A detached
copy begins with the totals of its parent, and from then on neither shows what is done to the
other. The identities are those of all executions that were merged through any slot.
-/

set_option autoImplicit false

namespace QueryTelemetry

/-- What was done to a slot: executions with their duration and success, rows of actions, and
occurrences of pairs. -/
structure Additions where
  merges : List (Int × Bool)
  rows : List (String × Int)
  properties : List ((String × String) × Int)

namespace Additions

def none : Additions := ⟨[], [], []⟩

def append (a b : Additions) : Additions :=
  ⟨a.merges ++ b.merges, a.rows ++ b.rows, a.properties ++ b.properties⟩

end Additions

namespace Totals

/-- Each key once, in the order of first sight, with the sum under it. Reads are as they were. -/
def after (t : Totals) (w : Additions) : Totals :=
  { count := t.count + w.merges.length
    duration := t.duration + (w.merges.map (·.1)).sum
    logicalReads := t.logicalReads
    physicalReads := t.physicalReads
    failures := t.failures + w.merges.countP (!·.2)
    properties := counts (t.properties ++ w.properties)
    rows := counts (t.rows ++ w.rows) }

structure Distinct (t : Totals) : Prop where
  properties : t.properties.keys.Nodup
  rows : t.rows.keys.Nodup

variable {t : Totals}

theorem distinct_after (t : Totals) (w : Additions) : (t.after w).Distinct :=
  ⟨(counts_tally _).nodup, (counts_tally _).nodup⟩

theorem after_none (ht : t.Distinct) : t.after .none = t := by
  simp only [after, Additions.none, List.append_nil, counts_bindings ht.properties,
    counts_bindings ht.rows, List.length_nil, List.map_nil, List.sum_nil, List.countP_nil, add_zero]

theorem counts_counts {κ : Type} [DecidableEq κ] (xs ys : List (κ × Int)) :
    counts (counts xs ++ ys) = counts (xs ++ ys) := by
  rw [← fold_counts, counts_bindings (counts_tally xs).nodup, fold_counts]

theorem after_append (t : Totals) (v w : Additions) :
    (t.after v).after w = t.after (v.append w) := by
  simp only [after, Additions.append, counts_counts, List.append_assoc, List.length_append,
    List.map_append, List.sum_append, List.countP_append, add_assoc]

theorem merge_after (ht : t.Distinct) (duration : Int) (success : Bool) :
    t.merge duration success = t.after ⟨[(duration, success)], [], []⟩ := by
  cases success <;>
    simp [merge, after, counts_bindings ht.properties, counts_bindings ht.rows]

theorem add_properties_counts (ht : t.Distinct) (ps : PropertyCounts) :
    (t.addProperties ps).properties = counts (t.properties ++ ps) := by
  simp only [addProperties, PropertyCounts.add_eq_bump]
  rw [← fold_counts, counts_bindings ht.properties]

theorem add_rows_counts (ht : t.Distinct) (rs : RowCounts) :
    (t.addRows rs).rows = counts (t.rows ++ rs) := by
  simp only [addRows, RowCounts.add_eq_bump]
  rw [← fold_counts, counts_bindings ht.rows]

theorem add_after (ht : t.Distinct) (ps : PropertyCounts) (rs : RowCounts) :
    (t.addProperties ps).addRows rs = t.after ⟨[], rs, ps⟩ := by
  have hp := add_properties_counts ht ps
  have hr := add_rows_counts (t := t.addProperties ps) ⟨hp ▸ (counts_tally _).nodup, ht.rows⟩ rs
  simp only [after, List.length_nil, List.map_nil, List.sum_nil, List.countP_nil, add_zero]
  rw [← hp]
  exact congrArg (fun rows => { t.addProperties ps with rows }) hr

def doubled (t : Totals) : Totals :=
  { t with
    properties := t.properties.map fun p => (p.1, 2 * p.2)
    rows := t.rows.map fun p => (p.1, 2 * p.2) }

theorem counts_twice {κ : Type} [DecidableEq κ] {m : Assoc κ Int} (h : m.keys.Nodup) :
    counts (m ++ m) = m.map fun p => (p.1, 2 * p.2) := by
  have hfirst : (m.map Prod.fst).eraseDups = m.map Prod.fst := first_seen_distinct h
  have hkeys : ((m ++ m).map Prod.fst).eraseDups = m.map Prod.fst := by
    have hnone : (m.map Prod.fst).removeAll (m.map Prod.fst) = [] :=
      List.filter_eq_nil_iff.mpr fun k hk => by simpa using hk
    rw [List.map_append, List.eraseDups_append, hfirst, hnone, List.eraseDups_nil, List.append_nil]
  have hself := counts_bindings h
  rw [counts, hfirst] at hself
  -- each binding of the right side is a key with its sum
  conv_rhs => rw [← hself]
  rw [counts, hkeys, List.map_map, List.map_map, List.map_map]
  apply List.map_congr_left
  intro b _
  simp only [Function.comp_apply, amount_append, two_mul]

theorem after_itself (ht : t.Distinct) :
    t.after ⟨[], t.rows, t.properties⟩ = t.doubled := by
  rw [after, counts_twice ht.properties, counts_twice ht.rows, doubled]
  simp only [List.length_nil, List.map_nil, List.sum_nil, List.countP_nil, add_zero]

end Totals

namespace Family

def Op.slot : Op → Nat
  | .merge s _ _ _ | .detach s | .rows s _ | .properties s _ | .absorb s _ => s

/-- What an operation does to its slot. To absorb is to add what the other slot shows now. -/
def Op.adds (f : Family) : Op → Additions
  | .merge _ _ duration success => ⟨[(duration, success)], [], []⟩
  | .detach _ => .none
  | .rows _ rs => ⟨[], rs, []⟩
  | .properties _ ps => ⟨[], [], ps⟩
  | .absorb _ s => ⟨[], (f.slot s).rows, (f.slot s).properties⟩

def addedTo (n : Nat) (f : Family) : List Op → Additions
  | [] => .none
  | op :: ops => (if op.slot = n then op.adds f else .none).append (addedTo n (f.step op) ops)

def Proper (f : Family) : Prop := ∀ n, (f.slot n).Distinct

variable {f : Family} {n : Nat}

theorem slot_eq (hn : n < f.slots.length) : f.slot n = f.slots[n] := by
  rw [slot, List.getD_eq_getElem?_getD, List.getElem?_eq_getElem hn]
  rfl

theorem slot_modify (s : Nat) (change : Totals → Totals) (ids : IdentitySet)
    (hn : n < f.slots.length) :
    slot ⟨f.slots.modify s change, ids⟩ n = if s = n then change (f.slot n) else f.slot n := by
  have hm : n < (f.slots.modify s change).length := by rwa [List.length_modify]
  rw [slot_eq (f := ⟨f.slots.modify s change, ids⟩) hm, List.getElem_modify, slot_eq hn]

theorem slot_detach (hn : n < f.slots.length) (s : Nat) :
    (f.step (.detach s)).slot n = f.slot n := by
  simp only [slot, step, List.getD_eq_getElem?_getD, List.getElem?_append_left hn]

/-- What a change in one slot comes to in every slot. -/
theorem slot_adds (hf : f.Proper) {s : Nat} {change : Totals → Totals} {w : Additions}
    (h : change (f.slot s) = (f.slot s).after w) (ids : IdentitySet) (hn : n < f.slots.length) :
    slot ⟨f.slots.modify s change, ids⟩ n = (f.slot n).after (if s = n then w else .none) := by
  rw [slot_modify s change ids hn]
  split
  · rename_i hs
    exact hs ▸ h
  · exact (Totals.after_none (hf n)).symm

/-- An operation shows in its own slot and in no other one. -/
theorem step_slot (hf : f.Proper) (op : Op) (hn : n < f.slots.length) :
    (f.step op).slot n = (f.slot n).after (if op.slot = n then op.adds f else .none) := by
  cases op with
  | merge s i duration success =>
    exact slot_adds hf (Totals.merge_after (hf s) duration success) _ hn
  | detach s =>
    rw [slot_detach hn, Op.adds, ite_self, Totals.after_none (hf n)]
  | rows s rs => exact slot_adds hf (Totals.add_after (hf s) [] rs) _ hn
  | properties s ps => exact slot_adds hf (Totals.add_after (hf s) ps []) _ hn
  | absorb s t => exact slot_adds hf (Totals.add_after (hf s) _ _) _ hn

theorem length_step (f : Family) (op : Op) :
    (f.step op).slots.length = f.slots.length ∨
      ∃ s, op = .detach s ∧ (f.step op).slots.length = f.slots.length + 1 := by
  cases op with
  | detach s => exact Or.inr ⟨s, rfl, List.length_append⟩
  | _ => exact Or.inl (List.length_modify ..)

theorem length_le_step (f : Family) (op : Op) : f.slots.length ≤ (f.step op).slots.length := by
  rcases length_step f op with h | ⟨_, -, h⟩ <;> omega

theorem slot_beyond (hn : f.slots.length ≤ n) : f.slot n = .empty := by
  rw [slot, List.getD_eq_getElem?_getD, List.getElem?_eq_none hn]
  rfl

theorem slot_detached (f : Family) (s : Nat) :
    (f.step (.detach s)).slot f.slots.length = f.slot s := by
  simp [slot, step]

theorem slot_start (n : Nat) : start.slot n = .empty := by
  cases n <;> rfl

theorem proper_start : start.Proper := by
  intro n
  rw [slot_start]
  exact ⟨List.nodup_nil, List.nodup_nil⟩

/-- What holds of empty totals and is kept by additions holds of every slot after a step. -/
theorem step_all {P : Totals → Prop} (hempty : P .empty) (hafter : ∀ t w, P t → P (t.after w))
    (hf : f.Proper) (h : ∀ n, P (f.slot n)) (op : Op) (n : Nat) : P ((f.step op).slot n) := by
  by_cases hn : n < f.slots.length
  · rw [step_slot hf op hn]
    exact hafter _ _ (h n)
  · by_cases hbeyond : (f.step op).slots.length ≤ n
    · rw [slot_beyond hbeyond]
      exact hempty
    · rcases length_step f op with hsame | ⟨s, rfl, hmore⟩
      · exact absurd (hsame ▸ Nat.not_lt.mp hn) hbeyond
      · obtain rfl : n = f.slots.length := by omega
        rw [slot_detached]
        exact h s

theorem proper_step (hf : f.Proper) (op : Op) : (f.step op).Proper :=
  step_all ⟨List.nodup_nil, List.nodup_nil⟩ (fun t w _ => Totals.distinct_after t w) hf hf op

theorem run_all {P : Totals → Prop} (hempty : P .empty) (hafter : ∀ t w, P t → P (t.after w))
    (hf : f.Proper) (h : ∀ n, P (f.slot n)) (ops : List Op) (n : Nat) : P ((f.run ops).slot n) := by
  induction ops generalizing f with
  | nil => exact h n
  | cons op ops ih => exact ih (proper_step hf op) (step_all hempty hafter hf h op)

theorem proper_run (hf : f.Proper) (ops : List Op) : (f.run ops).Proper :=
  run_all ⟨List.nodup_nil, List.nodup_nil⟩ (fun t w _ => Totals.distinct_after t w) hf hf ops

/-- What a slot shows in the end is what it showed and all that was done to it. -/
theorem run_slot (hf : f.Proper) (ops : List Op) (hn : n < f.slots.length) :
    (f.run ops).slot n = (f.slot n).after (addedTo n f ops) := by
  induction ops generalizing f with
  | nil => exact (Totals.after_none (hf n)).symm
  | cons op ops ih =>
    have hlater : n < (f.step op).slots.length := hn.trans_le (length_le_step f op)
    have hrun : f.run (op :: ops) = (f.step op).run ops := rfl
    rw [hrun, ih (proper_step hf op) hlater, step_slot hf op hn, Totals.after_append]
    rfl

/-! ## Identities -/

def merged (ops : List Op) : List Identity :=
  ops.filterMap fun
    | .merge _ i _ _ => some i
    | _ => none

theorem run_identities (f : Family) (ops : List Op) :
    (f.run ops).identities = (merged ops).foldl IdentitySet.insert f.identities := by
  induction ops generalizing f with
  | nil => rfl
  | cons op ops ih =>
    have hrun : f.run (op :: ops) = (f.step op).run ops := rfl
    rw [hrun, ih]
    cases op <;> rfl

/-! ## Any run -/

/-- Every slot but the first one was detached from another. -/
theorem slot_origin (ops : List Op) {n : Nat} (hn : n < (start.run ops).slots.length) :
    n = 0 ∨ ∃ before parent after,
      ops = before ++ .detach parent :: after ∧ n = (start.run before).slots.length := by
  induction ops using List.reverseRecOn with
  | nil => exact Or.inl (Nat.lt_one_iff.mp hn)
  | append_singleton ops op ih =>
    by_cases hold : n < (start.run ops).slots.length
    · rcases ih hold with h0 | ⟨before, parent, after, rfl, h⟩
      · exact Or.inl h0
      · exact Or.inr ⟨before, parent, after ++ [op], by simp, h⟩
    · rw [run_append] at hn
      rcases length_step (start.run ops) op with hsame | ⟨s, rfl, hmore⟩
      · exact absurd (hsame ▸ hn) hold
      · have hlast : n < (start.run ops).slots.length + 1 := hmore ▸ hn
        exact Or.inr ⟨ops, s, [], rfl, by omega⟩

/-- Operations on an existing slot leave all others as they are, and so does detaching. -/
theorem step_elsewhere {f : Family} (hf : f.Proper) {op : Op} {n : Nat} (hn : n < f.slots.length)
    (hne : n ≠ op.slot) : (f.step op).slot n = f.slot n := by
  rw [step_slot hf op hn, if_neg (Ne.symm hne), Totals.after_none (hf n)]

theorem step_itself {f : Family} (hf : f.Proper) {n : Nat} (hn : n < f.slots.length) :
    (f.step (.absorb n n)).slot n = (f.slot n).doubled := by
  have hslot : (Op.absorb n n).slot = n := rfl
  rw [step_slot hf _ hn, if_pos hslot]
  exact Totals.after_itself (hf n)

theorem slot_of_detached (before after : List Op) (parent : Nat) :
    (start.run (before ++ .detach parent :: after)).slot (start.run before).slots.length =
      ((start.run before).slot parent).after (addedTo (start.run before).slots.length
        ((start.run before).step (.detach parent)) after) := by
  let f := start.run before
  have hf : f.Proper := proper_run proper_start before
  have hnew : f.slots.length < (f.step (.detach parent)).slots.length := by simp [step]
  have hrun : start.run (before ++ .detach parent :: after) = (f.step (.detach parent)).run after :=
    run_append _ _ _
  rw [hrun, run_slot (proper_step hf _) after hnew, slot_detached]

/-- What the infos of a family show, whatever is done to its slots: the totals of each slot are
those of its parent at the moment it was detached and what was added to the slot itself since
then; the identities are everybody's. -/
theorem detached_share_identities (ops : List Op) (hops : start.Existing ops) :
    (∃ o, Objects.start.run ops = some o ∧
      o.infos.map o.heap.totals = (start.run ops).slots ∧
      ∀ x ∈ o.infos, o.heap.identities x.identities = (start.run ops).identities) ∧
    (start.run ops).slot 0 = Totals.empty.after (addedTo 0 start ops) ∧
    (∀ before parent after, ops = before ++ .detach parent :: after →
      (start.run ops).slot (start.run before).slots.length =
        ((start.run before).slot parent).after (addedTo (start.run before).slots.length
          ((start.run before).step (.detach parent)) after)) ∧
    (∀ n < (start.run ops).slots.length, n = 0 ∨ ∃ before parent after,
      ops = before ++ .detach parent :: after ∧ n = (start.run before).slots.length) ∧
    (∀ before op after, ops = before ++ op :: after →
      ∀ n < (start.run before).slots.length,
        (n ≠ op.slot → ((start.run before).step op).slot n = (start.run before).slot n) ∧
        (op = .absorb n n →
          ((start.run before).step op).slot n = ((start.run before).slot n).doubled)) ∧
    ((start.run ops).identities.keys = ((merged ops).map (·.node)).eraseDups ∧
      (start.run ops).identities.toList.Nodup ∧
      ∀ i, i ∈ (start.run ops).identities.toList ↔ i ∈ merged ops) ∧
    ∀ n, ((start.run ops).slot n).logicalReads = 0 ∧
      ((start.run ops).slot n).physicalReads = 0 := by
  refine ⟨?_, run_slot proper_start ops Nat.zero_lt_one, ?_, fun n => slot_origin ops, ?_,
    ⟨?_, ?_, ?_⟩, ?_⟩
  · obtain ⟨o, hrun, ho⟩ := Objects.start_shows.run hops
    refine ⟨o, hrun, ho.slots, ?_⟩
    intro x hx
    rw [ho.separate.identities x hx, ho.identities]
  · rintro before parent after rfl
    exact slot_of_detached before after parent
  · rintro before op after rfl n hn
    have hf := proper_run proper_start before
    refine ⟨step_elsewhere hf hn, ?_⟩
    rintro rfl
    exact step_itself hf hn
  · rw [run_identities]
    exact IdentitySet.nodes_of_inserts _
  · rw [run_identities]
    exact IdentitySet.to_list_nodup (IdentitySet.proper_inserts _)
  · rw [run_identities]
    exact IdentitySet.mem_inserts _
  · apply run_all (P := fun t => t.logicalReads = 0 ∧ t.physicalReads = 0) ⟨rfl, rfl⟩ _ proper_start
    · intro n
      rw [slot_start]
      exact ⟨rfl, rfl⟩
    · exact fun _ _ h => h

theorem detached_in_chain :
    let ops : List Op :=
      [.merge 0 ⟨.named "a", 1⟩ 5 true, .properties 0 [(("user", "eve"), 2)],
        .rows 0 [("SELECT", 3)], .detach 0, .absorb 1 1, .merge 1 ⟨.named "b", 7⟩ 4 false,
        .detach 1, .absorb 0 1, .rows 2 [("INSERT", 1)]]
    start.Existing ops ∧
    (start.run ops).slots =
      [⟨1, 5, 0, 0, 0, [(("user", "eve"), 6)], [("SELECT", 9)]⟩,
        ⟨2, 9, 0, 0, 1, [(("user", "eve"), 4)], [("SELECT", 6)]⟩,
        ⟨2, 9, 0, 0, 1, [(("user", "eve"), 4)], [("SELECT", 6), ("INSERT", 1)]⟩] ∧
    ∃ o, Objects.start.run ops = some o ∧ o.infos.map o.heap.totals = (start.run ops).slots ∧
      ∀ x ∈ o.infos, o.heap.identities x.identities =
        [(.named "a", [1]), (.named "b", [7])] := by
  intro ops
  have hops : start.Existing ops := by decide
  exact ⟨hops, rfl, (detached_share_identities ops hops).1⟩

end Family

end QueryTelemetry
