import QueryTelemetry.Proofs.Facts

/-!
# Look-ups of a correlator

Facts are recorded and looked up in any order. What a look-up finds is made of the facts recorded
before it in its own table and under its own key, and of no others: the sums of the reads, the sum
of the rows of every action, the number of times that a property was seen. Nothing recorded is
nothing found, which is not the same as finding zero.
-/

set_option autoImplicit false

namespace QueryTelemetry

section Counts
variable {κ : Type} [DecidableEq κ]

def counts (xs : List (κ × Int)) : Assoc κ Int :=
  (xs.map Prod.fst).eraseDups.map fun k => (k, amount xs k)

def occurrences (xs : List κ) : Assoc κ Int := xs.eraseDups.map fun k => (k, (xs.count k : Int))

theorem keys_counts (xs : List (κ × Int)) : (counts xs).keys = (xs.map Prod.fst).eraseDups := by
  rw [Assoc.keys, counts, List.map_map]
  exact List.map_id _

theorem counts_tally (xs : List (κ × Int)) : Tallies (counts xs) xs := by
  refine ⟨?_, fun k => ?_, fun k => ?_⟩
  · rw [keys_counts]
    exact first_seen_nodup _
  · rw [keys_counts, List.mem_eraseDups]
  · rw [counts, Assoc.get_map_keys]
    split
    · rfl
    · rename_i hk
      exact (amount_unseen fun hseen => hk (List.mem_eraseDups.mpr hseen)).symm

theorem bump_counts (xs : List (κ × Int)) (k : κ) (n : Int) :
    bump (counts xs) k n = counts (xs ++ [(k, n)]) := by
  have hkeys : (bump (counts xs) k n).keys = ((xs ++ [(k, n)]).map Prod.fst).eraseDups := by
    rw [bump, Assoc.keys_update, keys_counts, List.map_append, List.map_singleton,
      first_seen_concat]
    simp only [List.mem_eraseDups]
  rw [((counts_tally xs).bump k n).eq_map, hkeys]
  rfl

theorem fold_counts (xs ys : List (κ × Int)) :
    ys.foldl (fun m y => bump m y.1 y.2) (counts xs) = counts (xs ++ ys) := by
  induction ys generalizing xs with
  | nil => rw [List.append_nil, List.foldl_nil]
  | cons y ys ih => rw [List.foldl_cons, bump_counts, ih, List.append_assoc, List.singleton_append]

theorem counts_bindings {m : Assoc κ Int} (h : m.keys.Nodup) : counts m = m :=
  (fold_counts [] m).symm.trans (fold_bump_new m [] h)

theorem counts_ones (xs : List κ) : counts (xs.map fun k => (k, 1)) = occurrences xs := by
  have hkeys : (xs.map fun k => (k, (1 : Int))).map Prod.fst = xs := by
    rw [List.map_map]
    exact List.map_id xs
  rw [counts, occurrences, hkeys]
  apply List.map_congr_left
  intro k _
  simp [amount, List.filter_map, Function.comp_def, List.count, List.countP_eq_length_filter,
    beq_eq_decide]

theorem bump_occurrences (xs : List κ) (k : κ) :
    bump (occurrences xs) k 1 = occurrences (xs ++ [k]) := by
  rw [← counts_ones, bump_counts, ← counts_ones, List.map_append, List.map_singleton]

end Counts

def unlessNil {α β : Type} (xs : List α) (b : β) : Option β := if xs = [] then none else some b

theorem unless_nil_none {α β : Type} (xs : List α) (b : β) : unlessNil xs b = none ↔ xs = [] := by
  unfold unlessNil
  split <;> simp [*]

theorem unless_nil_concat {α β : Type} (xs : List α) (x : α) (b : β) :
    unlessNil (xs ++ [x]) b = some b :=
  if_neg (List.append_ne_nil_of_right_ne_nil xs (List.cons_ne_nil x []))

/-- A map that nothing was put into is as good as none. -/
theorem unless_nil_get {α β : Type} (f : List α → List β) (h : f [] = []) (xs : List α) :
    (unlessNil xs (f xs)).getD [] = f xs := by
  cases xs with
  | nil => exact h.symm
  | cons x xs => rfl

theorem found_counts_ne {κ : Type} [DecidableEq κ] (xs : List (κ × Int)) :
    unlessNil xs (counts xs) ≠ some [] := by
  cases xs with
  | nil => exact (Option.some_ne_none []).symm
  | cons x xs =>
    intro h
    have hnil : (counts (x :: xs)).keys = [] := congrArg Assoc.keys (Option.some.inj h)
    have hmem : x.1 ∈ (counts (x :: xs)).keys := by
      rw [keys_counts, List.mem_eraseDups]
      exact List.mem_cons_self
    rw [hnil] at hmem
    exact List.not_mem_nil hmem

theorem found_occurrences_ne {κ : Type} [DecidableEq κ] (xs : List κ) :
    unlessNil xs (occurrences xs) ≠ some [] := by
  rw [← counts_ones]
  intro h
  apply found_counts_ne (xs.map fun k => (k, 1))
  cases xs with
  | nil => exact h
  | cons x xs => exact h

theorem filter_map_concat {α β : Type} (f : α → Option β) (xs : List α) (x : α) :
    (xs ++ [x]).filterMap f = xs.filterMap f ++ (f x).toList := by
  rw [List.filterMap_append]
  cases h : f x with
  | none => rw [List.filterMap_cons_none h, List.filterMap_nil, Option.toList_none]
  | some y => rw [List.filterMap_cons_some h, List.filterMap_nil, Option.toList_some]

def sumReads (rs : List Reads) : Reads := ⟨(rs.map (·.logical)).sum, (rs.map (·.physical)).sum⟩

theorem sum_reads_concat (rs : List Reads) (r : Reads) :
    ((unlessNil rs (sumReads rs)).map (·.add r)).getD r = sumReads (rs ++ [r]) := by
  cases rs <;> simp [unlessNil, sumReads, Reads.add, add_assoc]

section Tables
variable {α ν κ : Type} [DecidableEq κ]

/-- A map under a key is made of one item more. -/
theorem table_seen (t : Assoc κ (List ν)) {k : κ} {f : List α → List ν} (hnil : f [] = [])
    {xs : List α} {x : α} {g : List ν → List ν} (hg : g (f xs) = f (xs ++ [x]))
    (ht : t.get? k = unlessNil xs (f xs)) :
    (t.update k fun old => g (old.getD [])).get? k = some (f (xs ++ [x])) := by
  rw [Assoc.get_update, if_pos rfl, ht, unless_nil_get f hnil, hg]

/-- What is written under a key of a map leaves the other keys of all maps as they were. -/
theorem other_count_kept {β : Type} [DecidableEq β] (t : Assoc κ (Assoc β ν)) (k j : κ)
    {b other : β} (f : Option ν → ν) (h : other ≠ b) :
    ((t.update k fun old => Assoc.update (old.getD []) b f).get? j).bind (·.get? other) =
      (t.get? j).bind (·.get? other) := by
  rw [Assoc.get_update]
  split
  · rename_i hkey
    subst hkey
    rw [Option.bind_some, Assoc.get_update, if_neg h]
    cases t.get? j <;> rfl
  · rfl

end Tables

namespace Correlator

inductive Call (κ : Type) where
  | recordReads (kind : Scope) (id : κ) (r : Reads)
  | recordRows (kind : Scope) (id : κ) (action : String) (n : Int)
  | recordProperty (kind : Scope) (id : κ) (name value : String)
  | reads (kind : Scope) (id : κ)
  | rows (kind : Scope) (id : κ)
  | properties (kind : Scope) (id : κ)

inductive Answer where
  | recorded
  | reads (found : Option Reads)
  | rows (found : Option RowCounts)
  | properties (found : Option PropertyCounts)

variable {κ : Type} [DecidableEq κ]

def Call.id : Call κ → κ
  | .recordReads _ i _ | .recordRows _ i _ _ | .recordProperty _ i _ _ => i
  | .reads _ i | .rows _ i | .properties _ i => i

def step (c : Correlator κ) : Call κ → Correlator κ
  | .recordReads kind i r => c.recordReads kind i r
  | .recordRows kind i action n => c.recordRows kind i action n
  | .recordProperty kind i name value => c.recordProperty kind i name value
  | .reads _ _ | .rows _ _ | .properties _ _ => c

def answer (c : Correlator κ) : Call κ → Answer
  | .recordReads _ _ _ | .recordRows _ _ _ _ | .recordProperty _ _ _ _ => .recorded
  | .reads kind i => .reads (c.reads? kind i)
  | .rows kind i => .rows (c.rows? kind i)
  | .properties kind i => .properties (c.properties? kind i)

def after (c : Correlator κ) (calls : List (Call κ)) : Correlator κ := calls.foldl step c

def answers (c : Correlator κ) : List (Call κ) → List Answer
  | [] => []
  | call :: calls => c.answer call :: (c.step call).answers calls

/-! What was recorded under a key, in its order. Kinds count for rows and properties only where
they are told apart. -/

def Call.reads? (kind : Scope) (i : κ) : Call κ → Option Reads
  | .recordReads k j r => if k = kind ∧ j = i then some r else none
  | _ => none

def Call.rows? (byKind : Bool) (kind : Scope) (i : κ) : Call κ → Option (String × Int)
  | .recordRows k j action n =>
    if (byKind = true → k = kind) ∧ j = i then some (action, n) else none
  | _ => none

def Call.pair? (byKind : Bool) (kind : Scope) (i : κ) : Call κ → Option (String × String)
  | .recordProperty k j name value =>
    if (byKind = true → k = kind) ∧ j = i then some (name, value) else none
  | _ => none

def readsUnder (kind : Scope) (i : κ) (calls : List (Call κ)) : List Reads :=
  calls.filterMap (Call.reads? kind i)

def rowsUnder (byKind : Bool) (kind : Scope) (i : κ) (calls : List (Call κ)) :
    List (String × Int) :=
  calls.filterMap (Call.rows? byKind kind i)

def pairsUnder (byKind : Bool) (kind : Scope) (i : κ) (calls : List (Call κ)) :
    List (String × String) :=
  calls.filterMap (Call.pair? byKind kind i)

def expected (byKind : Bool) (calls : List (Call κ)) : Call κ → Answer
  | .recordReads _ _ _ | .recordRows _ _ _ _ | .recordProperty _ _ _ _ => .recorded
  | .reads kind i =>
    let rs := readsUnder kind i calls
    .reads (unlessNil rs (sumReads rs))
  | .rows kind i =>
    let xs := rowsUnder byKind kind i calls
    .rows (unlessNil xs (counts xs))
  | .properties kind i =>
    let ps := pairsUnder byKind kind i calls
    .properties (unlessNil ps (occurrences ps))

inductive Sees (byKind : Bool) : Call κ → Call κ → Prop
  | reads {kind : Scope} {i : κ} {r : Reads} : Sees byKind (.reads kind i) (.recordReads kind i r)
  | rows {kind k : Scope} {i : κ} {action : String} {n : Int} : (byKind = true → k = kind) →
      Sees byKind (.rows kind i) (.recordRows k i action n)
  | properties {kind k : Scope} {i : κ} {name value : String} : (byKind = true → k = kind) →
      Sees byKind (.properties kind i) (.recordProperty k i name value)

omit [DecidableEq κ] in
theorem keys_agree_iff (c : Correlator κ) (j k : Scope) (a b : κ) :
    c.key k b = c.key j a ↔ (c.byKind = true → j = k) ∧ a = b := by
  cases hc : c.byKind <;> simp [key, hc, eq_comm]

omit [DecidableEq κ] in
theorem key_of_scope {c : Correlator κ} {byKind : Bool} (hc : c.byKind = byKind)
    {kind k : Scope} (hk : byKind = true → k = kind) (i : κ) : c.key k i = c.key kind i :=
  (c.keys_agree_iff kind k i i).mpr ⟨fun h => (hk (hc ▸ h)).symm, rfl⟩

theorem step_by_kind (c : Correlator κ) (call : Call κ) : (c.step call).byKind = c.byKind := by
  cases call <;> rfl

theorem after_concat (c : Correlator κ) (calls : List (Call κ)) (call : Call κ) :
    c.after (calls ++ [call]) = (c.after calls).step call := by
  simp [after]

theorem after_by_kind (c : Correlator κ) (calls : List (Call κ)) :
    (c.after calls).byKind = c.byKind := by
  induction calls generalizing c with
  | nil => rfl
  | cons call calls ih => exact (ih (c.step call)).trans (c.step_by_kind call)

theorem answers_append (c : Correlator κ) (calls rest : List (Call κ)) :
    c.answers (calls ++ rest) = c.answers calls ++ (c.after calls).answers rest := by
  induction calls generalizing c with
  | nil => rfl
  | cons call calls ih => exact congrArg (c.answer call :: ·) (ih (c.step call))

theorem answers_length (c : Correlator κ) (calls : List (Call κ)) :
    (c.answers calls).length = calls.length := by
  induction calls generalizing c with
  | nil => rfl
  | cons call calls ih => exact congrArg (· + 1) (ih (c.step call))

theorem answer_unseen (c : Correlator κ) {look call : Call κ} (h : ¬ Sees c.byKind look call) :
    (c.step call).answer look = c.answer look := by
  cases look with
  | recordReads _ _ _ | recordRows _ _ _ _ | recordProperty _ _ _ _ => rfl
  | reads kind i =>
    cases call with
    | recordReads k j r =>
      have hne : (kind, i) ≠ (k, j) := by
        rintro ⟨⟩
        exact h .reads
      exact congrArg Answer.reads ((c.reads_record_reads k kind j i r).trans (if_neg hne))
    | recordRows _ _ _ _ | recordProperty _ _ _ _ | reads _ _ | rows _ _ | properties _ _ => rfl
  | rows kind i =>
    cases call with
    | recordRows k j action n =>
      have hne : c.key kind i ≠ c.key k j := by
        intro hkey
        obtain ⟨hk, rfl⟩ := (c.keys_agree_iff k kind j i).mp hkey
        exact h (.rows hk)
      exact congrArg Answer.rows ((c.rows_record_rows k kind j i action n).trans (if_neg hne))
    | recordReads _ _ _ | recordProperty _ _ _ _ | reads _ _ | rows _ _ | properties _ _ => rfl
  | properties kind i =>
    cases call with
    | recordProperty k j name value =>
      have hne : c.key kind i ≠ c.key k j := by
        intro hkey
        obtain ⟨hk, rfl⟩ := (c.keys_agree_iff k kind j i).mp hkey
        exact h (.properties hk)
      exact congrArg Answer.properties
        ((c.properties_record_property k kind j i name value).trans (if_neg hne))
    | recordReads _ _ _ | recordRows _ _ _ _ | reads _ _ | rows _ _ | properties _ _ => rfl

section Unseen
variable (byKind : Bool) (kind : Scope) (i : κ) (call : Call κ)

theorem reads_none_iff : call.reads? kind i = none ↔ ¬ Sees byKind (.reads kind i) call := by
  cases call with
  | recordReads k j r =>
    rw [Call.reads?, ite_eq_right_iff]
    refine ⟨fun h hs => ?_, fun h hkey => absurd ?_ h⟩
    · cases hs
      exact nomatch h ⟨rfl, rfl⟩
    · obtain ⟨rfl, rfl⟩ := hkey
      exact .reads
  | recordRows _ _ _ _ | recordProperty _ _ _ _ | reads _ _ | rows _ _ | properties _ _ =>
    exact iff_of_true rfl nofun

theorem rows_none_iff : call.rows? byKind kind i = none ↔ ¬ Sees byKind (.rows kind i) call := by
  cases call with
  | recordRows k j action n =>
    rw [Call.rows?, ite_eq_right_iff]
    refine ⟨fun h hs => ?_, fun h hkey => absurd ?_ h⟩
    · cases hs with
      | rows hk => exact nomatch h ⟨hk, rfl⟩
    · obtain ⟨hk, rfl⟩ := hkey
      exact .rows hk
  | recordReads _ _ _ | recordProperty _ _ _ _ | reads _ _ | rows _ _ | properties _ _ =>
    exact iff_of_true rfl nofun

theorem pair_none_iff :
    call.pair? byKind kind i = none ↔ ¬ Sees byKind (.properties kind i) call := by
  cases call with
  | recordProperty k j name value =>
    rw [Call.pair?, ite_eq_right_iff]
    refine ⟨fun h hs => ?_, fun h hkey => absurd ?_ h⟩
    · cases hs with
      | properties hk => exact nomatch h ⟨hk, rfl⟩
    · obtain ⟨hk, rfl⟩ := hkey
      exact .properties hk
  | recordReads _ _ _ | recordRows _ _ _ _ | reads _ _ | rows _ _ | properties _ _ =>
    exact iff_of_true rfl nofun

end Unseen

theorem expected_unseen {byKind : Bool} {look call : Call κ} (h : ¬ Sees byKind look call)
    (calls : List (Call κ)) :
    expected byKind (calls ++ [call]) look = expected byKind calls look := by
  cases look with
  | recordReads _ _ _ | recordRows _ _ _ _ | recordProperty _ _ _ _ => rfl
  | reads kind i =>
    rw [expected, readsUnder, filter_map_concat, (reads_none_iff byKind kind i call).mpr h,
      Option.toList_none, List.append_nil]
    rfl
  | rows kind i =>
    rw [expected, rowsUnder, filter_map_concat, (rows_none_iff byKind kind i call).mpr h,
      Option.toList_none, List.append_nil]
    rfl
  | properties kind i =>
    rw [expected, pairsUnder, filter_map_concat, (pair_none_iff byKind kind i call).mpr h,
      Option.toList_none, List.append_nil]
    rfl

section Seen
variable (c : Correlator κ) (kind k : Scope) (i : κ)

theorem reads_seen {rs : List Reads} (hc : c.reads? kind i = unlessNil rs (sumReads rs))
    (r : Reads) : (c.recordReads kind i r).reads? kind i = some (sumReads (rs ++ [r])) := by
  rw [reads_record_reads, if_pos rfl, hc, sum_reads_concat]

variable (hkey : c.key k i = c.key kind i)
include hkey

theorem rows_seen {xs : List (String × Int)} (hc : c.rows? kind i = unlessNil xs (counts xs))
    (action : String) (n : Int) :
    (c.recordRows k i action n).rows? kind i = some (counts (xs ++ [(action, n)])) := by
  unfold rows? recordRows
  rw [hkey]
  exact table_seen c.rows (g := fun m => bump m action n) rfl (bump_counts xs action n) hc

theorem properties_seen {ps : List (String × String)}
    (hc : c.properties? kind i = unlessNil ps (occurrences ps)) (name value : String) :
    (c.recordProperty k i name value).properties? kind i =
      some (occurrences (ps ++ [(name, value)])) := by
  unfold properties? recordProperty
  simp only [hkey, PropertyCounts.add_eq_bump]
  exact table_seen c.properties (g := fun m => bump m (name, value) 1) rfl
    (bump_occurrences ps (name, value)) hc

end Seen

/-- After any calls a look-up finds what was recorded under its key. -/
theorem answer_after (byKind : Bool) (calls : List (Call κ)) (look : Call κ) :
    ((empty byKind).after calls).answer look = expected byKind calls look := by
  induction calls using List.reverseRecOn with
  | nil => cases look <;> rfl
  | append_singleton calls call ih =>
    rw [after_concat]
    have hkind : ((empty byKind : Correlator κ).after calls).byKind = byKind :=
      after_by_kind _ calls
    by_cases h : Sees byKind look call
    · cases h with
      | @reads kind i r =>
        have hunder : readsUnder kind i (calls ++ [.recordReads kind i r]) =
            readsUnder kind i calls ++ [r] := by
          rw [readsUnder, filter_map_concat, Call.reads?, if_pos ⟨rfl, rfl⟩]
          rfl
        rw [step, answer, reads_seen _ _ _ (Answer.reads.inj ih) r, expected, hunder]
        exact congrArg Answer.reads (unless_nil_concat _ _ _).symm
      | @rows kind k i action n hk =>
        have hunder : rowsUnder byKind kind i (calls ++ [.recordRows k i action n]) =
            rowsUnder byKind kind i calls ++ [(action, n)] := by
          rw [rowsUnder, filter_map_concat, Call.rows?, if_pos ⟨hk, rfl⟩]
          rfl
        have hkey := key_of_scope hkind hk i
        rw [step, answer, rows_seen _ _ _ _ hkey (Answer.rows.inj ih) action n, expected, hunder]
        exact congrArg Answer.rows (unless_nil_concat _ _ _).symm
      | @properties kind k i name value hk =>
        have hunder : pairsUnder byKind kind i (calls ++ [.recordProperty k i name value]) =
            pairsUnder byKind kind i calls ++ [(name, value)] := by
          rw [pairsUnder, filter_map_concat, Call.pair?, if_pos ⟨hk, rfl⟩]
          rfl
        have hkey := key_of_scope hkind hk i
        rw [step, answer, properties_seen _ _ _ _ hkey (Answer.properties.inj ih) name value,
          expected, hunder]
        exact congrArg Answer.properties (unless_nil_concat _ _ _).symm
    · rw [answer_unseen, ih, expected_unseen h]
      rwa [hkind]

section Nothing
variable (byKind : Bool) (calls : List (Call κ)) (kind : Scope) (i : κ)

theorem reads_nothing_iff : expected byKind calls (.reads kind i) = .reads none ↔
    ∀ r, .recordReads kind i r ∉ calls := by
  rw [expected, Answer.reads.injEq, unless_nil_none, readsUnder, List.filterMap_eq_nil_iff]
  simp only [reads_none_iff byKind]
  refine ⟨fun h r hcall => h _ hcall .reads, fun h call hcall hs => ?_⟩
  cases hs
  exact h _ hcall

theorem rows_nothing_iff : expected byKind calls (.rows kind i) = .rows none ↔
    ∀ k action n, (byKind = true → k = kind) → .recordRows k i action n ∉ calls := by
  rw [expected, Answer.rows.injEq, unless_nil_none, rowsUnder, List.filterMap_eq_nil_iff]
  simp only [rows_none_iff]
  refine ⟨fun h k action n hk hcall => h _ hcall (.rows hk), fun h call hcall hs => ?_⟩
  cases hs with
  | rows hk => exact h _ _ _ hk hcall

theorem properties_nothing_iff : expected byKind calls (.properties kind i) = .properties none ↔
    ∀ k name value, (byKind = true → k = kind) → .recordProperty k i name value ∉ calls := by
  rw [expected, Answer.properties.injEq, unless_nil_none, pairsUnder, List.filterMap_eq_nil_iff]
  simp only [pair_none_iff]
  refine ⟨fun h k name value hk hcall => h _ hcall (.properties hk), fun h call hcall hs => ?_⟩
  cases hs with
  | properties hk => exact h _ _ _ hk hcall

end Nothing

section Frame
variable (c : Correlator κ) (k j : Scope) (a b : κ)

theorem other_action_kept (action other : String) (n : Int) (h : other ≠ action) :
    ((c.recordRows k a action n).rows? j b).bind (·.get? other) =
      (c.rows? j b).bind (·.get? other) :=
  other_count_kept c.rows (c.key k a) (c.key j b) _ h

theorem other_pair_kept (name value : String) (other : String × String)
    (h : other ≠ (name, value)) :
    ((c.recordProperty k a name value).properties? j b).bind (·.get? other) =
      (c.properties? j b).bind (·.get? other) :=
  other_count_kept c.properties (c.key k a) (c.key j b) _ h

end Frame

omit [DecidableEq κ] in
theorem sees_id {byKind : Bool} {look call : Call κ} (h : Sees byKind look call) :
    look.id = call.id := by
  cases h <;> rfl

/-- Look-ups are exact and independent of each other. -/
theorem lookups_of_calls (byKind : Bool) (calls : List (Call κ)) :
    (∀ call rest, ((empty byKind).answers (calls ++ call :: rest))[calls.length]? =
        some (expected byKind calls call)) ∧
      (∀ kind i,
        (expected byKind calls (.reads kind i) = .reads none ↔
          ∀ r, .recordReads kind i r ∉ calls) ∧
        (expected byKind calls (.rows kind i) = .rows none ↔
          ∀ k action n, (byKind = true → k = kind) → .recordRows k i action n ∉ calls) ∧
        (expected byKind calls (.properties kind i) = .properties none ↔
          ∀ k name value, (byKind = true → k = kind) → .recordProperty k i name value ∉ calls) ∧
        expected byKind calls (.rows kind i) ≠ .rows (some []) ∧
        expected byKind calls (.properties kind i) ≠ .properties (some [])) ∧
      (∀ (c : Correlator κ) (look call : Call κ), ¬ Sees c.byKind look call →
        (c.step call).answer look = c.answer look) ∧
      (∀ (c : Correlator κ) (k j : Scope) (a b : κ) (action other : String) (n : Int),
        other ≠ action →
        ((c.recordRows k a action n).rows? j b).bind (·.get? other) =
          (c.rows? j b).bind (·.get? other)) ∧
      (∀ (c : Correlator κ) (k j : Scope) (a b : κ) (name value : String)
          (other : String × String), other ≠ (name, value) →
        ((c.recordProperty k a name value).properties? j b).bind (·.get? other) =
          (c.properties? j b).bind (·.get? other)) ∧
      (∀ (c : Correlator Identity) (look call : Call Identity) (s : String) (n : Int),
        look.id.node = .named s ∧ call.id.node = .numbered n ∨
          look.id.node = .numbered n ∧ call.id.node = .named s →
        (c.step call).answer look = c.answer look) := by
  refine ⟨?_, ?_, fun c _ _ h => c.answer_unseen h,
    fun c k j a b action other n h => c.other_action_kept k j a b action other n h,
    fun c k j a b name value other h => c.other_pair_kept k j a b name value other h, ?_⟩
  · intro call rest
    rw [answers_append, List.getElem?_append_right (answers_length _ _).le, answers_length,
      Nat.sub_self, answers, List.getElem?_cons_zero, answer_after]
  · intro kind i
    refine ⟨reads_nothing_iff byKind calls kind i, rows_nothing_iff byKind calls kind i,
      properties_nothing_iff byKind calls kind i, ?_, ?_⟩
    · intro h
      exact found_counts_ne _ (Answer.rows.inj h)
    · intro h
      exact found_occurrences_ne _ (Answer.properties.inj h)
  · intro c look call s n hnodes
    refine c.answer_unseen fun hsees => ?_
    have hid : look.id.node = call.id.node := congrArg Identity.node (sees_id hsees)
    rcases hnodes with ⟨hl, hc⟩ | ⟨hl, hc⟩
    · exact NodeId.noConfusion (hl.symm.trans (hid.trans hc))
    · exact NodeId.noConfusion (hl.symm.trans (hid.trans hc))

/-- Rows of one kind are looked up between calls about another kind and another node. -/
theorem lookups_between_calls :
    ((empty true).answers
        [.recordRows (some .sqlFields) (⟨.named "1", 7⟩ : Identity) "put" 2,
          .recordReads none ⟨.named "1", 7⟩ ⟨1, 0⟩,
          .recordRows (some .sqlFields) ⟨.named "1", 7⟩ "get" 4,
          .recordRows none ⟨.named "1", 7⟩ "put" 8,
          .recordRows (some .sqlFields) ⟨.numbered 1, 7⟩ "put" 16,
          .recordRows (some .sqlFields) ⟨.named "1", 7⟩ "put" 32,
          .rows (some .sqlFields) ⟨.named "1", 7⟩,
          .recordRows (some .sqlFields) ⟨.named "1", 7⟩ "put" 64])[6]? =
      some (.rows (some [("put", 34), ("get", 4)])) :=
  (lookups_of_calls true
    [.recordRows (some .sqlFields) (⟨.named "1", 7⟩ : Identity) "put" 2,
      .recordReads none ⟨.named "1", 7⟩ ⟨1, 0⟩,
      .recordRows (some .sqlFields) ⟨.named "1", 7⟩ "get" 4,
      .recordRows none ⟨.named "1", 7⟩ "put" 8,
      .recordRows (some .sqlFields) ⟨.numbered 1, 7⟩ "put" 16,
      .recordRows (some .sqlFields) ⟨.named "1", 7⟩ "put" 32]).1
    (.rows (some .sqlFields) ⟨.named "1", 7⟩)
    [.recordRows (some .sqlFields) ⟨.named "1", 7⟩ "put" 64]

end Correlator

end QueryTelemetry
