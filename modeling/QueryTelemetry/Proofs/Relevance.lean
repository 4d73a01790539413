import QueryTelemetry.Proofs.Rollup
import QueryTelemetry.Proofs.Slowest

/-!
# Relevant records

The sections of a kind show its completions and the facts of their executions. All other records
may be dropped from a history: those of other kinds, and facts of executions that never complete.
Nor does it matter which node reported a fact. Without kinds told apart, rows and properties of
another kind are still relevant to SQL field queries if they name the same execution.
-/

set_option autoImplicit false

namespace QueryTelemetry
open Leaderboard

namespace Record

def Concerns (byKind : Bool) (kind : QueryKind) (ids : List Identity) : Record → Prop
  | .completion c => c.kind = kind
  | .reads r => r.kind = kind ∧ r.identity ∈ ids
  | .rows r => kind = .sqlFields ∧ (byKind = true → r.kind = kind) ∧ r.identity ∈ ids
  | .property r => kind = .sqlFields ∧ (byKind = true → r.kind = kind) ∧ r.identity ∈ ids

instance (byKind : Bool) (kind : QueryKind) (ids : List Identity) :
    DecidablePred (Concerns byKind kind ids)
  | .completion c => inferInstanceAs (Decidable (c.kind = kind))
  | .reads r => inferInstanceAs (Decidable (r.kind = kind ∧ r.identity ∈ ids))
  | .rows r => inferInstanceAs (Decidable (kind = .sqlFields ∧
      (byKind = true → r.kind = kind) ∧ r.identity ∈ ids))
  | .property r => inferInstanceAs (Decidable (kind = .sqlFields ∧
      (byKind = true → r.kind = kind) ∧ r.identity ∈ ids))

/-- The same record from another node. The node of a completion is part of its identity. -/
def reportedBy (node : NodeId) : Record → Record
  | .completion c => .completion c
  | .reads r => .reads { r with reporter := node }
  | .rows r => .rows { r with reporter := node }
  | .property r => .property { r with reporter := node }

end Record

theorem filter_map_relevant {α β : Type} (f : α → Option β) (p : α → Bool) (q : β → Bool)
    (h : ∀ a b, f a = some b → q b → p a) (xs : List α) :
    ((xs.filter p).filterMap f).filter q = (xs.filterMap f).filter q := by
  rw [List.filterMap_filter, List.filter_filterMap, List.filter_filterMap]
  congr 1
  funext a
  cases hb : f a with
  | none => simp
  | some b =>
    by_cases hq : q b
    · simp [h a b hb hq]
    · simp [Option.filter_some, hq]

namespace History

def known (h : History) (kind : QueryKind) : List Identity := (h.completed kind).map (·.identity)

def slice (h : History) (byKind : Bool) (kind : QueryKind) : History :=
  h.filter (·.Concerns byKind kind (h.known kind))

section Slice
variable (h : History) (byKind : Bool) (kind : QueryKind) {ids : List Identity}

theorem completed_slice : (h.slice byKind kind).completed kind = h.completed kind := by
  apply filter_map_relevant
  rintro (c | r | r | r) d hd hk <;> cases hd
  have hc : c.kind = kind := of_decide_eq_true hk
  exact decide_eq_true hc

theorem reads_slice (hi : ∀ i ∈ ids, i ∈ h.known kind) :
    (h.slice byKind kind).readsOf kind ids = h.readsOf kind ids := by
  apply filter_map_relevant
  rintro (c | r | r | r) d hd hk <;> cases hd
  have hr : r.kind = kind ∧ r.identity ∈ ids := of_decide_eq_true hk
  exact decide_eq_true (And.intro hr.1 (hi _ hr.2))

theorem facts_slice {β : Type} (f : Record → Option β) (kindOf : β → QueryKind)
    (identity : β → Identity)
    (hf : ∀ r b, f r = some b → ∀ known : List Identity,
      (byKind = true → kindOf b = .sqlFields) ∧ identity b ∈ known →
      r.Concerns byKind .sqlFields known)
    (hi : ∀ i ∈ ids, i ∈ h.known .sqlFields) :
    ((h.slice byKind .sqlFields).filterMap f).filter
        (fun b => (byKind = true → kindOf b = .sqlFields) ∧ identity b ∈ ids) =
      (h.filterMap f).filter fun b =>
        (byKind = true → kindOf b = .sqlFields) ∧ identity b ∈ ids := by
  apply filter_map_relevant
  intro r b hb hq
  have hr := of_decide_eq_true hq
  exact decide_eq_true (hf r b hb _ ⟨hr.1, hi _ hr.2⟩)

theorem rows_slice (hi : ∀ i ∈ ids, i ∈ h.known .sqlFields) :
    (h.slice byKind .sqlFields).rowsOf byKind .sqlFields ids = h.rowsOf byKind .sqlFields ids := by
  refine h.facts_slice byKind Record.rows? (·.kind) (·.identity) ?_ hi
  rintro (c | r | r | r) b hb known hq <;> cases hb
  exact ⟨rfl, hq⟩

theorem properties_slice (hi : ∀ i ∈ ids, i ∈ h.known .sqlFields) :
    (h.slice byKind .sqlFields).propertiesOf byKind .sqlFields ids =
      h.propertiesOf byKind .sqlFields ids := by
  refine h.facts_slice byKind Record.property? (·.kind) (·.identity) ?_ hi
  rintro (c | r | r | r) b hb known hq <;> cases hb
  exact ⟨rfl, hq⟩

theorem texts_slice : (h.slice byKind kind).texts kind = h.texts kind := by
  rw [texts, completed_slice, texts]

theorem executions_slice (text : String) :
    (h.slice byKind kind).executions kind text = h.executions kind text := by
  rw [executions, completed_slice, executions]

theorem identities_slice (text : String) :
    (h.slice byKind kind).identities kind text = h.identities kind text := by
  rw [identities, executions_slice, identities]

theorem identities_known (text : String) : ∀ i ∈ h.identities kind text, i ∈ h.known kind := by
  intro i hi
  obtain ⟨c, hc, rfl⟩ := List.mem_map.mp hi
  exact List.mem_map_of_mem (List.mem_filter.mp hc).1

theorem rollup_entry_slice (text : String) :
    (h.slice byKind kind).rollupEntry byKind kind text = h.rollupEntry byKind kind text := by
  have hids := h.identities_known kind text
  simp only [rollupEntry, executions_slice, identities_slice, reads_slice h byKind kind hids]
  by_cases hk : kind = .sqlFields
  · subst hk
    simp only [rows_slice h byKind hids, properties_slice h byKind hids]
  · simp only [hk, if_false]

theorem slow_entry_slice {c : Completion} (hc : c ∈ h.completed kind) :
    (h.slice byKind kind).slowEntry byKind kind c = h.slowEntry byKind kind c := by
  have hids : ∀ i ∈ [c.identity], i ∈ h.known kind := by
    intro i hi
    rw [List.mem_singleton.mp hi]
    exact List.mem_map_of_mem hc
  simp only [slowEntry, reads_slice h byKind kind hids]
  by_cases hk : kind = .sqlFields
  · subst hk
    simp only [rows_slice h byKind hids, properties_slice h byKind hids]
  · simp only [hk, if_false]

end Slice

end History

section AfterRun
variable (s : Settings) (h : History) (kind : QueryKind)

theorem rollup_after_slice :
    ((Aggregator.start s).run (h.slice s.rowsByKind kind)).rollup kind =
      ((Aggregator.start s).run h).rollup kind := by
  rw [rollup_after_run, rollup_after_run, h.texts_slice]
  simp only [h.rollup_entry_slice]

theorem top_slow_after_slice :
    ((Aggregator.start s).run (h.slice s.rowsByKind kind)).topSlow kind =
      ((Aggregator.start s).run h).topSlow kind := by
  have hoffers : (h.slice s.rowsByKind kind).offers kind = h.offers kind := by
    rw [History.offers, h.completed_slice, History.offers]
  rw [top_slow_after_run, top_slow_after_run, hoffers]
  apply List.map_congr_left
  intro e he
  obtain ⟨c, hc, rfl⟩ := List.mem_map.mp (mem_retained s.topSlowSize.2 he)
  exact h.slow_entry_slice s.rowsByKind kind hc

end AfterRun

namespace Call

def reportedBy (node : NodeId) : Call → Call
  | .deliver r => .deliver (r.reportedBy node)
  | .results => .results

end Call

def relevant (byKind : Bool) (kind : QueryKind) (calls : List Call) : List Call :=
  calls.filter fun c => c.record?.any fun r => r.Concerns byKind kind ((history calls).known kind)

theorem history_relevant (byKind : Bool) (kind : QueryKind) (calls : List Call) :
    history (relevant byKind kind calls) = (history calls).slice byKind kind := by
  rw [relevant, History.slice]
  generalize (history calls).known kind = ids
  rw [history, List.filterMap_filter, history, List.filter_filterMap]
  congr 1
  funext c
  cases c <;> simp [Call.record?, Option.filter_some]

/-- The tables of an aggregator have no place for the node that reported a fact. -/
theorem step_reported_by (a : Aggregator) (r : Record) (node : NodeId) :
    a.step (r.reportedBy node) = a.step r := by
  cases r <;> rfl

theorem run_reported_by (n : Session) (calls : List Call) (reporter : Nat → NodeId) :
    (n.run (calls.mapIdx fun i c => c.reportedBy (reporter i))).aggregator =
      (n.run calls).aggregator := by
  rw [Session.run_aggregator, Session.run_aggregator]
  induction calls generalizing reporter n with
  | nil => rfl
  | cons c calls ih =>
    have hrest := ih (n.step c) fun i => reporter (i + 1)
    rw [List.mapIdx_cons]
    cases c with
    | results => exact hrest
    | deliver r =>
      have hstep := step_reported_by n.aggregator r (reporter 0)
      have hhead (cs : List Call) (r : Record) : n.aggregator.run (history (.deliver r :: cs)) =
          (n.aggregator.step r).run (history cs) := rfl
      rw [Call.reportedBy, hhead, hhead, hstep]
      exact hrest

/-- In any session the sections of a kind are those of its relevant deliveries alone, and they are
the same whichever nodes reported the facts. -/
theorem sections_of_relevant (s : Settings) (calls : List Call) (kind : QueryKind)
    (reporter : Nat → NodeId) :
    let a := ((Session.start s).run calls).aggregator
    let few := ((Session.start s).run (relevant s.rowsByKind kind calls)).aggregator
    let moved := ((Session.start s).run
      (calls.mapIdx fun i c => c.reportedBy (reporter i))).aggregator
    (few.rollup kind = a.rollup kind ∧ few.topSlow kind = a.topSlow kind ∧
      few.rollupJson kind = a.rollupJson kind ∧ few.topSlowJson? kind = a.topSlowJson? kind) ∧
    (moved.rollup kind = a.rollup kind ∧ moved.topSlow kind = a.topSlow kind ∧
      moved.rollupJson kind = a.rollupJson kind ∧
      moved.topSlowJson? kind = a.topSlowJson? kind) := by
  intro a few moved
  have hrollup : few.rollup kind = a.rollup kind := by
    simp only [few, a, Session.run_aggregator, history_relevant]
    exact rollup_after_slice s (history calls) kind
  have hslow : few.topSlow kind = a.topSlow kind := by
    simp only [few, a, Session.run_aggregator, history_relevant]
    exact top_slow_after_slice s (history calls) kind
  have hmoved : moved = a := run_reported_by (.start s) calls reporter
  constructor
  · refine ⟨hrollup, hslow, ?_, ?_⟩
    · rw [Aggregator.rollupJson, hrollup, Aggregator.rollupJson]
    · rw [Aggregator.topSlowJson?, hslow, Aggregator.topSlowJson?]
  · rw [hmoved]
    exact ⟨rfl, rfl, rfl, rfl⟩

end QueryTelemetry
