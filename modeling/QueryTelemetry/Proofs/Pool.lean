import Mathlib.Algebra.GroupWithZero.Nat
import QueryTelemetry.Proofs.Callbacks
import QueryTelemetry.Proofs.Interleaving

/-!
# Sharded replay

The workers of a pool replay one shard each into the same handlers. A worker reads an event and
counts it, and then makes its calls one by one; between any two steps of a worker other workers may
go on. A guarded handler admits one call at a time, so a call is one step. Whatever the schedule, a
handler gets the deliveries of the shards interleaved, and every worker counts what a replay of its
shard alone would count.
-/

set_option autoImplicit false

namespace QueryTelemetry

/-- The shard of a worker from the next position on, and the calls that the event at hand still asks
for: handlers, by their place, with the record to be delivered. -/
structure Worker where
  position : Nat
  unread : List Event
  due : List (Nat × Record)
  summary : Summary

namespace Worker

def start (es : List Event) : Worker := ⟨1, es, [], .empty⟩

/-- None if nothing is left to do, if the next event can neither be decoded nor reported, or if the
next call fails. -/
def step? (handlers : List Handler) (w : Worker) : Option (List Handler × Worker) :=
  match w.due, w.unread with
  | (j, r) :: due, _ =>
    if ∀ g ∈ handlers[j]?, g.fault? r.callback = none then
      some (handlers.modify j (·.step r), { w with due })
    else none
  | [], e :: unread =>
    match e.decode with
    | .ok r => some (handlers, {
        position := w.position + 1
        unread
        due := (List.range handlers.length).map (·, r)
        summary := w.summary.count r })
    | .error (.malformed _ message) => some (handlers, {
        position := w.position + 1
        unread
        due := []
        summary := w.summary.skip w.position message })
    | .error .unwritable => none
  | [], [] => none

def Finished (w : Worker) : Prop := w.due.isEmpty ∧ w.unread.isEmpty

instance : DecidablePred Finished := fun w =>
  inferInstanceAs (Decidable (w.due.isEmpty ∧ w.unread.isEmpty))

def ahead (j : Nat) (w : Worker) : History :=
  (w.due.filterMap fun c => if c.1 = j then some c.2 else none) ++ deliveries w.unread

def outlook (w : Worker) : Summary := w.summary.after w.position w.unread

inductive Step (handlers : List Handler) : Worker → List Handler → Worker → Prop where
  | call {position : Nat} {unread : List Event} {j : Nat} {r : Record} {due : List (Nat × Record)}
      {summary : Summary} (hj : ∀ g ∈ handlers[j]?, g.fault? r.callback = none) :
      Step handlers ⟨position, unread, (j, r) :: due, summary⟩ (handlers.modify j (·.step r))
        ⟨position, unread, due, summary⟩
  | record {position : Nat} {e : Event} {unread : List Event} {r : Record} {summary : Summary}
      (he : e.record? = some r) :
      Step handlers ⟨position, e :: unread, [], summary⟩ handlers
        ⟨position + 1, unread, (List.range handlers.length).map (·, r), summary.count r⟩
  | fault {position : Nat} {e : Event} {unread : List Event} {m : String} {summary : Summary}
      (he : e.fault? = some m) :
      Step handlers ⟨position, e :: unread, [], summary⟩ handlers
        ⟨position + 1, unread, [], summary.skip position m⟩

section Steps
variable {handlers after : List Handler} {w v : Worker}

theorem step_cases (h : w.step? handlers = some (after, v)) : Step handlers w after v := by
  obtain ⟨position, unread, due, summary⟩ := w
  unfold step? at h
  split at h
  · rename_i hdue
    cases hdue
    split at h
    · rename_i hj
      cases h
      exact .call hj
    · cases h
  · rename_i hdue hunread
    cases hdue
    cases hunread
    split at h
    · rename_i hd
      cases h
      exact .record (by rw [Event.record?, hd]; rfl)
    · rename_i hd
      cases h
      exact .fault (by rw [Event.fault?, hd])
    · cases h
  · cases h

theorem due_once (n j : Nat) (r : Record) :
    (((List.range n).map (·, r)).filterMap fun c => if c.1 = j then some c.2 else none) =
      if j < n then [r] else [] := by
  induction n with
  | zero => rfl
  | succ n ih =>
    rw [List.range_succ, List.map_append, List.filterMap_append, ih]
    rcases Nat.lt_trichotomy j n with h | rfl | h
    · simp [h, Nat.lt_succ_of_lt h, Nat.ne_of_gt h]
    · simp
    · simp [Nat.not_lt.mpr (Nat.le_of_lt h), Nat.ne_of_lt h, Nat.not_lt.mpr h]

/-- A step makes the next call of a handler, or leaves the handler and what is ahead of it. -/
theorem step_ahead (h : w.step? handlers = some (after, v)) {j : Nat} {g : Handler}
    (hj : handlers[j]? = some g) :
    (after[j]? = some g ∧ v.ahead j = w.ahead j) ∨
    ∃ r, after[j]? = some (g.step r) ∧ w.ahead j = r :: v.ahead j := by
  cases step_cases h with
  | @call _ _ i r =>
    rw [List.getElem?_modify, hj]
    by_cases hi : i = j
    · exact .inr ⟨r, by simp [hi], by simp [ahead, hi]⟩
    · exact .inl ⟨by simp [hi], by simp [ahead, hi]⟩
  | @record _ _ unread _ _ he =>
    have hlt : j < handlers.length := (List.getElem?_eq_some_iff.mp hj).1
    refine .inl ⟨hj, ?_⟩
    rw [ahead, ahead, due_once, if_pos hlt, deliveries_record unread he]
    rfl
  | @fault _ _ unread _ _ he =>
    refine .inl ⟨hj, ?_⟩
    rw [ahead, ahead, deliveries_fault unread he]

theorem step_outlook (h : w.step? handlers = some (after, v)) : v.outlook = w.outlook := by
  cases step_cases h with
  | call => rfl
  | @record _ _ unread _ _ he => rw [outlook, outlook, Summary.after_record _ _ unread he]
  | @fault _ _ unread _ _ he => rw [outlook, outlook, Summary.after_fault _ _ unread he]

def left (n : Nat) (w : Worker) : Nat := w.due.length + w.unread.length * (n + 1)

theorem step_left (h : w.step? handlers = some (after, v)) :
    after.length = handlers.length ∧ v.left handlers.length < w.left handlers.length := by
  cases step_cases h with
  | call =>
    refine ⟨List.length_modify _ _ _, ?_⟩
    simp only [left, List.length_cons]
    omega
  | record =>
    refine ⟨rfl, ?_⟩
    simp only [left, List.length_map, List.length_range, List.length_nil, List.length_cons,
      Nat.succ_mul]
    omega
  | fault =>
    refine ⟨rfl, ?_⟩
    simp only [left, List.length_nil, List.length_cons, Nat.succ_mul]
    omega

theorem step_steady (h : w.step? handlers = some (after, v)) (hs : ∀ g ∈ handlers, g.Steady) :
    ∀ g ∈ after, g.Steady := by
  cases step_cases h with
  | @call _ _ j r =>
    intro g hg
    obtain ⟨i, hi, rfl⟩ := List.getElem_of_mem hg
    rw [List.getElem_modify]
    split
    · exact (hs _ (List.getElem_mem _)).call r.callback
    · exact hs _ (List.getElem_mem _)
  | record | fault => exact hs

theorem step_unread (h : w.step? handlers = some (after, v)) : ∀ e ∈ v.unread, e ∈ w.unread := by
  cases step_cases h with
  | call => exact fun f hf => hf
  | record | fault => exact fun f hf => List.mem_cons_of_mem _ hf

end Steps

/-- A worker with something left to do can go on. -/
theorem step_ready {handlers : List Handler} (hh : ∀ g ∈ handlers, g.Steady) {w : Worker}
    (hw : ¬w.Finished) (hs : ∀ e ∈ w.unread, e.Settles) :
    ∃ after v, w.step? handlers = some (after, v) := by
  obtain ⟨position, unread, due, summary⟩ := w
  unfold step?
  split
  · rename_i j r _ _
    have hj : ∀ g ∈ handlers[j]?, g.fault? r.callback = none :=
      fun g hg => hh g (List.mem_of_getElem? hg) [] r.callback
    rw [if_pos hj]
    exact ⟨_, _, rfl⟩
  · rename_i e unread hd hu
    have he : e.Settles := hs e (by rw [hu]; exact List.mem_cons_self)
    rw [Event.settles_iff] at he
    split
    · exact ⟨_, _, rfl⟩
    · exact ⟨_, _, rfl⟩
    · contradiction
  · rename_i hd hu
    exact absurd ⟨by rw [hd]; rfl, by rw [hu]; rfl⟩ hw

theorem ahead_finished {w : Worker} (h : w.Finished) (j : Nat) : w.ahead j = [] := by
  rw [ahead, List.isEmpty_iff.mp h.1, List.isEmpty_iff.mp h.2]
  rfl

theorem outlook_finished {w : Worker} (h : w.Finished) : w.outlook = w.summary := by
  rw [outlook, List.isEmpty_iff.mp h.2, Summary.after_nil]

end Worker

structure Pool where
  handlers : List Handler
  workers : List Worker

namespace Pool

def start (handlers : List Handler) (shards : List (List Event)) : Pool :=
  ⟨handlers.map .guarded, shards.map .start⟩

def step? (p : Pool) (i : Nat) : Option Pool := do
  let w ← p.workers[i]?
  let (handlers, w) ← w.step? p.handlers
  return ⟨handlers, p.workers.set i w⟩

def run? (p : Pool) : List Nat → Option Pool
  | [] => some p
  | i :: schedule => (p.step? i).bind (run? · schedule)

def Finished (p : Pool) : Prop := ∀ w ∈ p.workers, w.Finished

instance : DecidablePred Finished := fun p =>
  inferInstanceAs (Decidable (∀ w ∈ p.workers, w.Finished))

def total (p : Pool) : Summary := p.workers.foldl (fun s w => s.absorb w.summary) .empty

variable {p q : Pool}

theorem step_cases {i : Nat} (h : p.step? i = some q) :
    ∃ w v after, p.workers[i]? = some w ∧ w.step? p.handlers = some (after, v) ∧
      q = ⟨after, p.workers.set i v⟩ := by
  simp only [step?, Option.bind_eq_bind, Option.bind_eq_some_iff] at h
  obtain ⟨w, hw, ⟨after, v⟩, hv, hq⟩ := h
  exact ⟨w, v, after, hw, hv, (Option.some.inj hq).symm⟩

theorem step_outlook {i : Nat} (h : p.step? i = some q) :
    q.workers.map Worker.outlook = p.workers.map Worker.outlook := by
  obtain ⟨w, v, after, hw, hv, rfl⟩ := step_cases h
  have hi : (p.workers.map Worker.outlook)[i]? = some w.outlook := by
    rw [List.getElem?_map, hw, Option.map_some]
  rw [List.map_set, Worker.step_outlook hv, set_same hi]

theorem run_outlook {schedule : List Nat} (h : p.run? schedule = some q) :
    q.workers.map Worker.outlook = p.workers.map Worker.outlook := by
  induction schedule generalizing p with
  | nil => rw [Option.some.inj h]
  | cons i schedule ih =>
    obtain ⟨p', hstep, hrun⟩ := Option.bind_eq_some_iff.mp h
    rw [ih hrun, step_outlook hstep]

/-- Every handler gets what the workers have ahead of it, interleaved. -/
theorem run_interleaved {schedule : List Nat} (h : p.run? schedule = some q) (hq : q.Finished)
    {j : Nat} {g : Handler} (hj : p.handlers[j]? = some g) :
    ∃ merged, Interleaving (p.workers.map (Worker.ahead j)) merged ∧
      q.handlers[j]? = some (g.run merged) := by
  induction schedule generalizing p g with
  | nil =>
    cases h
    refine ⟨[], .done fun t ht => ?_, hj⟩
    obtain ⟨w, hw, rfl⟩ := List.mem_map.mp ht
    exact Worker.ahead_finished (hq w hw) j
  | cons i schedule ih =>
    obtain ⟨p', hstep, hrun⟩ := Option.bind_eq_some_iff.mp h
    obtain ⟨w, v, after, hw, hv, rfl⟩ := step_cases hstep
    have hi : (p.workers.map (Worker.ahead j))[i]? = some (w.ahead j) := by
      rw [List.getElem?_map, hw, Option.map_some]
    rcases Worker.step_ahead hv hj with ⟨hsame, hahead⟩ | ⟨r, hcall, hahead⟩
    · obtain ⟨merged, hm, hend⟩ := ih hrun hsame
      rw [List.map_set, hahead, set_same hi] at hm
      exact ⟨merged, hm, hend⟩
    · obtain ⟨merged, hm, hend⟩ := ih hrun hcall
      rw [List.map_set] at hm
      exact ⟨r :: merged, .next (hi.trans (congrArg some hahead)) hm, hend⟩

def left (p : Pool) : Nat := (p.workers.map (Worker.left p.handlers.length)).sum

theorem step_left {i : Nat} (h : p.step? i = some q) : q.left < p.left := by
  obtain ⟨w, v, after, hw, hv, rfl⟩ := step_cases h
  obtain ⟨hlength, hless⟩ := Worker.step_left hv
  rw [left, left, hlength, set_at hw]
  conv_rhs => rw [← split_at hw]
  simp only [List.map_append, List.map_cons, List.sum_append, List.sum_cons]
  omega

/-- Whatever was done so far, a pool whose shards settle can be brought to its end. -/
theorem finishes (p : Pool) (hh : ∀ g ∈ p.handlers, g.Steady)
    (hs : ∀ w ∈ p.workers, ∀ e ∈ w.unread, e.Settles) :
    ∃ schedule q, p.run? schedule = some q ∧ q.Finished := by
  induction hn : p.left using Nat.strong_induction_on generalizing p with
  | _ n ih =>
    by_cases hp : p.Finished
    · exact ⟨[], p, rfl, hp⟩
    · obtain ⟨w, hw, hnot⟩ : ∃ w ∈ p.workers, ¬w.Finished := by
        simpa only [Finished, not_forall, exists_prop] using hp
      obtain ⟨i, hi, rfl⟩ := List.getElem_of_mem hw
      have hget := List.getElem?_eq_getElem hi
      obtain ⟨after, v, hv⟩ := Worker.step_ready hh hnot (hs _ hw)
      have hstep : p.step? i = some ⟨after, p.workers.set i v⟩ := by
        simp [step?, hget, hv]
      have hsettled : ∀ u ∈ p.workers.set i v, ∀ e ∈ u.unread, e.Settles := by
        intro u hu e he
        rcases List.mem_or_eq_of_mem_set hu with hold | rfl
        · exact hs u hold e he
        · exact hs _ hw e (Worker.step_unread hv e he)
      obtain ⟨schedule, q, hrun, hq⟩ := ih _ (hn ▸ step_left hstep) ⟨after, _⟩
        (Worker.step_steady hv hh) hsettled rfl
      exact ⟨i :: schedule, q, by rw [run?, hstep]; exact hrun, hq⟩

theorem start_finishes {handlers : List Handler} (hh : ∀ g ∈ handlers, g.Steady)
    {shards : List (List Event)} (hs : ∀ es ∈ shards, ∀ e ∈ es, e.Settles) :
    ∃ schedule q, (start handlers shards).run? schedule = some q ∧ q.Finished := by
  refine finishes _ ?_ ?_
  · exact List.forall_mem_map.mpr fun g hg => (hh g hg).guarded
  · exact List.forall_mem_map.mpr hs

theorem start_interleaved {handlers : List Handler} {shards : List (List Event)}
    {schedule : List Nat} (h : (start handlers shards).run? schedule = some q) (hq : q.Finished)
    {j : Nat} {g : Handler} (hj : handlers[j]? = some g) :
    ∃ merged, Interleaving (shards.map deliveries) merged ∧
      q.handlers[j]? = some (.guarded (g.run merged)) := by
  have hg : (start handlers shards).handlers[j]? = some (.guarded g) := by
    rw [start, List.getElem?_map, hj, Option.map_some]
  obtain ⟨merged, hm, hend⟩ := run_interleaved h hq hg
  rw [start, List.map_map] at hm
  rw [Handler.run_guarded] at hend
  exact ⟨merged, hm, hend⟩

/-- Each worker ends with the summary of its shard. -/
theorem start_summaries {handlers : List Handler} {shards : List (List Event)}
    {schedule : List Nat} (h : (start handlers shards).run? schedule = some q) (hq : q.Finished) :
    q.workers.map Worker.summary = shards.map (Summary.empty.after 1) := by
  have hfinished : q.workers.map Worker.summary = q.workers.map Worker.outlook :=
    List.map_congr_left fun w hw => (Worker.outlook_finished (hq w hw)).symm
  rw [hfinished, run_outlook h, start, List.map_map]
  rfl

end Pool

namespace Summary

def afterShards (s : Summary) (shards : List (List Event)) : Summary where
  queries := s.queries + (deliveries shards.flatten).completions.length
  reads := s.reads + (deliveries shards.flatten).reads.length
  rows := s.rows + (deliveries shards.flatten).rows.length
  properties := s.properties + (deliveries shards.flatten).properties.length
  skipped := s.skipped + (shards.flatMap (rejections 1)).length
  duration := s.duration
  errors := s.errors ++ (shards.flatMap (rejections 1)).map rejectionText

theorem after_no_shards (s : Summary) : s.afterShards [] = s := by
  simp [afterShards, deliveries, History.completions, History.reads, History.rows,
    History.properties]

theorem absorb_shard (s : Summary) (es : List Event) (shards : List (List Event))
    (duration : Binary64) :
    (s.absorb { Summary.empty.after 1 es with duration }).afterShards shards =
      { s.afterShards (es :: shards) with duration := s.duration.larger duration } := by
  simp [afterShards, absorb, after, empty, deliveries_append, History.completions, History.reads,
    History.rows, History.properties, Int.add_assoc]

theorem absorb_shards (s : Summary) (shards : List (List Event)) : ∃ duration,
    (shards.map (Summary.empty.after 1)).foldl absorb s =
      { s.afterShards shards with duration } := by
  induction shards generalizing s with
  | nil => exact ⟨s.duration, by rw [after_no_shards]; rfl⟩
  | cons es shards ih =>
    obtain ⟨duration, hd⟩ := ih (s.absorb (Summary.empty.after 1 es))
    have hcons : (s.absorb (Summary.empty.after 1 es)).afterShards shards = _ :=
      absorb_shard s es shards (.zero false)
    rw [hcons] at hd
    exact ⟨duration, hd⟩

end Summary

/-- The shards one after the other, each timed on its own. -/
theorem run_replay_shards_from (p : Replay) (hh : ∀ g ∈ p.handlers, g.Steady)
    {shards : List (List Event)} (h : ∀ es ∈ shards, ∀ e ∈ es, e.Settles) (w : Workspace) :
    ∃ (duration : Binary64) (v : Workspace), (replayShardsFrom p shards).run.run w =
      (.ok ⟨p.handlers.map (·.run (deliveries shards.flatten)),
        { p.summary.afterShards shards with duration }⟩, v) := by
  induction shards generalizing p w with
  | nil =>
    refine ⟨p.summary.duration, w, ?_⟩
    have hsame : p.handlers.map (·.run (deliveries [])) = p.handlers := List.map_id p.handlers
    rw [Summary.after_no_shards, List.flatten_nil, hsame]
    rfl
  | cons es shards ih =>
    obtain ⟨elapsed, v, hrun⟩ := run_replay (h es List.mem_cons_self)
      (fun g hg => (hh g hg).accepts _) w
    rw [replayShardsFrom, Work.run_bind, hrun]
    obtain ⟨duration, u, hrest⟩ := ih ⟨p.handlers.map (·.run (deliveries es)),
      p.summary.absorb { Summary.empty.after 1 es with duration := elapsed }⟩
      (List.forall_mem_map.mpr fun g hg => (hh g hg).run _)
      (fun fs hfs => h fs (List.mem_cons_of_mem es hfs)) v
    refine ⟨duration, u, hrest.trans ?_⟩
    rw [Summary.absorb_shard, List.map_map, List.flatten_cons, deliveries_append]
    simp only [Function.comp_def, ← Handler.run_append]

theorem run_replay_shards {handlers : List Handler} (hh : ∀ g ∈ handlers, g.Steady)
    {shards : List (List Event)} (h : ∀ es ∈ shards, ∀ e ∈ es, e.Settles) {workers : Option Int}
    (hn : enoughWorkers workers = true) (w : Workspace) :
    ∃ (duration : Binary64) (v : Workspace), (replayShards workers shards handlers).run.run w =
      (.ok ⟨(handlers.map (·.run (deliveries shards.flatten))).map .guarded,
        { Summary.empty.afterShards shards with duration }⟩, v) := by
  obtain ⟨duration, v, hrun⟩ := run_replay_shards_from (.start (handlers.map .guarded))
    (List.forall_mem_map.mpr fun g hg => (hh g hg).guarded) h w
  have hhandlers : (handlers.map Handler.guarded).map (·.run (deliveries shards.flatten)) =
      (handlers.map (·.run (deliveries shards.flatten))).map .guarded := by
    rw [List.map_map, List.map_map]
    exact List.map_congr_left fun g _ => g.run_guarded _
  have hbody : replayShards workers shards handlers = (do
      let p ← replayShardsFrom (.start (handlers.map .guarded)) shards
      Work.logLine .info "ingest.dispatcher" (shardsMessage shards.length p.summary)
      return p) := by
    unfold replayShards
    rw [hn]
    rfl
  rw [hbody, Work.run_bind, hrun, ← hhandlers]
  exact ⟨duration, _, rfl⟩

/-- The messages are the same, whatever the positions are counted from. -/
theorem rejections_shards (shards : List (List Event)) :
    (shards.flatMap (rejections 1)).map Prod.snd = (rejections 1 shards.flatten).map Prod.snd := by
  rw [rejections_faults, List.filterMap_flatten, List.map_flatMap, List.flatMap]
  simp only [rejections_faults]

/-- Two summaries that count the same; the durations and messages may differ. -/
structure Summary.SameCounts (s t : Summary) : Prop where
  queries : s.queries = t.queries
  reads : s.reads = t.reads
  rows : s.rows = t.rows
  properties : s.properties = t.properties
  skipped : s.skipped = t.skipped

theorem Summary.after_shards_counts (shards : List (List Event)) {duration : Binary64} :
    SameCounts { Summary.empty.afterShards shards with duration }
      (Summary.empty.after 1 shards.flatten) where
  queries := rfl
  reads := rfl
  rows := rfl
  properties := rfl
  skipped := by
    have hlength := congrArg List.length (rejections_shards shards)
    rw [List.length_map, List.length_map] at hlength
    simp only [afterShards, after, hlength]

theorem Pool.total_eq {handlers : List Handler} {shards : List (List Event)} {q : Pool}
    {schedule : List Nat} (h : (start handlers shards).run? schedule = some q) (hq : q.Finished) :
    ∃ duration, q.total = { Summary.empty.afterShards shards with duration } := by
  obtain ⟨duration, hd⟩ := Summary.absorb_shards .empty shards
  rw [← start_summaries h hq, List.foldl_map] at hd
  exact ⟨duration, hd⟩

/-- Two aggregators report the same texts with the same numbers, and queries that took equally
long. -/
def Aggregator.Agrees (a b : Aggregator) : Prop :=
  ∀ kind, (a.rollup kind).Perm (b.rollup kind) ∧ ((a.rollup kind).map Prod.fst).Nodup ∧
    (a.topSlow kind).map (·.duration) = (b.topSlow kind).map (·.duration)

theorem aggregators_agree (s : Settings) {shards : List (List Event)} {merged : History}
    (hm : Interleaving (shards.map deliveries) merged) :
    ((Aggregator.start s).run merged).Agrees
      ((Aggregator.start s).run (deliveries shards.flatten)) := by
  have hp := merged_perm hm
  exact fun kind => ⟨rollup_any_order s hp kind, rollup_keys_nodup s merged kind,
    durations_any_order s hp kind⟩

/-- Shards that are replayed side by side are reported like their concatenation: in any interleaving
of their deliveries up to the order of arrival, and exactly if no kind completes in two shards. A
pool can finish, and any schedule by which it does interleaves them for every handler and counts the
same; only the positions in the messages are those in the shards. Replaying one shard after the
other gives the summary of the pool. -/
theorem sharded_replay_agrees (settings : List Settings) {shards : List (List Event)}
    (hs : ∀ es ∈ shards, ∀ e ∈ es, e.Settles) :
    let handlers := settings.map fun s => Handler.aggregator (.start s)
    let whole (s : Settings) := (Aggregator.start s).run (deliveries shards.flatten)
    ∃ p, Replay.run handlers shards.flatten = .ok p ∧
      p.handlers = settings.map (fun s => Handler.aggregator (whole s)) ∧
      (∀ (s : Settings) (merged : History), Interleaving (shards.map deliveries) merged →
        let apart := (Aggregator.start s).run merged
        (KindsApart shards →
          (Handler.guarded (.aggregator apart)).results = (Handler.aggregator (whole s)).results) ∧
        apart.Agrees (whole s)) ∧
      (∃ schedule q, (Pool.start handlers shards).run? schedule = some q ∧ q.Finished) ∧
      ∀ (schedule : List Nat) (q : Pool), (Pool.start handlers shards).run? schedule = some q →
        q.Finished →
        (∀ (j : Nat) (s : Settings), settings[j]? = some s →
          ∃ merged, Interleaving (shards.map deliveries) merged ∧
            q.handlers[j]? = some (Handler.guarded (.aggregator ((Aggregator.start s).run merged)))) ∧
        q.total.SameCounts p.summary ∧
        q.total.errors.length = q.total.skipped ∧
        q.total.errors = (shards.flatMap (rejections 1)).map rejectionText ∧
        p.summary.errors = (rejections 1 shards.flatten).map rejectionText ∧
        (shards.flatMap (rejections 1)).map Prod.snd =
          (rejections 1 shards.flatten).map Prod.snd ∧
        ∀ workers w, enoughWorkers workers = true → ∃ (duration : Binary64) (v : Workspace),
          (replayShards workers shards handlers).run.run w =
            (.ok ⟨p.handlers.map Handler.guarded, { q.total with duration }⟩, v) := by
  intro handlers whole
  have hflat : ∀ e ∈ shards.flatten, e.Settles := by
    intro e he
    obtain ⟨es, hes, he⟩ := List.mem_flatten.mp he
    exact hs es hes e he
  have hh : ∀ g ∈ handlers, g.Steady :=
    List.forall_mem_map.mpr fun s _ => Handler.aggregator_steady (.start s)
  have hwhole : handlers.map (·.run (deliveries shards.flatten)) =
      settings.map fun s => Handler.aggregator (whole s) := by
    rw [List.map_map]
    exact List.map_congr_left fun s _ => Handler.run_aggregator _ _
  refine ⟨_, Replay.run_settled hflat fun g hg => (hh g hg).accepts _, hwhole, ?_, ?_, ?_⟩
  · intro s merged hm
    refine ⟨fun hk => ?_, aggregators_agree s hm⟩
    exact results_in_order s (merged_perm hm) (merged_completed hm hk)
  · exact Pool.start_finishes hh hs
  · intro schedule q hrun hq
    obtain ⟨elapsed, htotal⟩ := Pool.total_eq hrun hq
    refine ⟨fun j s hj => ?_, ?_⟩
    · have hg : handlers[j]? = some (.aggregator (.start s)) := by
        rw [List.getElem?_map, hj, Option.map_some]
      obtain ⟨merged, hm, hend⟩ := Pool.start_interleaved hrun hq hg
      rw [Handler.run_aggregator] at hend
      exact ⟨merged, hm, hend⟩
    · rw [htotal]
      refine ⟨Summary.after_shards_counts shards, ?_, rfl, rfl, rejections_shards shards,
        fun workers w hn => run_replay_shards hh hs hn w⟩
      simp [Summary.afterShards, Summary.empty]

/-- Two shards with completions of two kinds. The one in the second shard is delivered first, and
stands behind an event that is no record. -/
theorem sharded_replay_of_two_shards :
    let quick : Payload := .mapping [("type", .str "query"), ("kind", .str "SQL_FIELDS"),
      ("text", .str "q"), ("nodeId", .str "n"), ("id", .int 1), ("startTime", .int 0),
      ("duration", .int 5), ("success", .bool true)]
    let slow : Completion := ⟨.scan, "r", .named "n", 1, 0, 7, false⟩
    let scanned : RowsReport := ⟨.named "m", .scan, .named "n", 1, "scanned", 3⟩
    let shards : List (List Event) := [[.payload quick],
      [.payload .null, .record (.completion slow), .record (.rows scanned)]]
    let handlers := [Handler.aggregator (.start .default)]
    (∀ es ∈ shards, ∀ e ∈ es, e.Settles) ∧ KindsApart shards ∧
    ∃ q, (Pool.start handlers shards).run? [1, 1, 0, 1, 0, 1, 1] = some q ∧ q.Finished ∧
    ∃ p, Replay.run handlers shards.flatten = .ok p ∧
      (∃ g h, q.handlers[0]? = some g ∧ p.handlers[0]? = some h ∧ g.results = h.results) ∧
      q.total.SameCounts p.summary ∧
      q.total.errors = ["event 1: Unsupported event payload: NoneType"] ∧
      p.summary.errors = ["event 2: Unsupported event payload: NoneType"] := by
  intro quick slow scanned shards handlers
  have hs : ∀ es ∈ shards, ∀ e ∈ es, e.Settles := by decide
  have hk : KindsApart shards := by
    intro kind
    cases kind with
    | sqlFields => exact ⟨0, by decide⟩
    | spi | scan | sql | text | set | index => exact ⟨1, by decide⟩
  have hends : ((Pool.start handlers shards).run? [1, 1, 0, 1, 0, 1, 1]).any
      (fun q => decide q.Finished) = true := by decide
  obtain ⟨q, hrun, hfinished⟩ := (Option.any_eq_true _ _).mp hends
  have hq := of_decide_eq_true hfinished
  obtain ⟨p, hp, hhandlers, hresults, -, hpool⟩ := sharded_replay_agrees [.default] hs
  obtain ⟨hcalls, hcounts, -, hshards, hwhole, -, -⟩ := hpool _ q hrun hq
  obtain ⟨merged, hm, hend⟩ := hcalls 0 .default rfl
  refine ⟨hs, hk, q, hrun, hq, p, hp, ⟨_, _, hend, ?_, (hresults .default merged hm).1 hk⟩, hcounts,
    hshards, hwhole⟩
  rw [hhandlers]
  rfl

end QueryTelemetry
