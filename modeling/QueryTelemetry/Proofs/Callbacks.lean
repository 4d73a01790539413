import QueryTelemetry.Proofs.Delivery

/-!
# Callbacks

A handler has one callback for each sort of record, which gets the fields of the record as its
arguments. Replaying a stream that settles calls every handler once for each record, in the order of
the stream, and not at all for the events that are skipped; so the handlers end as if the stream had
held nothing else. The replay ends early if a handler fails at one of these calls.
-/

set_option autoImplicit false

namespace QueryTelemetry

theorem Record.callback_record (r : Record) : r.callback.record = r := by
  cases r <;> rfl

namespace Handler

def callAll (h : Handler) (calls : List Callback) : Handler := calls.foldl call h

def Steady (h : Handler) : Prop := ∀ calls c, (h.callAll calls).fault? c = none

def Accepts (h : Handler) : List Record → Prop
  | [] => True
  | r :: rs => h.fault? r.callback = none ∧ (h.step r).Accepts rs

theorem run_calls (h : Handler) (rs : List Record) :
    h.run rs = h.callAll (rs.map Record.callback) := by
  rw [callAll, List.foldl_map]
  rfl

theorem run_aggregator (a : Aggregator) (h : History) :
    (aggregator a).run h = .aggregator (a.run h) := by
  induction h generalizing a with
  | nil => rfl
  | cons r h ih =>
    have hstep : (aggregator a).step r = aggregator (a.step r) :=
      congrArg (fun r => aggregator (a.step r)) r.callback_record
    exact (congrArg (run · h) hstep).trans (ih (a.step r))

theorem custom_calls (c : Custom) (before calls : List Callback) :
    (custom c before).callAll calls = .custom c (before ++ calls) := by
  induction calls generalizing before with
  | nil => rw [List.append_nil]; rfl
  | cons x calls ih =>
    rw [List.append_cons]
    exact ih (before ++ [x])

theorem guarded_calls (h : Handler) (calls : List Callback) :
    (guarded h).callAll calls = .guarded (h.callAll calls) := by
  induction calls generalizing h with
  | nil => rfl
  | cons x calls ih => exact ih (h.call x)

theorem aggregator_calls (a : Aggregator) (calls : List Callback) :
    ∃ b, (aggregator a).callAll calls = .aggregator b := by
  induction calls generalizing a with
  | nil => exact ⟨a, rfl⟩
  | cons x calls ih => exact ih (a.step x.record)

theorem aggregator_steady (a : Aggregator) : (aggregator a).Steady := by
  intro calls c
  obtain ⟨b, hb⟩ := aggregator_calls a calls
  rw [hb]
  rfl

theorem custom_steady {c : Custom} (h : ∀ calls call, c.fault? calls call = none)
    (before : List Callback) : (custom c before).Steady := by
  intro calls x
  rw [custom_calls]
  exact h _ x

theorem Steady.guarded {h : Handler} (hs : h.Steady) : (guarded h).Steady := by
  intro calls c
  rw [guarded_calls]
  exact hs calls c

theorem Steady.call {h : Handler} (hs : h.Steady) (c : Callback) : (h.call c).Steady :=
  fun calls => hs (c :: calls)

theorem Steady.run {h : Handler} (hs : h.Steady) (rs : List Record) : (h.run rs).Steady := by
  induction rs generalizing h with
  | nil => exact hs
  | cons r rs ih => exact ih (hs.call r.callback)

theorem Steady.accepts {h : Handler} (hs : h.Steady) (rs : List Record) : h.Accepts rs := by
  induction rs generalizing h with
  | nil => trivial
  | cons r rs ih => exact ⟨hs [] r.callback, ih (hs.call r.callback)⟩

end Handler

namespace Replay
variable {p q : Replay} {e : Event} {n : Nat} {es : List Event}

theorem deliver_accepted {r : Record} (h : ∀ g ∈ p.handlers, g.fault? r.callback = none) :
    p.deliver r = .ok ⟨p.handlers.map (·.step r), p.summary.count r⟩ := by
  rw [deliver, List.findSome?_eq_none_iff.mpr h]

theorem deliver_ok {r : Record} (h : p.deliver r = .ok q) :
    (∀ g ∈ p.handlers, g.fault? r.callback = none) ∧
      q = ⟨p.handlers.map (·.step r), p.summary.count r⟩ := by
  unfold deliver at h
  split at h
  · cases h
  · rename_i hnone
    exact ⟨List.findSome?_eq_none_iff.mp hnone, (Except.ok.inj h).symm⟩

theorem run_from_record {r : Record} (h : e.record? = some r) :
    p.runFrom n (e :: es) = (p.deliver r).bind fun p => p.runFrom (n + 1) es := by
  rw [runFrom, step, Event.decode_of_record h]

theorem run_from_fault {m : String} (h : e.fault? = some m) :
    p.runFrom n (e :: es) =
      runFrom { p with summary := p.summary.skip n m } (n + 1) es := by
  obtain ⟨cause, hd⟩ := Event.decode_of_fault h
  rw [runFrom, step, hd]
  rfl

theorem run_from_unsettled (h : ¬e.Settles) : p.runFrom n (e :: es) = .error .unwritable := by
  rw [Event.settles_iff, not_not] at h
  rw [runFrom, step, h]
  rfl

/-- A stream that settles is replayed to its end by handlers that accept its records. -/
theorem run_from_settled (h : ∀ e ∈ es, e.Settles)
    (ha : ∀ g ∈ p.handlers, g.Accepts (deliveries es)) :
    p.runFrom n es = .ok ⟨p.handlers.map (·.run (deliveries es)), p.summary.after n es⟩ := by
  induction es generalizing p n with
  | nil =>
    have hsame : p.handlers.map (·.run (deliveries [])) = p.handlers := List.map_id p.handlers
    rw [runFrom, hsame, Summary.after_nil]
  | cons e es ih =>
    have hrest : ∀ f ∈ es, f.Settles := fun f hf => h f (List.mem_cons_of_mem e hf)
    rcases Event.record_or_fault (h e List.mem_cons_self) with ⟨r, hr⟩ | ⟨m, hm⟩
    · rw [deliveries_record es hr] at ha ⊢
      have hcalled : ∀ g ∈ p.handlers.map (·.step r), g.Accepts (deliveries es) :=
        List.forall_mem_map.mpr fun g hg => (ha g hg).2
      rw [run_from_record hr, deliver_accepted fun g hg => (ha g hg).1, Except.bind,
        ih hrest hcalled, Summary.after_record _ n es hr, List.map_map]
      rfl
    · rw [deliveries_fault es hm] at ha ⊢
      rw [run_from_fault hm, Summary.after_fault _ n es hm]
      exact ih hrest ha

/-- No other stream is replayed to its end, and by no handlers that fail. -/
theorem run_from_ok (h : p.runFrom n es = .ok q) :
    (∀ e ∈ es, e.Settles) ∧ ∀ g ∈ p.handlers, g.Accepts (deliveries es) := by
  induction es generalizing p n with
  | nil => exact ⟨fun e he => absurd he List.not_mem_nil, fun g _ => trivial⟩
  | cons e es ih =>
    by_cases he : e.Settles
    · rcases Event.record_or_fault he with ⟨r, hr⟩ | ⟨m, hm⟩
      · rw [run_from_record hr] at h
        cases hd : p.deliver r with
        | error f => rw [hd] at h; cases h
        | ok p' =>
          rw [hd] at h
          obtain ⟨hcalled, rfl⟩ := deliver_ok hd
          obtain ⟨hrest, haccepts⟩ := ih h
          rw [deliveries_record es hr]
          exact ⟨List.forall_mem_cons.mpr ⟨he, hrest⟩,
            fun g hg => ⟨hcalled g hg, haccepts _ (List.mem_map_of_mem hg)⟩⟩
      · rw [run_from_fault hm] at h
        obtain ⟨hrest, haccepts⟩ := ih h
        rw [deliveries_fault es hm]
        exact ⟨List.forall_mem_cons.mpr ⟨he, hrest⟩, haccepts⟩
    · rw [run_from_unsettled he] at h
      cases h

/-- An event that does not settle ends a replay in which no handler fails. -/
theorem run_from_unwritable (hs : ∀ g ∈ p.handlers, g.Steady) (h : ∃ e ∈ es, ¬e.Settles) :
    p.runFrom n es = .error .unwritable := by
  induction es generalizing p n with
  | nil => simp at h
  | cons e es ih =>
    by_cases he : e.Settles
    · have hrest : ∃ f ∈ es, ¬f.Settles := by simpa [he] using h
      rcases Event.record_or_fault he with ⟨r, hr⟩ | ⟨m, hm⟩
      · have hcalled : ∀ g ∈ p.handlers.map (·.step r), g.Steady :=
          List.forall_mem_map.mpr fun g hg => (hs g hg).call _
        rw [run_from_record hr, deliver_accepted fun g hg => hs g hg [] r.callback, Except.bind,
          ih hcalled hrest]
      · rw [run_from_fault hm]
        exact ih hs hrest
    · exact run_from_unsettled he

theorem run_settled {handlers : List Handler} (h : ∀ e ∈ es, e.Settles)
    (ha : ∀ g ∈ handlers, g.Accepts (deliveries es)) :
    run handlers es = .ok ⟨handlers.map (·.run (deliveries es)), Summary.empty.after 1 es⟩ :=
  run_from_settled (p := start handlers) h ha

theorem run_ok {handlers : List Handler} (h : run handlers es = .ok q) :
    (∀ e ∈ es, e.Settles) ∧ ∀ g ∈ handlers, g.Accepts (deliveries es) :=
  run_from_ok (p := start handlers) h

end Replay

section Replays
variable {handlers : List Handler} {es : List Event}

/-- The clock is read twice, and the summary is logged. -/
theorem run_replay (h : ∀ e ∈ es, e.Settles) (ha : ∀ g ∈ handlers, g.Accepts (deliveries es))
    (w : Workspace) : ∃ (duration : Binary64) (v : Workspace),
      (replay es handlers).run.run w = (.ok ⟨handlers.map (·.run (deliveries es)),
        { Summary.empty.after 1 es with duration }⟩, v) := by
  unfold replay
  rw [Replay.run_settled h ha]
  exact ⟨_, _, rfl⟩

theorem run_replay_unwritable (hs : ∀ g ∈ handlers, g.Steady) (h : ∃ e ∈ es, ¬e.Settles)
    (w : Workspace) : ∃ v, (replay es handlers).run.run w = (.error .unwritable, v) := by
  unfold replay
  rw [Replay.run, Replay.run_from_unwritable (p := .start handlers) hs h]
  exact ⟨_, rfl⟩

end Replays

/-- Handlers end a replay as if the stream had held nothing but records: each got one call for each
of them, in order, with the fields of the record. The summary does not depend on the handlers: it
counts the records by their sort, and has one message for every other event, with its position. -/
theorem replay_skips_malformed {es : List Event} (h : ∀ e ∈ es, e.Settles)
    {handlers : List Handler} (hs : ∀ g ∈ handlers, g.Steady) :
    let records := es.filterMap Event.record?
    let calls : List Callback := records.map fun
      | .completion r => .query r.node r.kind r.text r.id r.startTime r.duration r.success
      | .reads r => .queryReads r.reporter r.kind r.origin r.id r.logical r.physical
      | .rows r => .queryRows r.reporter r.kind r.origin r.id r.action r.rows
      | .property r => .queryProperty r.reporter r.kind r.origin r.id r.name r.value
    let called := handlers.map fun g => calls.foldl Handler.call g
    (∀ c before, calls.foldl Handler.call (.custom c before) = .custom c (before ++ calls)) ∧
    (∀ a, calls.foldl Handler.call (.aggregator a) = .aggregator (a.run records)) ∧
    (∀ g, calls.foldl Handler.call (.guarded g) = .guarded (calls.foldl Handler.call g)) ∧
    (∃ t, Replay.run handlers (es.filter (·.record?.isSome)) = .ok ⟨called, t⟩) ∧
    ∃ s : Summary,
      Replay.run handlers es = .ok ⟨called, s⟩ ∧
      (∀ w, ∃ (duration : Binary64) (v : Workspace),
        (replay es handlers).run.run w = (.ok ⟨called, { s with duration }⟩, v)) ∧
      s.queries = (records.filterMap Record.completion?).length ∧
      s.reads = (records.filterMap Record.reads?).length ∧
      s.rows = (records.filterMap Record.rows?).length ∧
      s.properties = (records.filterMap Record.property?).length ∧
      s.delivered + s.skipped = es.length ∧
      s.errors.length = s.skipped ∧
      s.errors = (es.zipIdx 1).filterMap fun p =>
        p.1.fault?.map fun m => "event " ++ toString p.2 ++ ": " ++ m := by
  intro records calls called
  have hcalls : calls = records.map Record.callback :=
    List.map_congr_left fun r _ => by cases r <;> rfl
  have hcalled : called = handlers.map (·.run (deliveries es)) := by
    refine List.map_congr_left fun g _ => ?_
    rw [hcalls, Handler.run_calls]
    rfl
  have haccepts : ∀ g ∈ handlers, g.Accepts (deliveries es) := fun g hg => (hs g hg).accepts _
  have hdecodable : ∀ e ∈ es.filter (·.record?.isSome), e.Settles :=
    fun e he => Or.inl (List.mem_filter.mp he).2
  have hrun := Replay.run_settled hdecodable fun g hg => (hs g hg).accepts _
  rw [deliveries_decodable] at hrun
  refine ⟨fun c before => Handler.custom_calls c before calls, fun a => ?_,
    fun g => Handler.guarded_calls g calls, hcalled ▸ ⟨_, hrun⟩, Summary.empty.after 1 es,
    hcalled ▸ Replay.run_settled h haccepts, fun w => hcalled ▸ run_replay h haccepts w, ?_, ?_, ?_,
    ?_, ?_, ?_, ?_⟩
  · rw [hcalls]
    exact ((Handler.aggregator a).run_calls records).symm.trans (Handler.run_aggregator a records)
  · exact Int.zero_add _
  · exact Int.zero_add _
  · exact Int.zero_add _
  · exact Int.zero_add _
  · have hsorts := (deliveries es).length_sorts
    have hall := deliveries_add_rejections h 1
    simp only [Summary.delivered, Summary.after, Summary.empty, Int.zero_add]
    omega
  · simp [Summary.after, Summary.empty]
  · simp only [Summary.after, Summary.empty, List.nil_append, rejections, List.map_filterMap,
      Option.map_map]
    rfl

/-- Facts that one node reports about another one, between two events that are no records. -/
theorem replay_of_mixed_stream :
    let facts : Payload := .mapping [("type", .str "queryReads"), ("nodeId", .str "m"),
      ("kind", .kind .scan), ("queryNodeId", .str "n"), ("id", .int 1), ("logicalReads", .int 2),
      ("physicalReads", .int 3)]
    let es : List Event := [.payload (.list []), .payload facts, .payload (.mapping [])]
    (∀ e ∈ es, e.Settles) ∧ (∀ g ∈ [Handler.recorder []], g.Steady) ∧
    ∃ s : Summary,
      Replay.run [.recorder []] es =
        .ok ⟨[.recorder [.queryReads (.named "m") .scan (.named "n") 1 2 3]], s⟩ ∧
      s.reads = 1 ∧
      s.delivered + s.skipped = 3 ∧
      s.errors = ["event 1: Unsupported event payload: list",
        "event 3: Unknown event type: None"] := by
  intro facts es
  have h : ∀ e ∈ es, e.Settles := by decide
  have hs : ∀ g ∈ [Handler.recorder []], g.Steady :=
    List.forall_mem_singleton.mpr (Handler.custom_steady (fun _ _ => rfl) [])
  obtain ⟨-, -, -, -, s, hrun, -, -, hreads, -, -, htotal, -, herrors⟩ :=
    replay_skips_malformed h hs
  exact ⟨h, hs, s, hrun, hreads, htotal, herrors⟩

end QueryTelemetry
