import QueryTelemetry.Proofs.Decoding

/-!
# Records as mappings

A record is written as a mapping of its fields, in which its nodes stand by their texts. Decoding
the mapping gives the record back with its nodes named by these texts. All decoded records name
their nodes so, and are normal forms: written and decoded again they are unchanged. A replay sees of
its events only what they decode to, so payloads, their records and the mappings of these are
replayed alike.
-/

set_option autoImplicit false

namespace QueryTelemetry

def NodeId.named? (n : NodeId) : Option NodeId := n.text?.map .named

def NodeId.Named (n : NodeId) : Prop := ∃ s, n = .named s

theorem NodeId.named_self_iff (n : NodeId) : n.named? = some n ↔ n.Named := by
  cases n with
  | named s => exact iff_of_true rfl ⟨s, rfl⟩
  | numbered | other =>
    refine iff_of_false (fun h => ?_) fun ⟨s, hs⟩ => nomatch hs
    obtain ⟨s, -, hs⟩ := Option.map_eq_some_iff.mp h
    cases hs

namespace Record

def named? : Record → Option Record
  | .completion c => c.node.named?.map fun node => .completion { c with node }
  | .reads r => do
    return .reads { r with reporter := ← r.reporter.named?, origin := ← r.origin.named? }
  | .rows r => do
    return .rows { r with reporter := ← r.reporter.named?, origin := ← r.origin.named? }
  | .property r => do
    return .property { r with reporter := ← r.reporter.named?, origin := ← r.origin.named? }

def Named : Record → Prop
  | .completion c => c.node.Named
  | .reads r => r.reporter.Named ∧ r.origin.Named
  | .rows r => r.reporter.Named ∧ r.origin.Named
  | .property r => r.reporter.Named ∧ r.origin.Named

theorem named_of_named {r : Record} (h : r.Named) : r.named? = some r := by
  cases r with
  | completion c => rw [named?, c.node.named_self_iff.mpr h, Option.map_some]
  | reads r | rows r | property r =>
    rw [named?, r.reporter.named_self_iff.mpr h.1, r.origin.named_self_iff.mpr h.2]
    rfl

end Record

theorem Payload.names_written_kind (k : QueryKind) : (Payload.str k.name).NamesKind k :=
  .word (by cases k <;> decide +kernel)

namespace Fields
variable {m : Fields} {f : String}

theorem at_kind {k : QueryKind} (h : m.get? f = some (.str k.name)) : m.At f (·.NamesKind k) :=
  ⟨_, h, nofun, Payload.names_written_kind k⟩

theorem at_text {s : String} (h : m.get? f = some (.str s)) : m.At f (·.NamesText s) :=
  ⟨_, h, nofun, rfl⟩

theorem at_node {s : String} (h : m.get? f = some (.str s)) : m.At f (·.NamesNode (.named s)) :=
  ⟨_, h, nofun, s, rfl, rfl⟩

theorem at_integer {n : Int} (h : m.get? f = some (.int n)) : m.At f (·.NamesInteger n) :=
  ⟨_, h, nofun, .integer n⟩

theorem at_flag {b : Bool} (h : m.get? f = some (.bool b)) : m.At f (·.NamesFlag b) :=
  ⟨_, h, nofun, .flag b⟩

end Fields

namespace Record
open Fields

theorem decode_fields (r : Record) :
    r.fields?.map (fun m => (Payload.mapping m).decode) = r.named?.map .ok := by
  cases r with
  | completion c =>
    simp only [fields?, named?, NodeId.named?]
    cases c.node.text? with
    | none => rfl
    | some s =>
      refine congrArg some ((Payload.decode_ok_iff _ _).mpr ⟨_, rfl, rfl, ?_⟩)
      exact ⟨at_kind rfl, at_text rfl, at_node rfl, at_integer rfl, at_integer rfl, at_integer rfl,
        at_flag rfl⟩
  | reads r =>
    simp only [fields?, named?, NodeId.named?]
    cases r.reporter.text? with
    | none => rfl
    | some s =>
      cases r.origin.text? with
      | none => rfl
      | some t =>
        refine congrArg some ((Payload.decode_ok_iff _ _).mpr ⟨_, rfl, rfl, ?_⟩)
        exact ⟨at_node rfl, at_kind rfl, at_node rfl, at_integer rfl, at_integer rfl,
          at_integer rfl⟩
  | rows r =>
    simp only [fields?, named?, NodeId.named?]
    cases r.reporter.text? with
    | none => rfl
    | some s =>
      cases r.origin.text? with
      | none => rfl
      | some t =>
        refine congrArg some ((Payload.decode_ok_iff _ _).mpr ⟨_, rfl, rfl, ?_⟩)
        exact ⟨at_node rfl, at_kind rfl, at_node rfl, at_integer rfl, at_text rfl, at_integer rfl⟩
  | property r =>
    simp only [fields?, named?, NodeId.named?]
    cases r.reporter.text? with
    | none => rfl
    | some s =>
      cases r.origin.text? with
      | none => rfl
      | some t =>
        refine congrArg some ((Payload.decode_ok_iff _ _).mpr ⟨_, rfl, rfl, ?_⟩)
        exact ⟨at_node rfl, at_kind rfl, at_node rfl, at_integer rfl, at_text rfl, at_text rfl⟩

theorem decode_fields_named {r : Record} (h : r.Named) :
    ∃ m, r.fields? = some m ∧ (Payload.mapping m).decode = .ok r := by
  have hdecode := r.decode_fields
  rw [named_of_named h] at hdecode
  exact Option.map_eq_some_iff.mp hdecode

end Record

theorem Fields.At.named {m : Fields} {f : String} {n : NodeId} (h : m.At f (·.NamesNode n)) :
    n.Named := by
  obtain ⟨p, -, -, s, -, hn⟩ := h
  exact ⟨s, hn⟩

theorem Payload.named_of_decode {p : Payload} {r : Record} (h : p.decode = .ok r) : r.Named := by
  obtain ⟨m, -, -, hholds⟩ := (decode_ok_iff p r).mp h
  cases r with
  | completion c => exact hholds.2.2.1.named
  | reads r | rows r | property r => exact ⟨hholds.1.named, hholds.2.2.1.named⟩

namespace Replay

theorem step_congr (p : Replay) (position : Nat) {e f : Event} (h : e.decode = f.decode) :
    p.step position e = p.step position f := by
  rw [step, step, h]

/-- A replay depends on what its events decode to. -/
theorem run_congr (handlers : List Handler) {es fs : List Event}
    (h : es.map Event.decode = fs.map Event.decode) : run handlers es = run handlers fs := by
  have hfrom : ∀ (p : Replay) (n : Nat), p.runFrom n es = p.runFrom n fs := by
    induction es generalizing fs with
    | nil =>
      rw [List.map_eq_nil_iff.mp h.symm]
      exact fun _ _ => rfl
    | cons e es ih =>
      obtain ⟨f, fs, rfl, hf, hfs⟩ := List.map_eq_cons_iff.mp h.symm
      intro p n
      rw [runFrom, runFrom, step_congr p n hf.symm]
      simp only [ih hfs.symm]
  exact hfrom (start handlers) 1

end Replay

theorem replay_congr (handlers : List Handler) {es fs : List Event}
    (h : es.map Event.decode = fs.map Event.decode) : replay es handlers = replay fs handlers := by
  rw [replay, replay, Replay.run_congr handlers h]

theorem decode_decodable (es : List Event) :
    (es.filter (·.record?.isSome)).map Event.decode = (deliveries es).map .ok := by
  induction es with
  | nil => rfl
  | cons e es ih =>
    cases hr : e.record? with
    | none =>
      rw [List.filter_cons_of_neg (by simp [hr]), deliveries, List.filterMap_cons_none hr, ih,
        deliveries]
    | some r =>
      rw [List.filter_cons_of_pos (by simp [hr]), deliveries_record es hr, List.map_cons,
        List.map_cons, ih, Event.decode_of_record hr]

theorem deliveries_named (ps : List Payload) : ∀ r ∈ deliveries (ps.map .payload), r.Named := by
  intro r hr
  obtain ⟨e, he, her⟩ := List.mem_filterMap.mp hr
  obtain ⟨p, -, rfl⟩ := List.mem_map.mp he
  exact Payload.named_of_decode (Event.decode_of_record her)

theorem decode_mappings {rs : List Record} (h : ∀ r ∈ rs, r.Named) : ∃ ms,
    rs.mapM Record.fields? = some ms ∧
      ms.map (fun m => (Payload.mapping m).decode) = rs.map .ok := by
  induction rs with
  | nil => exact ⟨[], rfl, rfl⟩
  | cons r rs ih =>
    obtain ⟨hr, hrest⟩ := List.forall_mem_cons.mp h
    obtain ⟨m, hm, hdecode⟩ := Record.decode_fields_named hr
    obtain ⟨ms, hms, hmap⟩ := ih hrest
    refine ⟨m :: ms, ?_, ?_⟩
    · rw [List.mapM_cons, hm, hms]
      rfl
    · rw [List.map_cons, List.map_cons, hdecode, hmap]

/-- A record's mapping is decoded as the record with its nodes named, so as the record itself if
they are. That they are holds of all decoded records, whatever spelling they were decoded from.
Accepted payloads, their records and the mappings of these are replayed alike by any handlers, and
to the end by those that accept the records. -/
theorem mappings_round_trip :
    (∀ r : Record, r.fields?.map (fun m => (Payload.mapping m).decode) = r.named?.map .ok ∧
      (r.Named → r.named? = some r)) ∧
    (∀ (p : Payload) (r : Record), p.decode = .ok r →
      r.Named ∧ ∃ m, r.fields? = some m ∧ (Payload.mapping m).decode = .ok r) ∧
    ∀ (ps : List Payload) (handlers : List Handler),
      let accepted := (ps.map Event.payload).filter (·.record?.isSome)
      let records := deliveries (ps.map .payload)
      ∃ ms, records.mapM Record.fields? = some ms ∧
        Replay.run handlers accepted = Replay.run handlers (records.map .record) ∧
        Replay.run handlers (ms.map fun m => .payload (.mapping m)) =
          Replay.run handlers (records.map .record) ∧
        replay accepted handlers = replay (records.map .record) handlers ∧
        replay (ms.map fun m => .payload (.mapping m)) handlers =
          replay (records.map .record) handlers ∧
        ((∀ g ∈ handlers, g.Accepts records) → ∃ q,
          Replay.run handlers (records.map .record) = .ok q ∧
          q.handlers = handlers.map (·.run records)) := by
  refine ⟨fun r => ⟨r.decode_fields, Record.named_of_named⟩, fun p r h => ?_, fun ps handlers => ?_⟩
  · have hnamed := Payload.named_of_decode h
    exact ⟨hnamed, Record.decode_fields_named hnamed⟩
  · intro accepted records
    obtain ⟨ms, hms, hmappings⟩ := decode_mappings (deliveries_named ps)
    have hrecords : (records.map Event.record).map Event.decode = records.map .ok := by
      rw [List.map_map]
      rfl
    have haccepted : accepted.map Event.decode = (records.map Event.record).map Event.decode := by
      rw [decode_decodable, hrecords]
    have hmapped : (ms.map fun m => Event.payload (.mapping m)).map Event.decode =
        (records.map Event.record).map Event.decode := by
      rw [hrecords, ← hmappings, List.map_map]
      rfl
    have hsettles : ∀ e ∈ records.map Event.record, e.Settles := by
      intro e he
      obtain ⟨r, -, rfl⟩ := List.mem_map.mp he
      exact .inl rfl
    have hdelivered : deliveries (records.map .record) = records := by
      rw [deliveries, List.filterMap_map]
      exact List.filterMap_some
    refine ⟨ms, hms, Replay.run_congr handlers haccepted, Replay.run_congr handlers hmapped,
      replay_congr handlers haccepted, replay_congr handlers hmapped, fun ha => ?_⟩
    rw [← hdelivered] at ha
    refine ⟨_, Replay.run_settled hsettles ha, ?_⟩
    rw [hdelivered]

/-- A completion in loose spelling, and the record that its mapping gives back. -/
theorem mapping_of_loose_completion :
    let p : Payload := .mapping [("type", .str "query"), ("kind", .int 3), ("text", .bool true),
      ("nodeId", .int 7), ("id", .str " +1_0 "), ("startTime", .str "-0"), ("duration", .int 4),
      ("success", .str "Yes")]
    let r : Record := .completion ⟨.sqlFields, "True", .named "7", 10, 0, 4, true⟩
    p.decode = .ok r ∧ r.Named ∧
      ∃ m, r.fields? = some m ∧ (Payload.mapping m).decode = .ok r := by
  intro p r
  have hnode : (Payload.int 7).text? = some "7" := by decide +kernel
  have hid : Integer.read? " +1_0 " = some 10 := by decide +kernel
  have hstart : Integer.read? "-0" = some 0 := by decide +kernel
  have hdecode : p.decode = .ok r := by
    refine (Payload.decode_ok_iff p r).mpr ⟨_, rfl, rfl, ⟨_, rfl, nofun, .ordinal .sqlFields⟩,
      ⟨_, rfl, nofun, rfl⟩, ⟨_, rfl, nofun, _, hnode, rfl⟩, ⟨_, rfl, nofun, ?_⟩,
      ⟨_, rfl, nofun, ?_⟩, ⟨_, rfl, nofun, .integer 4⟩, ⟨_, rfl, nofun, .yes (by decide)⟩⟩
    · exact .text ((Integer.read_iff _ _).mp hid)
    · exact .text ((Integer.read_iff _ _).mp hstart)
  exact ⟨hdecode, mappings_round_trip.2.1 p r hdecode⟩

end QueryTelemetry
