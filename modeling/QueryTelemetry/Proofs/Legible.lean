import QueryTelemetry.Proofs.Callbacks
import QueryTelemetry.Proofs.Slowest

/-!
# Payloads that can be reported

Whoever rejects a payload shows the value at fault, and shows it whole. That cannot be done if an
integer past the digit limit stands anywhere in the value; then there is no rejection and no
record either, and the replay ends. A number in a field for numbers is used and never shown, so it
may be of any size. Streams without other long integers are replayed to their end. Whatever was
replayed can be reported, since the node of a decoded completion is a text.
-/

set_option autoImplicit false

namespace QueryTelemetry

namespace Payload

mutual

def integers : Payload → List Int
  | .int n => [n]
  | .list items => itemIntegers items
  | .mapping fields => fieldIntegers fields
  | _ => []

def itemIntegers : List Payload → List Int
  | [] => []
  | p :: r => integers p ++ itemIntegers r

def fieldIntegers : List (String × Payload) → List Int
  | [] => []
  | (_, p) :: r => integers p ++ fieldIntegers r

end

def AllShort (ns : List Int) : Prop := ∀ n ∈ ns, n.natAbs < Integer.ceiling

def Short (p : Payload) : Prop := AllShort p.integers

def isInteger : Payload → Bool
  | .int _ => true
  | _ => false

instance : DecidablePred Short := fun p =>
  inferInstanceAs (Decidable (∀ n ∈ p.integers, n.natAbs < Integer.ceiling))

theorem all_short_append (ms ns : List Int) : AllShort (ms ++ ns) ↔ AllShort ms ∧ AllShort ns :=
  List.forall_mem_append

theorem chars_iff_short (n : Int) : (Integer.chars? n).isSome ↔ AllShort [n] := by
  rw [Option.isSome_iff_ne_none, ne_eq, Integer.chars_none_iff, AllShort]
  simp

mutual

theorem inner_iff_short : ∀ p : Payload, p.inner?.isSome ↔ p.Short
  | .int n => chars_iff_short n
  | .list items => by
    rw [inner?, Option.isSome_map]
    exact inner_items_iff_short items
  | .mapping fields => by
    rw [inner?, Option.isSome_map]
    exact inner_fields_iff_short fields
  | .null | .bool _ | .float _ | .str _ | .kind _ => by simp [inner?, Short, integers, AllShort]

theorem inner_items_iff_short : ∀ items : List Payload,
    (innerItems? items).isSome ↔ AllShort (itemIntegers items)
  | [] => by simp [innerItems?, itemIntegers, AllShort]
  | p :: r => by
    rw [itemIntegers, all_short_append, ← inner_items_iff_short r]
    rw [← Short, ← inner_iff_short p, innerItems?]
    cases p.inner? <;> cases innerItems? r <;> simp

theorem inner_fields_iff_short : ∀ fields : List (String × Payload),
    (innerFields? fields).isSome ↔ AllShort (fieldIntegers fields)
  | [] => by simp [innerFields?, fieldIntegers, AllShort]
  | (_, p) :: r => by
    rw [fieldIntegers, all_short_append, ← inner_fields_iff_short r]
    rw [← Short, ← inner_iff_short p, innerFields?]
    cases p.inner? <;> cases innerFields? r <;> simp

end

theorem shown_iff_short (p : Payload) : p.shown?.isSome ↔ p.Short := by
  rw [shown?, Option.isSome_map, inner_iff_short]

theorem shown_int (n : Int) : (Payload.int n).shown? = Integer.text? n := by
  rw [shown?, inner?, Integer.text?]

theorem text_of_short {p : Payload} (h : p.Short) : p.text?.isSome := by
  have hshown := (shown_iff_short p).mpr h
  cases p with
  | str s => rfl
  | kind k => rfl
  | null | bool _ | int _ | float _ | list _ | mapping _ => exact hshown

end Payload

/-- A value, or a rejection that says why there is none. -/
def Answered {α : Type} (x : Decoded α) : Prop := x ≠ .error .unwritable

theorem answered_ok {α : Type} (a : α) : Answered (.ok a) := by
  simp [Answered]

/-- Each step may rely on what the steps before it gave. -/
theorem Answered.bind {α β : Type} {x : Decoded α} {f : α → Decoded β} (hx : Answered x)
    (hf : ∀ a, x = .ok a → Answered (f a)) : Answered (x >>= f) := by
  cases x with
  | ok a => exact hf a rfl
  | error e => cases e with
    | malformed cause m => simp [Answered, Bind.bind, Except.bind]
    | unwritable => exact absurd rfl hx

theorem bind_ok_iff {ε α β : Type} {x : Except ε α} {f : α → Except ε β} {b : β} :
    x >>= f = .ok b ↔ ∃ a, x = .ok a ∧ f a = .ok b := by
  cases x <;> simp [Bind.bind, Except.bind]

theorem refused_iff {α : Type} (cause : DecodeError) :
    Answered (refuse cause : Decoded α) ↔ cause.message?.isSome := by
  unfold refuse
  cases cause.message? <;> simp [Answered]

theorem refuse_ne_ok {α : Type} (cause : DecodeError) (a : α) : refuse cause ≠ .ok a := by
  unfold refuse
  split <;> simp

theorem refused_shown {α : Type} {p : Payload} (h : p.Short) {cause : DecodeError}
    {text : String} (hm : cause.message? = p.shown?.map (text ++ ·)) :
    Answered (refuse cause : Decoded α) := by
  rw [refused_iff, hm, Option.isSome_map, Payload.shown_iff_short]
  exact h

theorem QueryKind.parse_answered {p : Payload} (h : p.Short) : Answered (parse p) := by
  unfold parse
  split
  · exact answered_ok _
  · split
    · exact answered_ok _
    · exact refused_shown h (by rw [Payload.shown_int, DecodeError.message?])
  · split
    · exact answered_ok _
    · exact refused_shown h rfl
  · exact refused_shown h rfl

namespace Fields

def shown : List String :=
  ["type", "kind", "text", "nodeId", "queryNodeId", "action", "name", "value"]

def numeric : List String :=
  ["id", "startTime", "duration", "success", "logicalReads", "physicalReads", "rows"]

/-- No long integer is in the way of a rejection. -/
def Legible (m : Fields) : Prop :=
  (∀ f ∈ shown, ∀ p ∈ m.get? f, p.Short) ∧
  ∀ f ∈ numeric, ∀ p ∈ m.get? f, p.isInteger ∨ p.Short

instance : DecidablePred Legible := fun m =>
  inferInstanceAs (Decidable ((∀ f ∈ shown, ∀ p ∈ m.get? f, p.Short) ∧
    ∀ f ∈ numeric, ∀ p ∈ m.get? f, p.isInteger ∨ p.Short))

theorem required_answered (m : Fields) (f : String) : Answered (required m f) := by
  unfold required
  split
  · rw [refused_iff]
    rfl
  · rw [refused_iff]
    rfl
  · exact answered_ok _

theorem required_ok {m : Fields} {f : String} {p : Payload} (h : required m f = .ok p) :
    m.get? f = some p := by
  unfold required at h
  split at h
  · cases h
  · cases h
  · rename_i q hq
    rw [hq, Except.ok.inj h]

section Readers
variable {m : Fields} (hm : m.Legible) {f : String}
include hm

theorem text_answered (hf : f ∈ shown) : Answered (text m f) := by
  refine (required_answered m f).bind fun p hp => ?_
  have hshort := hm.1 f hf p (required_ok hp)
  obtain ⟨s, hs⟩ := Option.isSome_iff_exists.mp (Payload.text_of_short hshort)
  rw [hs]
  exact answered_ok s

theorem node_answered (hf : f ∈ shown) : Answered (node m f) :=
  (text_answered hm hf).bind fun s _ => answered_ok (NodeId.named s)

theorem kind_answered : Answered (kind m) :=
  (required_answered m "kind").bind fun p hp =>
    QueryKind.parse_answered (hm.1 "kind" (by decide) p (required_ok hp))

theorem numeric_answered {α : Type} (hf : f ∈ numeric) {read : Payload → Decoded α}
    (hshort : ∀ p, p.Short → Answered (read p)) (hint : ∀ n, Answered (read (.int n))) :
    Answered (required m f >>= read) := by
  refine (required_answered m f).bind fun p hp => ?_
  rcases hm.2 f hf p (required_ok hp) with hi | hs
  · cases p with
    | int n => exact hint n
    | null | bool _ | float _ | str _ | list _ | mapping _ | kind _ => cases hi
  · exact hshort p hs

theorem integer_answered (hf : f ∈ numeric) : Answered (integer m f) := by
  refine numeric_answered hm hf (fun p hp => ?_) answered_ok
  split
  · exact answered_ok _
  · exact refused_shown hp rfl

theorem boolean_answered (hf : f ∈ numeric) : Answered (boolean m f) := by
  refine numeric_answered hm hf (fun p hp => ?_) fun n => answered_ok (n != 0)
  split
  · exact answered_ok _
  · exact refused_shown hp rfl

theorem completion_answered : Answered (completion m) :=
  (kind_answered hm).bind fun _ _ =>
  (text_answered hm (by decide)).bind fun _ _ =>
  (node_answered hm (by decide)).bind fun _ _ =>
  (integer_answered hm (by decide)).bind fun _ _ =>
  (integer_answered hm (by decide)).bind fun _ _ =>
  (integer_answered hm (by decide)).bind fun _ _ =>
  (boolean_answered hm (by decide)).bind fun _ _ => answered_ok _

theorem reads_answered : Answered (reads m) :=
  (node_answered hm (by decide)).bind fun _ _ =>
  (kind_answered hm).bind fun _ _ =>
  (node_answered hm (by decide)).bind fun _ _ =>
  (integer_answered hm (by decide)).bind fun _ _ =>
  (integer_answered hm (by decide)).bind fun _ _ =>
  (integer_answered hm (by decide)).bind fun _ _ => answered_ok _

theorem rows_answered : Answered (rows m) :=
  (node_answered hm (by decide)).bind fun _ _ =>
  (kind_answered hm).bind fun _ _ =>
  (node_answered hm (by decide)).bind fun _ _ =>
  (integer_answered hm (by decide)).bind fun _ _ =>
  (text_answered hm (by decide)).bind fun _ _ =>
  (integer_answered hm (by decide)).bind fun _ _ => answered_ok _

theorem property_answered : Answered (property m) :=
  (node_answered hm (by decide)).bind fun _ _ =>
  (kind_answered hm).bind fun _ _ =>
  (node_answered hm (by decide)).bind fun _ _ =>
  (integer_answered hm (by decide)).bind fun _ _ =>
  (text_answered hm (by decide)).bind fun _ _ =>
  (text_answered hm (by decide)).bind fun _ _ => answered_ok _

theorem record_answered : Answered (record m) := by
  unfold record
  split
  · exact completion_answered hm
  · exact reads_answered hm
  · exact rows_answered hm
  · exact property_answered hm
  · refine refused_shown ?_ rfl
    cases ht : m.get? "type" with
    | none => rw [Option.getD_none]; decide
    | some p => exact hm.1 "type" (by decide) p ht

end Readers

theorem node_named {m : Fields} {f : String} {n : NodeId} (h : node m f = .ok n) :
    n.text?.isSome := by
  unfold node at h
  cases ht : text m f with
  | ok s =>
    rw [ht] at h
    cases h
    rfl
  | error e =>
    rw [ht] at h
    cases h

/-- A decoded completion names its node by a text. -/
theorem completion_node {m : Fields} {c : Completion} (h : record m = .ok (.completion c)) :
    c.node.text?.isSome := by
  unfold record at h
  split at h
  · simp only [completion, bind_ok_iff] at h
    obtain ⟨kind, -, text, -, n, hn, id, -, startTime, -, duration, -, success, -, h⟩ := h
    cases h
    exact node_named hn
  · simp [reads, bind_ok_iff, pure, Except.pure] at h
  · simp [rows, bind_ok_iff, pure, Except.pure] at h
  · simp [property, bind_ok_iff, pure, Except.pure] at h
  · exact absurd h (refuse_ne_ok _ _)

end Fields

namespace Payload

/-- Of a payload that is no mapping only the type is shown. -/
def Legible : Payload → Prop
  | .mapping fields => Fields.Legible fields
  | _ => True

instance : DecidablePred Legible
  | .mapping fields => inferInstanceAs (Decidable (Fields.Legible fields))
  | .null | .bool _ | .int _ | .float _ | .str _ | .list _ | .kind _ =>
    inferInstanceAs (Decidable True)

theorem decode_answered {p : Payload} (h : p.Legible) : Answered p.decode := by
  unfold decode
  split
  · exact Fields.record_answered h
  · rw [refused_iff]
    rfl

theorem decode_node {p : Payload} {c : Completion} (h : p.decode = .ok (.completion c)) :
    c.node.text?.isSome := by
  unfold decode at h
  split at h
  · exact Fields.completion_node h
  · exact absurd h (refuse_ne_ok _ _)

/-- A type that is an integer is shown, and cannot be if it is too long. -/
theorem decode_of_numeric_type {m : Fields} {n : Int} (h : m.get? "type" = some (.int n)) :
    (mapping m).decode = .error .unwritable ↔ Integer.ceiling ≤ n.natAbs := by
  have hrefused : (mapping m).decode = refuse (.unknownType (.int n)) := by
    rw [decode, Fields.record, h, Option.getD_some]
  have hanswered : Answered (mapping m).decode ↔ (Integer.chars? n).isSome := by
    rw [hrefused, refused_iff, DecodeError.message?, Option.isSome_map, shown_int, Integer.text?,
      Option.isSome_map]
  rw [← Integer.chars_none_iff, ← Option.not_isSome_iff_eq_none, ← hanswered, Answered, not_not]

end Payload

theorem completions_named (ps : List Payload) :
    ∀ c ∈ (deliveries (ps.map .payload)).completions, c.node.text?.isSome := by
  intro c hc
  obtain ⟨r, hr, hrc⟩ := List.mem_filterMap.mp hc
  obtain ⟨e, he, her⟩ := List.mem_filterMap.mp hr
  obtain ⟨p, -, rfl⟩ := List.mem_map.mp he
  cases r with
  | completion d =>
    cases hrc
    exact Payload.decode_node (Event.decode_of_record her)
  | reads _ | rows _ | property _ => cases hrc

theorem report_written (s : Settings) {h : History}
    (hn : ∀ c ∈ h.completions, c.node.text?.isSome) :
    ((Aggregator.start s).run h).report?.isSome := by
  have hslow (kind : QueryKind) : (((Aggregator.start s).run h).topSlowJson? kind).isSome := by
    rw [Aggregator.topSlowJson?, Option.isSome_map, top_slow_after_run, collect_eq, if_pos]
    · rfl
    · rw [List.all_map, List.all_eq_true]
      intro e he
      obtain ⟨c, hc, rfl⟩ := List.mem_map.mp (Leaderboard.mem_retained s.topSlowSize.2 he)
      rw [Function.comp_apply, slow_entry_written]
      exact hn c (List.mem_filter.mp hc).1
  rw [Aggregator.report?, Option.isSome_map, collect_eq, if_pos]
  · rfl
  · simp [hslow]

/-- Building a report takes two readings of the clock and one line of the log. -/
theorem run_results {a : Aggregator} {report : Report} (h : a.report? = some report)
    (w : Workspace) : ∃ v, (Handler.aggregator a).results.run.run w = (.ok report, v) := by
  unfold Handler.results
  rw [h]
  exact ⟨_, rfl⟩

theorem payloads_settle {ps : List Payload} (h : ∀ p ∈ ps, p.decode ≠ .error .unwritable) :
    ∀ e ∈ ps.map Event.payload, e.Settles := by
  intro e he
  obtain ⟨p, hp, rfl⟩ := List.mem_map.mp he
  exact (Event.settles_iff _).mpr (h p hp)

/-- Payloads of any shape are replayed to the end, and can be reported by every aggregator, unless
one of them can neither be decoded nor rejected; that one ends the replay. Legible payloads are no
such payloads. -/
theorem replay_of_payloads (settings : List Settings) (ps : List Payload) (w : Workspace) :
    let start := settings.map fun s => Handler.aggregator (.start s)
    let replayed := (replay (ps.map .payload) start).run.run w
    ((∀ p ∈ ps, p.decode ≠ .error .unwritable) → ∃ q v, replayed = (.ok q, v) ∧
      ∀ h ∈ q.handlers, ∀ u, ∃ report x, h.results.run.run u = (.ok report, x)) ∧
    ((∃ p ∈ ps, p.decode = .error .unwritable) → ∃ v, replayed = (.error .unwritable, v)) ∧
    ∀ p ∈ ps, p.Legible → p.decode ≠ .error .unwritable := by
  intro start replayed
  have hsteady : ∀ g ∈ start, g.Steady :=
    List.forall_mem_map.mpr fun s _ => Handler.aggregator_steady (.start s)
  refine ⟨fun h => ?_, fun h => ?_, fun p _ hp => Payload.decode_answered hp⟩
  · obtain ⟨duration, v, hrun⟩ := run_replay (payloads_settle h)
      (fun g hg => (hsteady g hg).accepts _) w
    refine ⟨_, v, hrun, fun handler hh u => ?_⟩
    obtain ⟨first, hf, rfl⟩ := List.mem_map.mp hh
    obtain ⟨s, -, rfl⟩ := List.mem_map.mp hf
    obtain ⟨report, hr⟩ := Option.isSome_iff_exists.mp (report_written s (completions_named ps))
    rw [Handler.run_aggregator]
    exact ⟨report, run_results hr u⟩
  · obtain ⟨p, hp, hd⟩ := h
    exact run_replay_unwritable hsteady
      ⟨.payload p, List.mem_map_of_mem hp, fun hs => (Event.settles_iff _).mp hs hd⟩ w

/-- Integers past the digit limit, where they are numbers and where they are never shown. -/
theorem replay_of_long_numbers :
    let facts : Payload := .mapping [("type", .str "query"), ("kind", .str "scan"),
      ("text", .str "q"), ("nodeId", .str "n"), ("id", .int Integer.ceiling),
      ("startTime", .int 0), ("duration", .str "no number"), ("success", .bool true)]
    let ps : List Payload := [facts, .list [.int Integer.ceiling], .mapping []]
    let odd : Payload := .mapping [("type", .int Integer.ceiling)]
    let start := [Handler.aggregator (.start .default)]
    let w := Workspace.start .usual []
    (∀ p ∈ ps, p.Legible) ∧ (∀ p ∈ ps, p.decode ≠ .error .unwritable) ∧
    (∃ q v, (replay (ps.map .payload) start).run.run w = (.ok q, v) ∧
      ∀ h ∈ q.handlers, ∀ u, ∃ report x, h.results.run.run u = (.ok report, x)) ∧
    odd.decode = .error .unwritable ∧
    ∃ v, (replay ([odd].map .payload) start).run.run w = (.error .unwritable, v) := by
  intro facts ps odd start w
  have hlegible : ∀ p ∈ ps, p.Legible := by decide +kernel
  have hodd : odd.decode = .error .unwritable :=
    (Payload.decode_of_numeric_type rfl).mpr (Int.natAbs_natCast _).ge
  obtain ⟨hends, -, hanswered⟩ := replay_of_payloads [.default] ps w
  have hps : ∀ p ∈ ps, p.decode ≠ .error .unwritable :=
    fun p hp => hanswered p hp (hlegible p hp)
  obtain ⟨-, hfails, -⟩ := replay_of_payloads [.default] [odd] w
  exact ⟨hlegible, hps, hends hps, hodd, hfails ⟨odd, List.mem_singleton_self odd, hodd⟩⟩

/-- A type that is a long integer ends the replay, and the completion after it is lost. -/
theorem replay_ends_at_long_type :
    let odd : Payload := .mapping [("type", .int Integer.ceiling)]
    let done : Payload := .mapping [("type", .str "query"), ("kind", .str "SQL"),
      ("text", .str "q"), ("nodeId", .str "n"), ("id", .int 1), ("startTime", .int 0),
      ("duration", .int 5), ("success", .bool true)]
    done.decode = .ok (.completion ⟨.sql, "q", .named "n", 1, 0, 5, true⟩) ∧
    (∀ r, odd.decode ≠ .ok r) ∧
    (∀ cause message, odd.decode ≠ .error (.malformed cause message)) ∧
    ∃ v, (replay [.payload odd, .payload done] [.aggregator (.start .default)]).run.run
      (.start .usual []) = (.error .unwritable, v) := by
  intro odd done
  have hodd : odd.decode = .error .unwritable :=
    (Payload.decode_of_numeric_type rfl).mpr (Int.natAbs_natCast _).ge
  refine ⟨rfl, by simp [hodd], by simp [hodd], ?_⟩
  exact run_replay_unwritable (List.forall_mem_singleton.mpr (Handler.aggregator_steady _))
    ⟨.payload odd, List.mem_cons_self, fun hs => (Event.settles_iff _).mp hs hodd⟩ _

end QueryTelemetry
