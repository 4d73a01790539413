import QueryTelemetry.Proofs.History
import QueryTelemetry.Replay

/-!
# What a stream delivers

An event settles if it gives a record or is rejected with a message. Of a stream of such events a
replay delivers the records, in their order, and accounts for every other event under its position
in the whole stream. The handlers see nothing of the events in between.
-/

set_option autoImplicit false

namespace QueryTelemetry

namespace Event

def record? (e : Event) : Option Record := e.decode.toOption

def fault? (e : Event) : Option String :=
  match e.decode with
  | .error (.malformed _ message) => some message
  | _ => none

def Settles (e : Event) : Prop := e.record?.isSome ∨ e.fault?.isSome

instance : DecidablePred Settles := fun e =>
  inferInstanceAs (Decidable (e.record?.isSome ∨ e.fault?.isSome))

theorem settles_iff (e : Event) : e.Settles ↔ e.decode ≠ .error .unwritable := by
  unfold Settles record? fault?
  rcases e.decode with ⟨_ | _⟩ | _ <;> simp [Except.toOption]

theorem decode_of_record {e : Event} {r : Record} (h : e.record? = some r) :
    e.decode = .ok r := by
  unfold record? at h
  cases hd : e.decode <;> simp_all [Except.toOption]

theorem decode_of_fault {e : Event} {m : String} (h : e.fault? = some m) :
    ∃ cause, e.decode = .error (.malformed cause m) := by
  unfold fault? at h
  split at h
  · rename_i cause message hd
    exact ⟨cause, by rw [hd, Option.some.inj h]⟩
  · cases h

theorem fault_of_record {e : Event} {r : Record} (h : e.record? = some r) : e.fault? = none := by
  rw [fault?, decode_of_record h]

theorem record_of_fault {e : Event} {m : String} (h : e.fault? = some m) : e.record? = none := by
  obtain ⟨cause, hd⟩ := decode_of_fault h
  rw [record?, hd]
  rfl

theorem record_or_fault {e : Event} (h : e.Settles) :
    (∃ r, e.record? = some r) ∨ ∃ m, e.fault? = some m :=
  h.imp Option.isSome_iff_exists.mp Option.isSome_iff_exists.mp

end Event

def deliveries (es : List Event) : History := es.filterMap Event.record?

def rejections (n : Nat) (es : List Event) : List (Nat × String) :=
  (es.zipIdx n).filterMap fun p => p.1.fault?.map fun m => (p.2, m)

def rejectionText (p : Nat × String) : String := "event " ++ toString p.1 ++ ": " ++ p.2

theorem deliveries_decodable (es : List Event) :
    deliveries (es.filter (·.record?.isSome)) = deliveries es := by
  rw [deliveries, List.filterMap_filter]
  congr 1
  funext e
  cases e.record? <;> rfl

theorem deliveries_append (es fs : List Event) :
    deliveries (es ++ fs) = deliveries es ++ deliveries fs :=
  List.filterMap_append

theorem deliveries_flatten (shards : List (List Event)) :
    deliveries shards.flatten = (shards.map deliveries).flatten :=
  List.filterMap_flatten

section Cons
variable {e : Event} (es : List Event) (n : Nat)

theorem deliveries_record {r : Record} (h : e.record? = some r) :
    deliveries (e :: es) = r :: deliveries es := by
  simp [deliveries, h]

theorem rejections_record {r : Record} (h : e.record? = some r) :
    rejections n (e :: es) = rejections (n + 1) es := by
  simp [rejections, List.zipIdx_cons, Event.fault_of_record h]

theorem deliveries_fault {m : String} (h : e.fault? = some m) :
    deliveries (e :: es) = deliveries es := by
  simp [deliveries, Event.record_of_fault h]

theorem rejections_fault {m : String} (h : e.fault? = some m) :
    rejections n (e :: es) = (n, m) :: rejections (n + 1) es := by
  simp [rejections, List.zipIdx_cons, h]

end Cons

theorem rejections_faults (n : Nat) (es : List Event) :
    (rejections n es).map Prod.snd = es.filterMap Event.fault? := by
  rw [rejections, List.map_filterMap]
  simp only [Option.map_map, Function.comp_def, Option.map_id']
  conv_rhs => rw [← List.zipIdx_map_fst n es, List.filterMap_map]
  rfl

/-- Every event of a stream that settles is delivered or accounted for. -/
theorem deliveries_add_rejections {es : List Event} (h : ∀ e ∈ es, e.Settles) (n : Nat) :
    (deliveries es).length + (rejections n es).length = es.length := by
  induction es generalizing n with
  | nil => rfl
  | cons e es ih =>
    have hrest := ih (fun f hf => h f (List.mem_cons_of_mem e hf)) (n + 1)
    rw [List.length_cons, ← hrest]
    rcases Event.record_or_fault (h e List.mem_cons_self) with ⟨r, hr⟩ | ⟨m, hm⟩
    · rw [deliveries_record es hr, rejections_record es n hr, List.length_cons]
      omega
    · rw [deliveries_fault es hm, rejections_fault es n hm, List.length_cons]
      omega

namespace History

theorem length_sorts (h : History) : h.completions.length + h.reads.length + h.rows.length +
    h.properties.length = h.length := by
  unfold completions reads rows properties
  induction h with
  | nil => rfl
  | cons r h ih =>
    cases r <;>
      simp only [List.filterMap_cons, Record.completion?, Record.reads?, Record.rows?,
        Record.property?, List.length_cons] at ih ⊢ <;> omega

end History

namespace Summary

def after (s : Summary) (n : Nat) (es : List Event) : Summary where
  queries := s.queries + (deliveries es).completions.length
  reads := s.reads + (deliveries es).reads.length
  rows := s.rows + (deliveries es).rows.length
  properties := s.properties + (deliveries es).properties.length
  skipped := s.skipped + (rejections n es).length
  duration := s.duration
  errors := s.errors ++ (rejections n es).map rejectionText

theorem after_nil (s : Summary) (n : Nat) : s.after n [] = s := by
  simp [after, deliveries, rejections, History.completions, History.reads, History.rows,
    History.properties]

theorem after_record (s : Summary) (n : Nat) {e : Event} {r : Record} (es : List Event)
    (h : e.record? = some r) : s.after n (e :: es) = (s.count r).after (n + 1) es := by
  rw [after, deliveries_record es h, rejections_record es n h]
  cases r <;>
    simp [after, count, History.completions, History.reads, History.rows, History.properties,
      List.filterMap_cons, Record.completion?, Record.reads?, Record.rows?, Record.property?,
      Int.add_assoc, Int.add_comm 1]

theorem after_fault (s : Summary) (n : Nat) {e : Event} {m : String} (es : List Event)
    (h : e.fault? = some m) : s.after n (e :: es) = (s.skip n m).after (n + 1) es := by
  rw [after, deliveries_fault es h, rejections_fault es n h]
  simp [after, skip, rejectionText, Int.add_assoc, Int.add_comm 1]

end Summary

end QueryTelemetry
