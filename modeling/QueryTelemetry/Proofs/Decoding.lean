import QueryTelemetry.Proofs.Faults

/-!
# Decoding by the grammar

The decoder accepts the payloads of the grammar, as the records that they spell, and rejects all
others; the fault that it reports is that of the first field at fault, in the order of the type's
layout.
-/

set_option autoImplicit false

namespace QueryTelemetry

namespace Payload

theorem short_of_get {m : Fields} {f : String} {p : Payload} (h : (mapping m).Short)
    (hp : m.get? f = some p) : p.Short := by
  induction m with
  | nil => cases hp
  | cons b m ih =>
    obtain ⟨k, q⟩ := b
    obtain ⟨hq, hm⟩ := (all_short_append q.integers (fieldIntegers m)).mp h
    rw [Assoc.get?] at hp
    split at hp
    · cases hp
      exact hq
    · exact ih hm hp

theorem legible_of_short {p : Payload} (h : p.Short) : p.Legible := by
  cases p with
  | mapping m =>
    exact ⟨fun f _ p hp => short_of_get h hp, fun f _ p hp => Or.inr (short_of_get h hp)⟩
  | null | bool _ | int _ | float _ | str _ | list _ | kind _ => trivial

theorem decode_of_no_mapping {p : Payload} (h : ∀ m, p ≠ .mapping m) :
    p.decode = refuse (.notMapping p) := by
  cases p with
  | mapping m => exact absurd rfl (h m)
  | null | bool _ | int _ | float _ | str _ | list _ | kind _ => rfl

theorem decode_ok_iff (p : Payload) (r : Record) : p.decode = .ok r ↔ p.Spells r := by
  by_cases hmapping : ∃ m, p = .mapping m
  · obtain ⟨m, rfl⟩ := hmapping
    rw [decode, Fields.record_ok_iff, Fields.OfSort, r.sort_tag]
    constructor
    · intro h
      exact ⟨m, rfl, h⟩
    · rintro ⟨_, hm, h⟩
      cases hm
      exact h
  · rw [decode_of_no_mapping (not_exists.mp hmapping)]
    refine iff_of_false (refuse_ne_ok _ _) ?_
    rintro ⟨m, hm, -⟩
    exact hmapping ⟨m, hm⟩

theorem FirstFault.not_grammatical {p : Payload} {cause : DecodeError} (h : p.FirstFault cause) :
    ¬ p.Grammatical := by
  rintro ⟨m, sort, rfl, hsort, hsound⟩
  cases h with
  | notMapping h => exact h m rfl
  | unknownType h => exact h sort hsort
  | field hother hfault =>
    rw [Fields.of_sort_unique hother hsort] at hfault
    exact hfault.unsound hsound

theorem FirstFault.unique {p : Payload} {cause other : DecodeError} (h : p.FirstFault cause)
    (ho : p.FirstFault other) : cause = other := by
  cases h with
  | notMapping h =>
    cases ho with
    | notMapping _ => rfl
    | unknownType _ | field _ _ => exact absurd rfl (h _)
  | unknownType h =>
    cases ho with
    | notMapping h => exact absurd rfl (h _)
    | unknownType _ => rfl
    | field hsort _ => exact absurd hsort (h _)
  | field hsort hfault =>
    cases ho with
    | notMapping h => exact absurd rfl (h _)
    | unknownType h => exact absurd hsort (h _)
    | field hother hofault =>
      rw [Fields.of_sort_unique hother hsort] at hofault
      exact hfault.unique hofault

theorem decode_malformed {p : Payload} {cause : DecodeError} {message : String}
    (h : p.decode = .error (.malformed cause message)) :
    cause.message? = some message ∧ p.FirstFault cause := by
  by_cases hmapping : ∃ m, p = .mapping m
  · obtain ⟨m, rfl⟩ := hmapping
    rw [decode] at h
    by_cases hknown : ∃ sort, Fields.OfSort m sort
    · obtain ⟨sort, hsort⟩ := hknown
      rw [Fields.record_of_sort hsort] at h
      obtain ⟨hm, hfault⟩ := (Fields.read_as_checks m sort).faulty cause message h
      exact ⟨hm, .field hsort hfault⟩
    · rw [Fields.record_of_no_sort (not_exists.mp hknown)] at h
      obtain ⟨rfl, hm⟩ := refuse_malformed_iff.mp h
      exact ⟨hm, .unknownType (not_exists.mp hknown)⟩
  · rw [decode_of_no_mapping (not_exists.mp hmapping)] at h
    obtain ⟨rfl, hm⟩ := refuse_malformed_iff.mp h
    exact ⟨hm, .notMapping (not_exists.mp hmapping)⟩

theorem grammatical_of_decode {p : Payload} {r : Record} (h : p.decode = .ok r) :
    p.Grammatical := by
  obtain ⟨m, rfl, htag, hholds⟩ := (decode_ok_iff p r).mp h
  rw [← r.sort_tag] at htag
  exact ⟨m, r.sort, rfl, htag, (Fields.read_as_checks m r.sort).sound r
    ((Fields.read_as_ok_iff m r.sort r).mpr ⟨rfl, hholds⟩)⟩

/-- Of payloads whose integers can all be shown the decoder accepts those of the grammar, as the
records that they spell. All others it rejects, with the message of the first fault. -/
theorem decode_by_grammar {p : Payload} (h : p.Short) :
    ((∃ r, p.decode = .ok r) ↔ p.Grammatical) ∧ (∀ r, p.decode = .ok r ↔ p.Spells r) ∧
    (¬ p.Grammatical → ∃ cause message, p.decode = .error (.malformed cause message)) ∧
    ∀ cause message, p.decode = .error (.malformed cause message) ↔
      p.FirstFault cause ∧ cause.message? = some message := by
  have hanswered := decode_answered (legible_of_short h)
  have hrejects : (∃ r, p.decode = .ok r) ∨
      ∃ cause message, p.decode = .error (.malformed cause message) := by
    cases hd : p.decode with
    | ok r => exact .inl ⟨r, rfl⟩
    | error e =>
      cases e with
      | malformed cause message => exact .inr ⟨cause, message, rfl⟩
      | unwritable => exact absurd hd hanswered
  refine ⟨⟨fun ⟨r, hr⟩ => grammatical_of_decode hr, fun hg => ?_⟩, decode_ok_iff p, fun hn => ?_,
    fun cause message => ⟨fun hd => (decode_malformed hd).symm, fun ⟨hf, hm⟩ => ?_⟩⟩
  · exact hrejects.resolve_right fun ⟨cause, message, hd⟩ =>
      (decode_malformed hd).2.not_grammatical hg
  · exact hrejects.resolve_left fun ⟨r, hr⟩ => hn (grammatical_of_decode hr)
  · obtain ⟨r, hr⟩ | ⟨other, text, hd⟩ := hrejects
    · exact absurd (grammatical_of_decode hr) hf.not_grammatical
    · obtain ⟨ho, hfirst⟩ := decode_malformed hd
      rw [hfirst.unique hf, hm] at ho
      rw [hd, hfirst.unique hf, Option.some.inj ho]

/-- A flag where a number belongs is reported, and not the field that is missing behind it. -/
theorem decode_of_two_faults :
    let m : Fields := [("type", .str "queryRows"), ("id", .bool true), ("kind", .str " sql "),
      ("queryNodeId", .str "n"), ("nodeId", .int 1), ("action", .str "a")]
    (mapping m).Short ∧ (mapping m).decode = .error (.malformed (.notInteger "id" (.bool true))
      "Field 'id' must be an integer, got True") := by
  intro m
  have hshort : (mapping m).Short := by decide +kernel
  refine ⟨hshort, ((decode_by_grammar hshort).2.2.2 _ _).mpr ⟨?_, by decide +kernel⟩⟩
  have hsort : m.OfSort .rows := rfl
  refine .field hsort ⟨[("nodeId", .text), ("kind", .kind), ("queryNodeId", .text)],
    ("id", .integer), [("action", .text), ("rows", .integer)], rfl, ?_, ?_⟩
  · have hkind : Payload.NamesKind (.str " sql ") .sql := .word (by decide +kernel)
    simp only [List.forall_mem_cons]
    exact ⟨⟨_, rfl, nofun, trivial⟩, ⟨_, rfl, nofun, _, hkind⟩, ⟨_, rfl, nofun, trivial⟩,
      List.forall_mem_nil _⟩
  · exact .integer rfl nofun fun ⟨n, hn⟩ => nomatch hn

end Payload

end QueryTelemetry
