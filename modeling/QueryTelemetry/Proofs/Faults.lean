import QueryTelemetry.Proofs.Grammar

/-!
# Faults of payloads

Fields are read in the order of the layout, and the first that is at fault ends the reading. Each
reader of a field accepts only what is sound and reports only what is wrong; readers put one after
the other report the first fault of their layout, and no mapping has two.
-/

set_option autoImplicit false

namespace QueryTelemetry

theorem refuse_malformed_iff {α : Type} {cause reason : DecodeError} {message : String} :
    (refuse reason : Decoded α) = .error (.malformed cause message) ↔
      reason = cause ∧ cause.message? = some message := by
  unfold refuse
  split
  · rename_i m hm
    simp only [Except.error.injEq, DecodeFailure.malformed.injEq]
    refine and_congr_right fun h => ?_
    rw [← h, hm, Option.some.injEq]
  · rename_i hm
    simp only [Except.error.injEq, reduceCtorEq, false_iff, not_and]
    rintro rfl
    simp [hm]

theorem bind_error_iff {α β : Type} {x : Decoded α} {g : α → Decoded β} {e : DecodeFailure} :
    x >>= g = .error e ↔ x = .error e ∨ ∃ a, x = .ok a ∧ g a = .error e := by
  cases x <;> simp [Bind.bind, Except.bind]

namespace Fields
variable {α β : Type} {m : Fields}

theorem Faulty.not_sound {f : String × FieldSort} {cause : DecodeError} (h : m.Faulty f cause) :
    ¬ m.Sound f := by
  rintro ⟨p, hp, hnull, haccepts⟩
  cases h with
  | missing h | null h | ordinal h _ | kind h _ _ _ | integer h _ _ | flag h _ _ => simp_all

theorem Faulty.unique {f : String × FieldSort} {cause other : DecodeError}
    (h : m.Faulty f cause) (ho : m.Faulty f other) : cause = other := by
  cases h with
  | missing _ | null _ | integer _ _ _ | flag _ _ _ => cases ho <;> simp_all
  | ordinal h _ =>
    cases ho with
    | kind ho _ hint _ => exact absurd (Option.some.inj (ho.symm.trans h)) (hint _)
    | missing _ | null _ | ordinal _ _ => simp_all
  | kind h _ hint _ =>
    cases ho with
    | ordinal ho _ => exact absurd (Option.some.inj (h.symm.trans ho)) (hint _)
    | missing _ | null _ | kind _ _ _ _ => simp_all

theorem first_fault_cons (f : String × FieldSort) (layout : List (String × FieldSort))
    (cause : DecodeError) : m.FirstFault (f :: layout) cause ↔
      m.Faulty f cause ∨ m.Sound f ∧ m.FirstFault layout cause := by
  constructor
  · rintro ⟨_ | ⟨g, before⟩, h, after, heq, hbefore, hfault⟩
    · cases heq
      exact .inl hfault
    · cases heq
      obtain ⟨hg, hbefore⟩ := List.forall_mem_cons.mp hbefore
      exact .inr ⟨hg, before, h, after, rfl, hbefore, hfault⟩
  · rintro (hfault | ⟨hf, before, h, after, rfl, hbefore, hfault⟩)
    · exact ⟨[], f, layout, rfl, List.forall_mem_nil _, hfault⟩
    · exact ⟨f :: before, h, after, rfl, List.forall_mem_cons.mpr ⟨hf, hbefore⟩, hfault⟩

theorem FirstFault.unsound {layout : List (String × FieldSort)} {cause : DecodeError}
    (h : m.FirstFault layout cause) : ¬ ∀ f ∈ layout, m.Sound f := by
  obtain ⟨before, f, after, rfl, -, hfault⟩ := h
  exact fun hall => hfault.not_sound (hall f (List.mem_append_right _ List.mem_cons_self))

theorem FirstFault.unique {layout : List (String × FieldSort)} {cause other : DecodeError}
    (h : m.FirstFault layout cause) (ho : m.FirstFault layout other) : cause = other := by
  induction layout with
  | nil =>
    obtain ⟨before, f, after, heq, -⟩ := h
    cases before <;> cases heq
  | cons f layout ih =>
    rcases (first_fault_cons f layout cause).mp h with hfault | ⟨hf, h⟩ <;>
      rcases (first_fault_cons f layout other).mp ho with hother | ⟨hof, ho⟩
    · exact hfault.unique hother
    · exact absurd hof hfault.not_sound
    · exact absurd hf hother.not_sound
    · exact ih h ho

/-- The reader of one field: it reads only what is sound, and reports what is faulty. -/
structure Judges (m : Fields) (f : String × FieldSort) (x : Decoded α) : Prop where
  sound : ∀ a, x = .ok a → m.Sound f
  faulty : ∀ cause message, x = .error (.malformed cause message) →
    cause.message? = some message ∧ m.Faulty f cause

structure Checks (m : Fields) (layout : List (String × FieldSort)) (x : Decoded α) : Prop where
  sound : ∀ a, x = .ok a → ∀ f ∈ layout, m.Sound f
  faulty : ∀ cause message, x = .error (.malformed cause message) →
    cause.message? = some message ∧ m.FirstFault layout cause

theorem checks_done (m : Fields) (a : α) : m.Checks [] (.ok a) where
  sound _ _ _ hf := nomatch hf
  faulty _ _ h := nomatch h

theorem Judges.next {f : String × FieldSort} {layout : List (String × FieldSort)}
    {x : Decoded α} {g : α → Decoded β} (hx : m.Judges f x) (hg : ∀ a, m.Checks layout (g a)) :
    m.Checks (f :: layout) (x >>= g) where
  sound b h := by
    obtain ⟨a, ha, hb⟩ := bind_ok_iff.mp h
    exact List.forall_mem_cons.mpr ⟨hx.sound a ha, (hg a).sound b hb⟩
  faulty cause message h := by
    rcases bind_error_iff.mp h with hfirst | ⟨a, ha, hrest⟩
    · obtain ⟨hm, hf⟩ := hx.faulty cause message hfirst
      exact ⟨hm, (first_fault_cons f layout cause).mpr (.inl hf)⟩
    · obtain ⟨hm, hrest⟩ := (hg a).faulty cause message hrest
      exact ⟨hm, (first_fault_cons f layout cause).mpr (.inr ⟨hx.sound a ha, hrest⟩)⟩

theorem required_faulty {f : String} {sort : FieldSort} {cause : DecodeError} {message : String}
    (h : required m f = .error (.malformed cause message)) :
    cause.message? = some message ∧ m.Faulty (f, sort) cause := by
  unfold required at h
  split at h
  · rename_i hp
    obtain ⟨rfl, hm⟩ := refuse_malformed_iff.mp h
    exact ⟨hm, .missing hp⟩
  · rename_i hp
    obtain ⟨rfl, hm⟩ := refuse_malformed_iff.mp h
    exact ⟨hm, .null hp⟩
  · cases h

theorem judges_required {f : String} {sort : FieldSort} {read : Payload → Decoded α}
    (hok : ∀ p a, read p = .ok a → sort.Accepts p)
    (hfault : ∀ p cause message, m.get? f = some p → p ≠ .null →
      read p = .error (.malformed cause message) →
      cause.message? = some message ∧ m.Faulty (f, sort) cause) :
    m.Judges (f, sort) (required m f >>= read) where
  sound a h := by
    obtain ⟨p, hp, hnull, ha⟩ := required_bind_ok_iff.mp h
    exact ⟨p, hp, hnull, hok p a ha⟩
  faulty cause message h := by
    rcases bind_error_iff.mp h with hfirst | ⟨p, hp, hread⟩
    · exact required_faulty hfirst
    · obtain ⟨hp, hnull⟩ := required_ok_iff.mp hp
      exact hfault p cause message hp hnull hread

theorem kind_judges : m.Judges ("kind", .kind) (kind m) := by
  refine judges_required (fun p k hk => ⟨k, (QueryKind.parse_ok_iff p k).mp hk⟩)
    fun p cause message hp hnull h => ?_
  have hno : ¬ FieldSort.kind.Accepts p := by
    rintro ⟨k, hk⟩
    rw [(QueryKind.parse_ok_iff p k).mpr hk] at h
    cases h
  unfold QueryKind.parse at h
  split at h
  · cases h
  · split at h
    · cases h
    · obtain ⟨rfl, hm⟩ := refuse_malformed_iff.mp h
      exact ⟨hm, .ordinal hp hno⟩
  · split at h
    · cases h
    · obtain ⟨rfl, hm⟩ := refuse_malformed_iff.mp h
      exact ⟨hm, .kind hp hnull (fun _ => nofun) hno⟩
  · rename_i hmember hint hword
    obtain ⟨rfl, hm⟩ := refuse_malformed_iff.mp h
    exact ⟨hm, .kind hp hnull hint hno⟩

theorem text_judges (f : String) : m.Judges (f, .text) (text m f) := by
  refine judges_required (fun _ _ _ => trivial) fun p cause message _ _ h => ?_
  split at h <;> cases h

theorem node_judges (f : String) : m.Judges (f, .text) (node m f) where
  sound n h := by
    obtain ⟨p, hp, hnull, -⟩ := node_ok_iff.mp h
    exact ⟨p, hp, hnull, trivial⟩
  faulty cause message h := by
    rw [node_eq_bind] at h
    rcases bind_error_iff.mp h with htext | ⟨s, -, hs⟩
    · exact (text_judges f).faulty cause message htext
    · cases hs

/-- A field whose value is read if it can be, and is shown otherwise. -/
theorem optional_judges {f : String} {sort : FieldSort} {read : Payload → Decoded α}
    {read? : Payload → Option α} {report : Payload → DecodeError}
    (hsome : ∀ p a, read? p = some a → read p = .ok a)
    (hnone : ∀ p, read? p = none → read p = refuse (report p))
    (hread : ∀ p, sort.Accepts p ↔ ∃ a, read? p = some a)
    (hreport : ∀ p, m.get? f = some p → p ≠ .null → ¬ sort.Accepts p →
      m.Faulty (f, sort) (report p)) :
    m.Judges (f, sort) (required m f >>= read) := by
  refine judges_required (fun p a h => ?_) fun p cause message hp hnull h => ?_
  · cases hr : read? p with
    | some b => exact (hread p).mpr ⟨b, hr⟩
    | none =>
      rw [hnone p hr] at h
      exact absurd h (refuse_ne_ok _ _)
  · cases hr : read? p with
    | some b =>
      rw [hsome p b hr] at h
      cases h
    | none =>
      rw [hnone p hr] at h
      obtain ⟨rfl, hm⟩ := refuse_malformed_iff.mp h
      refine ⟨hm, hreport p hp hnull fun haccepts => ?_⟩
      obtain ⟨a, ha⟩ := (hread p).mp haccepts
      rw [hr] at ha
      cases ha

theorem integer_judges (f : String) : m.Judges (f, .integer) (integer m f) :=
  optional_judges (fun p n h => by rw [h]; rfl) (fun p h => by rw [h])
    (fun p => exists_congr fun n => (integer_of_iff p n).symm) fun _ => Faulty.integer

theorem boolean_judges (f : String) : m.Judges (f, .flag) (boolean m f) :=
  optional_judges (fun p b h => by rw [h]; rfl) (fun p h => by rw [h])
    (fun p => exists_congr fun b => (boolean_of_iff p b).symm) fun _ => Faulty.flag

theorem read_as_checks (m : Fields) (sort : RecordSort) :
    m.Checks sort.layout (m.readAs sort) := by
  cases sort with
  | completion =>
    exact kind_judges.next fun _ => (text_judges _).next fun _ => (node_judges _).next fun _ =>
      (integer_judges _).next fun _ => (integer_judges _).next fun _ =>
      (integer_judges _).next fun _ => (boolean_judges _).next fun _ => checks_done m _
  | reads =>
    exact (node_judges _).next fun _ => kind_judges.next fun _ => (node_judges _).next fun _ =>
      (integer_judges _).next fun _ => (integer_judges _).next fun _ =>
      (integer_judges _).next fun _ => checks_done m _
  | rows =>
    exact (node_judges _).next fun _ => kind_judges.next fun _ => (node_judges _).next fun _ =>
      (integer_judges _).next fun _ => (text_judges _).next fun _ =>
      (integer_judges _).next fun _ => checks_done m _
  | property =>
    exact (node_judges _).next fun _ => kind_judges.next fun _ => (node_judges _).next fun _ =>
      (integer_judges _).next fun _ => (text_judges _).next fun _ =>
      (text_judges _).next fun _ => checks_done m _

end Fields

end QueryTelemetry
