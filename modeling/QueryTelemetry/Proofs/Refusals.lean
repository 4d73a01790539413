import QueryTelemetry.Proofs.Appending

/-!
# Manifests that refuse an entry

An entry is refused for what the file holds: bytes that encode no text, a document that is neither
null nor an object, or an object whose runs are not there or are no list. The file is written after
all of this was looked at, so a refusal leaves it as it was. Every other file takes the entry, and
is a manifest with a list of runs from then on.
-/

set_option autoImplicit false

namespace QueryTelemetry
open Json

namespace Manifest

section Forms
variable (room : Nat)

def Holds (b : ByteArray) (d : Json) : Prop :=
  ∃ text : String, text.toUTF8 = b ∧ Json.parse room text = .ok d

inductive Refused (b : ByteArray) : Failure → Prop
  | noText : (∀ text : String, text.toUTF8 ≠ b) → Refused b .invalidUtf8
  | noObject {d : Json} : Holds room b d → d ≠ .null → (∀ m, d ≠ .obj m) → Refused b .wrongType
  | noRuns {m : Members} : Holds room b (.obj m) → m.get? (key "runs") = none →
    Refused b (.missingKey "runs")
  | sizeless {m : Members} {v : Json} : Holds room b (.obj m) → m.get? (key "runs") = some v →
    (v = .null ∨ (∃ x, v = .bool x) ∨ (∃ n, v = .int n) ∨ ∃ x, v = .float x) → Refused b .wrongType
  | unlisted {m : Members} {v : Json} : Holds room b (.obj m) → m.get? (key "runs") = some v →
    ((∃ ms, v = .obj ms) ∨ ∃ s, v = .str s) → Refused b .unsupported

/-- The text goes past what the reader reads at all. -/
inductive Stopped (b : ByteArray) : Failure → Prop
  | longInteger {text : String} {digits : Nat} : text.toUTF8 = b →
    Json.parse room text = .error (.longInteger digits) → Stopped b (.longInteger digits)
  | tooDeep {text : String} : text.toUTF8 = b → Json.parse room text = .error .tooDeep →
    Stopped b .tooDeep

inductive Open (b : ByteArray) : Prop
  | corrupt {text : String} : text.toUTF8 = b → Json.parse room text = .error .corrupt → Open b
  | null : Holds room b .null → Open b
  | listed {m : Members} {rs : List Json} : Holds room b (.obj m) →
    m.get? (key "runs") = some (.arr rs) → Open b

theorem refused_stopped_or_open (b : ByteArray) :
    (∃ f, Refused room b f ∨ Stopped room b f) ∨ Open room b := by
  by_cases htext : ∃ text : String, text.toUTF8 = b
  · obtain ⟨text, ht⟩ := htext
    cases hd : Json.parse room text with
    | error e =>
      cases e with
      | corrupt => exact .inr (.corrupt ht hd)
      | longInteger n => exact .inl ⟨_, .inr (.longInteger ht hd)⟩
      | tooDeep => exact .inl ⟨_, .inr (.tooDeep ht hd)⟩
    | ok d =>
      have hb : Holds room b d := ⟨text, ht, hd⟩
      cases d with
      | null => exact .inr (.null hb)
      | obj m =>
        cases hv : Assoc.get? m (key "runs") with
        | none => exact .inl ⟨_, .inl (.noRuns hb hv)⟩
        | some v =>
          cases v with
          | arr rs => exact .inr (.listed hb hv)
          | null => exact .inl ⟨_, .inl (.sizeless hb hv (.inl rfl))⟩
          | bool x => exact .inl ⟨_, .inl (.sizeless hb hv (.inr (.inl ⟨x, rfl⟩)))⟩
          | int n => exact .inl ⟨_, .inl (.sizeless hb hv (.inr (.inr (.inl ⟨n, rfl⟩))))⟩
          | float x => exact .inl ⟨_, .inl (.sizeless hb hv (.inr (.inr (.inr ⟨x, rfl⟩))))⟩
          | obj ms => exact .inl ⟨_, .inl (.unlisted hb hv (.inl ⟨ms, rfl⟩))⟩
          | str s => exact .inl ⟨_, .inl (.unlisted hb hv (.inr ⟨s, rfl⟩))⟩
      | bool _ | int _ | float _ | str _ | arr _ =>
        exact .inl ⟨_, .inl (.noObject hb (by simp) (by simp))⟩
  · exact .inl ⟨_, .inl (.noText (not_exists.mp htext))⟩

end Forms

/-! ## One entry -/

/-- The version and the time are no runs, so what is wrong with the runs is wrong before them. -/
theorem extend_error {m : Members} {f : Failure} (h : runs m = .error f) (e : ManifestEntry)
    (now : String) : extend m e now = .error f := by
  have hruns : runs ((m.put (key "report_version") (.int e.reportVersion)).put
      (key "updated_at") (.text now)) = .error f := by
    rw [← h]
    simp [runs, Assoc.get_put, key_eq_iff]
  rw [extend, hruns]
  rfl

section Running
variable {path : Path} {w : Workspace} {b : ByteArray} {f : Failure} {e : ManifestEntry}

theorem no_text (h : ∀ text : String, text.toUTF8 ≠ b) :
    contentText (.bytes b) = .error .invalidUtf8 := by
  have hb : ¬ b.IsValidUTF8 := fun hvalid => h ⟨b, hvalid⟩ rfl
  have hnone : String.fromUTF8? b = none := dif_neg hb
  rw [contentText, hnone]

theorem append_unloaded (hc : w.files.read path = .ok (.bytes b))
    (h : contentText (.bytes b) = .error f ∨ ∃ text, contentText (.bytes b) = .ok text ∧
      ((∃ n, Json.parse w.limits.nesting text = .error (.longInteger n) ∧ f = .longInteger n) ∨
        Json.parse w.limits.nesting text = .error .tooDeep ∧ f = .tooDeep)) :
    (append path e).run.run w = (.error f, w) := by
  have hload : (load? path).run.run w = (.error f, w) := by
    unfold load?
    rw [Work.run_bind, Work.run_ask_files, present_of_read hc]
    simp only [Bool.not_true, Bool.false_eq_true, if_false]
    rw [Work.run_bind, Work.run_ask_files, hc]
    dsimp only
    rw [Work.run_bind, Work.run_of_except]
    rcases h with hf | ⟨text, ht, ⟨n, hn, rfl⟩ | ⟨hn, rfl⟩⟩
    · rw [hf]
    · rw [ht]
      dsimp only
      rw [Work.run_bind, Work.run_get]
      dsimp only
      rw [hn]
      rfl
    · rw [ht]
      dsimp only
      rw [Work.run_bind, Work.run_get]
      dsimp only
      rw [hn]
      rfl
  unfold append
  rw [Work.run_bind, hload]

theorem append_unfit {d : Json} (hc : w.files.read path = .ok (.bytes b))
    (hd : Holds w.limits.nesting b d) (hne : d ≠ .null)
    (h : (membersOf e (stampAfter w.stamps) (some d)).bind
      (extend · e (stampAfter w.stamps)) = .error f) :
    ∃ u, (append path e).run.run w = (.error f, u) ∧ u.files = w.files := by
  obtain ⟨text, rfl, hparse⟩ := hd
  unfold append
  rw [Work.run_bind, load_read hc (content_text text) hparse hne]
  dsimp only
  rw [Work.run_bind, Work.run_stamp]
  dsimp only
  rw [Work.run_bind, Work.run_of_except, ← stampAfter]
  cases hm : membersOf e (stampAfter w.stamps) (some d) with
  | error g =>
    rw [hm] at h
    cases h
    exact ⟨_, rfl, rfl⟩
  | ok m =>
    rw [hm] at h
    dsimp only
    rw [Work.run_bind, Work.run_of_except, show extend m e _ = .error f from h]
    exact ⟨_, rfl, rfl⟩

theorem append_stopped (hc : w.files.read path = .ok (.bytes b))
    (h : Stopped w.limits.nesting b f) :
    ∃ u, (append path e).run.run w = (.error f, u) ∧ u.files = w.files := by
  refine ⟨w, append_unloaded hc (.inr ?_), rfl⟩
  cases h with
  | longInteger ht hn => exact ⟨_, ht ▸ content_text _, .inl ⟨_, hn, rfl⟩⟩
  | tooDeep ht hn => exact ⟨_, ht ▸ content_text _, .inr ⟨hn, rfl⟩⟩

theorem append_refused (hc : w.files.read path = .ok (.bytes b))
    (h : Refused w.limits.nesting b f) :
    ∃ u, (append path e).run.run w = (.error f, u) ∧ u.files = w.files := by
  have hruns {m : Members} (hm : Holds w.limits.nesting b (.obj m)) (h : runs m = .error f) :=
    append_unfit (e := e) hc hm (by simp) (extend_error h e (stampAfter w.stamps))
  cases h with
  | noText ht => exact ⟨w, append_unloaded hc (.inl (no_text ht)), rfl⟩
  | noObject hd hnull hobj =>
    refine append_unfit hc hd hnull ?_
    rw [membersOf]
    · rfl
    · intro m hm
      exact hobj m hm
  | noRuns hm hv =>
    refine hruns hm ?_
    rw [runs, hv]
  | sizeless hm hv hform =>
    refine hruns hm ?_
    rw [runs, hv]
    rcases hform with rfl | ⟨_, rfl⟩ | ⟨_, rfl⟩ | ⟨_, rfl⟩ <;> rfl
  | unlisted hm hv hform =>
    refine hruns hm ?_
    rw [runs, hv]
    rcases hform with ⟨_, rfl⟩ | ⟨_, rfl⟩ <;> rfl

def Listed (path : Path) (w : Workspace) : Prop :=
  ∃ n rs, ((load? path).run.run w).1 = .ok (some (.obj n)) ∧
    Assoc.get? n (key "runs") = some (.arr rs)

theorem listed_of_read {n : Members} {rs : List Json} (hsound : (obj n).Sound w.limits.nesting)
    (hruns : n.get? (key "runs") = some (.arr rs))
    (hread : w.files.read path = .ok (.bytes (obj n).pretty.text.toUTF8)) : Listed path w := by
  refine ⟨n, rs, ?_, hruns⟩
  rw [load_document hsound (fun h => by cases h) hread]

theorem append_begins (h : NoDocument path w) (he : e.Within (w.limits.nesting - 3)) :
    ∃ info u, (append path e).run.run w = (.ok info, u) ∧ Listed path u := by
  obtain ⟨hwrite, v, hload, hfiles, hstamps, hlimits⟩ := load_no_document h
  have hroom := room_for_document w.limits
  obtain ⟨m, n, hm, hn, hdocument⟩ := entered_document [] e (stampAfter w.stamps)
  have hentered : ∀ x ∈ [(⟨e, stampAfter w.stamps⟩ : Entered)],
      x.entry.Within (w.limits.nesting - 3) :=
    fun x hx => List.mem_singleton.mp hx ▸ he
  have hone : 1 < Integer.ceiling := by decide +kernel
  have hsound : (obj n).Sound w.limits.nesting := hroom ▸ sound_document hentered hone _ hdocument
  obtain ⟨u, hrun, hread, -, hlimits⟩ := append_run hload hfiles hstamps hlimits hwrite hm hn hsound
  rw [document] at hdocument
  cases hdocument
  exact ⟨_, u, hrun, listed_of_read (hlimits ▸ hsound) rfl hread⟩

theorem append_continues {m : Members} {rs : List Json} (hc : w.files.read path = .ok (.bytes b))
    (hm : Holds w.limits.nesting b (.obj m)) (hruns : m.get? (key "runs") = some (.arr rs))
    (he : e.Within (w.limits.nesting - 3)) (hn : rs.length + 1 < Integer.ceiling) :
    ∃ info u, (append path e).run.run w = (.ok info, u) ∧ Listed path u := by
  obtain ⟨text, rfl, hparse⟩ := hm
  have hroom := room_for_document w.limits
  have hload := load_read hc (content_text text) hparse (fun h => by cases h)
  obtain ⟨n, hextend, happended⟩ := extend_appended (e := e) hruns (stampAfter w.stamps)
  have hsound : (obj n).Sound w.limits.nesting :=
    hroom ▸ sound_extend (hroom.symm ▸ parse_sound hparse) hruns he hn hextend
  obtain ⟨u, hrun, hread, -, hlimits⟩ :=
    append_run hload rfl rfl rfl (FileTree.writable_of_read hc) rfl hextend hsound
  exact ⟨_, u, hrun, listed_of_read (hlimits ▸ hsound) happended.runs hread⟩

def Numberable (room : Nat) (b : ByteArray) : Prop :=
  ∀ (m : Members) (rs : List Json), Holds room b (.obj m) → m.get? (key "runs") = some (.arr rs) →
    rs.length + 1 < Integer.ceiling

theorem append_open (hc : w.files.read path = .ok (.bytes b)) (h : Open w.limits.nesting b)
    (he : e.Within (w.limits.nesting - 3)) (hn : Numberable w.limits.nesting b) :
    ∃ info u, (append path e).run.run w = (.ok info, u) ∧ Listed path u := by
  cases h with
  | corrupt ht hd =>
    exact append_begins (.inr ⟨_, _, hc, ht ▸ content_text _, .inl hd⟩) he
  | null hd =>
    obtain ⟨text, ht, hd⟩ := hd
    exact append_begins (.inr ⟨_, _, hc, ht ▸ content_text _, .inr hd⟩) he
  | listed hm hruns => exact append_continues hc hm hruns he (hn _ _ hm hruns)

end Running

/-! ## Text that is no document -/

section Texts
variable {room : Nat} {text : String}

theorem holds_text_iff {d : Json} :
    Holds room text.toUTF8 d ↔ Json.parse room text = .ok d := by
  constructor
  · rintro ⟨text', hsame, hd⟩
    rwa [String.toByteArray_inj.mp hsame] at hd
  · exact fun hd => ⟨text, rfl, hd⟩

theorem corrupt_taken (h : Json.parse room text = .error .corrupt) (f : Failure) :
    ¬ Refused room text.toUTF8 f ∧ ¬ Stopped room text.toUTF8 f := by
  have hnone {d : Json} : ¬ Holds room text.toUTF8 d := by
    rw [holds_text_iff, h]
    exact fun hd => by cases hd
  constructor
  · rintro (hbytes | hd | hm | hm | hm)
    · exact hbytes text rfl
    · exact hnone hd
    · exact hnone hm
    · exact hnone hm
    · exact hnone hm
  · rintro (⟨hsame, hd⟩ | ⟨hsame, hd⟩)
    · rw [String.toByteArray_inj.mp hsame, h] at hd
      cases hd
    · rw [String.toByteArray_inj.mp hsame, h] at hd
      cases hd

theorem parse_blank (h : ∀ c ∈ text.toList, isSpace c) :
    Json.parse room text = .error .corrupt := by
  have hskip : skip text.toList = [] := List.dropWhile_eq_nil_iff.mpr h
  rw [Json.parse, hskip]
  rfl

theorem parse_marked (room : Nat) (text : String) :
    Json.parse room ("\uFEFF" ++ text) = .error .corrupt := by
  have hskip : skip ("\uFEFF" ++ text).toList = '\uFEFF' :: text.toList := by
    rw [String.toList_append]
    rfl
  rw [Json.parse, hskip]
  rfl

theorem parse_trailed {d : Json} (hd : d.Sound room) {rest : List Char} (hends : Ends rest)
    (hrest : ∃ c ∈ rest, isSpace c = false) :
    Json.parse room (d.pretty.text ++ String.ofList rest) = .error .corrupt := by
  have hchars : (d.pretty.text ++ String.ofList rest).toList =
      (lines 0 d (.done rest)).chars := by
    rw [String.toList_append, Printed.text, String.toList_ofList, String.toList_ofList,
      lines_chars hd.short 0 (.done rest)]
    rfl
  have hvalue := value_lines d 0 _ room (.done rest) hd hends le_rfl
  have hmore : skip rest ≠ [] := by
    obtain ⟨c, hc, hsolid⟩ := hrest
    intro h
    have hspace : isSpace c := List.dropWhile_eq_nil_iff.mp h c hc
    rw [hsolid] at hspace
    cases hspace
  rw [Json.parse, hchars]
  simp only [(opens_lines hd.short 0 (.done rest)).skipped, hvalue, bind, Except.bind]
  split
  · rename_i hnone
    exact absurd hnone hmore
  · rfl

end Texts

/-- Appending to a file fails for what the file holds, and for nothing else. The file then stays as
it was. Any other file, and one that was not there, is a manifest with a list of runs afterwards. -/
theorem append_refuses_exactly {path : Path} {e : ManifestEntry} (w : Workspace)
    (he : e.Within (w.limits.nesting - 3)) :
    (∀ b : ByteArray, w.files.read path = .ok (.bytes b) → Numberable w.limits.nesting b →
      (∀ f, (∃ u, (append path e).run.run w = (.error f, u)) ↔
        Refused w.limits.nesting b f ∨ Stopped w.limits.nesting b f) ∧
      (∀ f u, (append path e).run.run w = (.error f, u) → u.files = w.files) ∧
      ((∀ f, ¬ Refused w.limits.nesting b f ∧ ¬ Stopped w.limits.nesting b f) → ∃ info u n rs,
        (append path e).run.run w = (.ok info, u) ∧
        ((load? path).run.run u).1 = .ok (some (.obj n)) ∧
        Assoc.get? n (key "runs") = some (.arr rs))) ∧
    (w.files.present path = .ok false → w.files.Writable w.limits.folders path → ∃ info u n rs,
      (append path e).run.run w = (.ok info, u) ∧
      ((load? path).run.run u).1 = .ok (some (.obj n)) ∧
      Assoc.get? n (key "runs") = some (.arr rs)) := by
  constructor
  · intro b hc hn
    have hfails {f : Failure} (h : Refused w.limits.nesting b f ∨ Stopped w.limits.nesting b f) :
        ∃ u, (append path e).run.run w = (.error f, u) ∧ u.files = w.files :=
      h.elim (append_refused hc) (append_stopped hc)
    have hother {f : Failure} {u : Workspace} (hrun : (append path e).run.run w = (.error f, u)) :
        (Refused w.limits.nesting b f ∨ Stopped w.limits.nesting b f) ∧ u.files = w.files := by
      rcases refused_stopped_or_open _ b with ⟨g, hg⟩ | hopen
      · obtain ⟨v, hv, hfiles⟩ := hfails hg
        rw [hrun] at hv
        cases hv
        exact ⟨hg, hfiles⟩
      · obtain ⟨info, v, hv, -⟩ := append_open hc hopen he hn
        rw [hrun] at hv
        cases hv
    refine ⟨fun f => ⟨fun ⟨u, hrun⟩ => (hother hrun).1, fun h => ?_⟩,
      fun f u hrun => (hother hrun).2, fun hneither => ?_⟩
    · obtain ⟨u, hrun, -⟩ := hfails h
      exact ⟨u, hrun⟩
    · rcases refused_stopped_or_open _ b with ⟨g, hg⟩ | hopen
      · exact absurd hg (not_or.mpr (hneither g))
      · obtain ⟨info, u, hrun, n, rs, hload, hruns⟩ := append_open hc hopen he hn
        exact ⟨info, u, n, rs, hrun, hload, hruns⟩
  · intro habsent hwrite
    obtain ⟨info, u, hrun, n, rs, hload, hruns⟩ := append_begins (.inl ⟨habsent, hwrite⟩) he
    exact ⟨info, u, n, rs, hrun, hload, hruns⟩

/-! ## Foreign files -/

def unlisted : Json := obj [(key "runs", .str [])]

theorem unlisted_sound (room : Nat) : unlisted.Sound (room + 1) :=
  (sound_obj_iff _ room).mpr
    ⟨by decide, fun _ hp => List.mem_singleton.mp hp ▸ sound_text "" room⟩

theorem unlisted_holds_iff (room : Nat) {d : Json} :
    Holds (room + 1) unlisted.pretty.text.toUTF8 d ↔ d = unlisted := by
  rw [holds_text_iff, parse_pretty (unlisted_sound room), Except.ok.injEq, eq_comm]

theorem unlisted_twice (room : Nat) :
    Json.parse (room + 1) (unlisted.pretty.text ++ unlisted.pretty.text) = .error .corrupt := by
  obtain ⟨r, hr⟩ : ∃ r, unlisted.pretty.text = String.ofList ('\x7b' :: r) :=
    ⟨_, congrArg String.ofList
      (by simp only [unlisted, pretty, lines, memberLines, Printed.after]; rfl)⟩
  have hcorrupt := parse_trailed (unlisted_sound room) (ends_cons (by decide) r)
    ⟨'\x7b', List.mem_cons_self, by decide⟩
  rwa [← hr] at hcorrupt

theorem bytes_of_no_text (text : String) : text.toUTF8 ≠ ⟨#[0xFF]⟩ := by
  intro h
  have hnone : String.fromUTF8? ⟨#[0xFF]⟩ = none := by decide +kernel
  have htext : String.fromUTF8? text.toUTF8 = some text := dif_pos text.isValidUTF8
  rw [h, hnone] at htext
  cases htext

/-- Bytes that encode no text and an object whose runs are an empty text refuse an entry. An empty
text, a marked one, an object with another one behind it, and a file that was not there become
manifests. -/
theorem append_to_foreign_files :
    let refused (b : ByteArray) (f : Failure) : Prop := ∃ u,
      (append onlyFile bare).run.run (holding b) = (.error f, u) ∧ u.files = (holding b).files
    let taken (w : Workspace) : Prop := ∃ info u n rs,
      (append onlyFile bare).run.run w = (.ok info, u) ∧
      ((load? onlyFile).run.run u).1 = .ok (some (.obj n)) ∧
      Assoc.get? n (key "runs") = some (.arr rs)
    refused ⟨#[0xFF]⟩ .invalidUtf8 ∧ refused unlisted.pretty.text.toUTF8 .unsupported ∧
    taken (holding "".toUTF8) ∧ taken (holding ("\uFEFF" ++ unlisted.pretty.text).toUTF8) ∧
    taken (holding (unlisted.pretty.text ++ unlisted.pretty.text).toUTF8) ∧
    taken (.start .usual []) := by
  intro refused taken
  have hbare : bare.Within (Limits.usual.nesting - 3) := bare_within 984
  have hcorrupt {text : String} (h : Json.parse Limits.usual.nesting text = .error .corrupt) :
      taken (holding text.toUTF8) := by
    have hn : Numberable Limits.usual.nesting text.toUTF8 := by
      intro m rs hm
      rw [holds_text_iff, h] at hm
      cases hm
    exact ((append_refuses_exactly (holding _) hbare).1 _ (read_holding _) hn).2.2
      (corrupt_taken h)
  have hrefused {b : ByteArray} {f : Failure} (h : Refused Limits.usual.nesting b f)
      (hn : Numberable Limits.usual.nesting b) : refused b f := by
    obtain ⟨hiff, hfiles, -⟩ :=
      (append_refuses_exactly (holding b) hbare).1 _ (read_holding b) hn
    obtain ⟨u, hrun⟩ := (hiff f).mpr (.inl h)
    exact ⟨u, hrun, hfiles f u hrun⟩
  refine ⟨hrefused (.noText bytes_of_no_text) fun m rs hm => ?_,
    hrefused (.unlisted ((unlisted_holds_iff 987).mpr rfl) rfl (.inr ⟨[], rfl⟩))
      fun m rs hm hruns => ?_,
    hcorrupt (parse_blank fun c hc => absurd hc List.not_mem_nil),
    hcorrupt (parse_marked _ unlisted.pretty.text), hcorrupt (unlisted_twice 987),
    (append_refuses_exactly (.start .usual []) hbare).2 room_for_file.1 room_for_file.2⟩
  · obtain ⟨text, h, -⟩ := hm
    exact absurd h (bytes_of_no_text text)
  · cases (unlisted_holds_iff 987).mp hm
    cases hruns

end Manifest

end QueryTelemetry
