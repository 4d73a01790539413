import QueryTelemetry.Proofs.Mappings
import QueryTelemetry.Proofs.Rollup

/-!
# Spellings of one record

A kind, an integer, a flag or an integral text can be spelled in several ways. An accepted mapping
stays the mapping of its record when values are spelled in other ways, one or many at once. So a
stream is replayed alike in all spellings, and what is said of one execution is kept together
however the execution is spelled.
-/

set_option autoImplicit false

namespace QueryTelemetry
open QueryTelemetry.Text

/-! ## Words in any case -/

structure Cased (word cs : List Char) where
  before : List Char
  core : List Char
  after : List Char
  layout : cs = before ++ core ++ after
  blank_before : ∀ c ∈ before, isBlank c
  blank_after : ∀ c ∈ after, isBlank c
  letters : core.map Char.toLower = word.map Char.toLower

structure Plain (word : List Char) : Prop where
  nonempty : word ≠ []
  ascii : ∀ c ∈ word, c.toNat < 128
  solid : ∀ c ∈ word, isBlank c = false

theorem plain_of_all {word : List Char} (hne : word ≠ []) (hascii : word.all (·.toNat < 128))
    (hsolid : word.all (!isBlank ·)) : Plain word := by
  refine ⟨hne, fun c hc => ?_, fun c hc => ?_⟩
  · exact of_decide_eq_true (List.all_eq_true.mp hascii c hc)
  · exact (Bool.not_eq_true' _).mp (List.all_eq_true.mp hsolid c hc)

/-- Whether an ASCII character is blank, and what its cases are, depends on its lower case. -/
theorem ascii_cases {c : Char} (h : c.toNat < 128) :
    c.toLower.toNat < 128 ∧ isBlank c = isBlank c.toLower ∧
      upper c = [c.toLower.toUpper] ∧ lower c = c.toLower := by
  have hall : ∀ n < 128, (Char.ofNat n).toLower.toNat < 128 ∧
      isBlank (Char.ofNat n) = isBlank (Char.ofNat n).toLower ∧
      upper (Char.ofNat n) = [(Char.ofNat n).toLower.toUpper] ∧
      lower (Char.ofNat n) = (Char.ofNat n).toLower := by decide +kernel
  have hc := hall c.toNat h
  rwa [Char.ofNat_toNat] at hc

theorem ascii_of_lower {c : Char} (h : c.toLower.toNat < 128) : c.toNat < 128 := by
  unfold Char.toLower at h
  split at h
  · rename_i hupper
    have hz : c.val.toNat ≤ 'Z'.val.toNat := UInt32.le_iff_toNat_le.mp hupper.2
    have hlimit : 'Z'.val.toNat < 128 := by decide
    exact hz.trans_lt hlimit
  · exact h

namespace Cased
variable {word cs : List Char}

theorem plain (h : Cased word cs) (hw : Plain word) : Plain h.core := by
  have hletter : ∀ c ∈ h.core, ∃ w ∈ word, w.toLower = c.toLower := by
    intro c hc
    have hmem : c.toLower ∈ word.map Char.toLower := h.letters ▸ List.mem_map_of_mem hc
    exact List.mem_map.mp hmem
  have hascii : ∀ c ∈ h.core, c.toNat < 128 := by
    intro c hc
    obtain ⟨w, hmem, hlower⟩ := hletter c hc
    exact ascii_of_lower (hlower ▸ (ascii_cases (hw.ascii w hmem)).1)
  refine ⟨?_, hascii, fun c hc => ?_⟩
  · intro hnil
    have hword := h.letters
    rw [hnil] at hword
    exact hw.nonempty (List.map_eq_nil_iff.mp hword.symm)
  · obtain ⟨w, hmem, hlower⟩ := hletter c hc
    rw [(ascii_cases (hascii c hc)).2.1, ← hlower, ← (ascii_cases (hw.ascii w hmem)).2.1]
    exact hw.solid w hmem

theorem trimmed (h : Cased word cs) (hw : Plain word) : trim isBlank cs = h.core := by
  have hplain := h.plain hw
  have hfirst : ∃ c r, h.core = c :: r ∧ isBlank c = false := by
    obtain ⟨c, r, hcore⟩ := List.exists_cons_of_ne_nil hplain.nonempty
    exact ⟨c, r, hcore, hplain.solid c (hcore ▸ List.mem_cons_self)⟩
  have hlast : ∃ c r, h.core = r ++ [c] ∧ isBlank c = false := by
    have hcore := List.dropLast_append_getLast hplain.nonempty
    exact ⟨_, _, hcore.symm, hplain.solid _ (List.getLast_mem hplain.nonempty)⟩
  have htrim := trim_between h.blank_before h.blank_after hfirst hlast
  rwa [← h.layout] at htrim

theorem upper_word {s : String} (h : Cased word s.toList) (hw : Plain word) :
    upperWord s = String.ofList ((word.map Char.toLower).map Char.toUpper) := by
  have hupper : h.core.flatMap upper = (h.core.map Char.toLower).map Char.toUpper := by
    rw [List.map_map, List.map_eq_flatMap]
    exact List.flatMap_congr fun c hc => (ascii_cases ((h.plain hw).ascii c hc)).2.2.1
  rw [upperWord, h.trimmed hw, hupper, h.letters]

theorem lower_word {s : String} (h : Cased word s.toList) (hw : Plain word) :
    lowerWord s = String.ofList (word.map Char.toLower) := by
  have hlower : h.core.map lower = h.core.map Char.toLower :=
    List.map_congr_left fun c hc => (ascii_cases ((h.plain hw).ascii c hc)).2.2.2
  rw [lowerWord, h.trimmed hw, hlower, h.letters]

end Cased

def AnyCase (word s : String) : Prop := Nonempty (Cased word.toList s.toList)

/-! ## Values -/

namespace Payload

inductive SpellsKind : Payload → QueryKind → Prop
  | member (k : QueryKind) : SpellsKind (.kind k) k
  | ordinal (k : QueryKind) : SpellsKind (.int k.ordinal) k
  | name {s : String} {k : QueryKind} : AnyCase k.name s → SpellsKind (.str s) k

inductive SpellsFlag : Payload → Bool → Prop
  | flag (b : Bool) : SpellsFlag (.bool b) b
  | zero : SpellsFlag (.int 0) false
  | nonzero {n : Int} : n ≠ 0 → SpellsFlag (.int n) true
  | yes {word s : String} : word ∈ ["true", "1", "yes"] → AnyCase word s → SpellsFlag (.str s) true
  | no {word s : String} : word ∈ ["false", "0", "no"] → AnyCase word s → SpellsFlag (.str s) false

/-- A text made of an integer, which is within the digit limit unless the text is there already. -/
inductive SpellsIntegral : Payload → Int → Prop
  | integer {n : Int} : n.natAbs < Integer.ceiling → SpellsIntegral (.int n) n
  | digits (n : Int) : SpellsIntegral (.str (toString n)) n

inductive Respells : FieldSort → Payload → Payload → Prop
  | same (sort : FieldSort) (p : Payload) : Respells sort p p
  | kind {p q : Payload} {k : QueryKind} :
      p.NamesKind k → q.SpellsKind k → Respells .kind p q
  | integer {p q : Payload} {n : Int} :
      p.NamesInteger n → q.NamesInteger n → Respells .integer p q
  | flag {p q : Payload} {b : Bool} : p.NamesFlag b → q.SpellsFlag b → Respells .flag p q
  | text {p q : Payload} {n : Int} :
      p.SpellsIntegral n → q.SpellsIntegral n → Respells .text p q

theorem names_of_spells_kind {p : Payload} {k : QueryKind} (h : p.SpellsKind k) :
    p.NamesKind k := by
  cases h with
  | member k => exact .member k
  | ordinal k => exact .ordinal k
  | name hs =>
    obtain ⟨hcased⟩ := hs
    have hplain : Plain k.name.toList := by
      cases k <;> exact plain_of_all (by decide) (by decide) (by decide)
    have hupper : String.ofList ((k.name.toList.map Char.toLower).map Char.toUpper) = k.name := by
      cases k <;> decide +kernel
    exact .word ((hcased.upper_word hplain).trans hupper)

theorem flag_words : ∀ word ∈ ["true", "1", "yes", "false", "0", "no"],
    Plain word.toList ∧ String.ofList (word.toList.map Char.toLower) = word := by
  simp only [List.forall_mem_cons]
  refine ⟨?_, ?_, ?_, ?_, ?_, ?_, by simp⟩ <;>
    exact ⟨plain_of_all (by decide) (by decide) (by decide), by decide +kernel⟩

theorem lower_of_cased {word s : String} (h : AnyCase word s)
    (hw : word ∈ ["true", "1", "yes", "false", "0", "no"]) : lowerWord s = word := by
  obtain ⟨hcased⟩ := h
  obtain ⟨hplain, hlower⟩ := flag_words word hw
  exact (hcased.lower_word hplain).trans hlower

theorem names_of_spells_flag {p : Payload} {b : Bool} (h : p.SpellsFlag b) : p.NamesFlag b := by
  cases h with
  | flag b => exact .flag b
  | zero => exact .zero
  | nonzero hn => exact .nonzero hn
  | yes hmem hs =>
    have hword := lower_of_cased hs (List.mem_append_left ["false", "0", "no"] hmem)
    exact .yes (hword ▸ hmem)
  | no hmem hs =>
    have hword := lower_of_cased hs (List.mem_append_right ["true", "1", "yes"] hmem)
    exact .no (hword ▸ hmem)

theorem text_of_spells_integral {p : Payload} {n : Int} (h : p.SpellsIntegral n) :
    p.NamesText (toString n) := by
  cases h with
  | integer hn => exact (shown_int n).trans ((Integer.text_eq n).trans (if_pos hn))
  | digits n => rfl

theorem NamesKind.unique {p : Payload} {j k : QueryKind} (hj : p.NamesKind j) (hk : p.NamesKind k) :
    j = k :=
  Except.ok.inj (((QueryKind.parse_ok_iff p j).mpr hj).symm.trans
    ((QueryKind.parse_ok_iff p k).mpr hk))

theorem NamesInteger.unique {p : Payload} {m n : Int} (hm : p.NamesInteger m)
    (hn : p.NamesInteger n) : m = n :=
  Option.some.inj (((Fields.integer_of_iff p m).mpr hm).symm.trans
    ((Fields.integer_of_iff p n).mpr hn))

theorem NamesFlag.unique {p : Payload} {a b : Bool} (ha : p.NamesFlag a) (hb : p.NamesFlag b) :
    a = b :=
  Option.some.inj (((Fields.boolean_of_iff p a).mpr ha).symm.trans
    ((Fields.boolean_of_iff p b).mpr hb))

theorem NamesText.unique {p : Payload} {s t : String} (hs : p.NamesText s) (ht : p.NamesText t) :
    s = t :=
  Option.some.inj (hs.symm.trans ht)

namespace Respells
variable {p q : Payload}

theorem not_null {sort : FieldSort} (h : Respells sort p q) (hp : p ≠ .null) : q ≠ .null := by
  rintro rfl
  cases h with
  | same => exact hp rfl
  | kind _ h => cases h
  | integer _ h => cases h
  | flag _ h => cases h
  | text _ h => cases h

theorem names_kind {k : QueryKind} (h : Respells .kind p q) (hk : p.NamesKind k) :
    q.NamesKind k := by
  cases h with
  | same => exact hk
  | kind hj hq => exact hk.unique hj ▸ names_of_spells_kind hq

theorem names_integer {n : Int} (h : Respells .integer p q) (hn : p.NamesInteger n) :
    q.NamesInteger n := by
  cases h with
  | same => exact hn
  | integer hm hq => exact hn.unique hm ▸ hq

theorem names_flag {b : Bool} (h : Respells .flag p q) (hb : p.NamesFlag b) : q.NamesFlag b := by
  cases h with
  | same => exact hb
  | flag ha hq => exact hb.unique ha ▸ names_of_spells_flag hq

theorem names_text {s : String} (h : Respells .text p q) (hs : p.NamesText s) :
    q.NamesText s := by
  cases h with
  | same => exact hs
  | text hp hq => exact hs.unique (text_of_spells_integral hp) ▸ text_of_spells_integral hq

theorem names_node {n : NodeId} (h : Respells .text p q) (hn : p.NamesNode n) : q.NamesNode n := by
  obtain ⟨s, hs, rfl⟩ := hn
  exact ⟨s, h.names_text hs, rfl⟩

end Respells

end Payload

/-! ## Mappings -/

namespace Fields
open Payload (Respells)
variable {m l : Fields}

structure Respelled (m l : Fields) : Prop where
  type : l.get? "type" = m.get? "type"
  fields : ∀ sort, m.OfSort sort → ∀ f ∈ sort.layout, ∀ p, m.get? f.1 = some p →
    ∃ q, l.get? f.1 = some q ∧ Respells f.2 p q

theorem At.respelled {field : String} {P : Payload → Prop} {sort : FieldSort} (h : m.At field P)
    (hr : ∀ p, m.get? field = some p → ∃ q, l.get? field = some q ∧ Respells sort p q)
    (hnames : ∀ {p q}, Respells sort p q → P p → P q) : l.At field P := by
  obtain ⟨p, hp, hnull, hP⟩ := h
  obtain ⟨q, hq, hpq⟩ := hr p hp
  exact ⟨q, hq, hpq.not_null hnull, hnames hpq hP⟩

theorem Holds.respelled {r : Record} (h : m.Holds r) (hsort : m.OfSort r.sort)
    (hr : m.Respelled l) : l.Holds r := by
  have hfields := hr.fields r.sort hsort
  cases r with
  | completion c =>
    simp only [Record.sort, RecordSort.layout, List.forall_mem_cons] at hfields
    obtain ⟨kind, text, node, id, start, duration, success, -⟩ := hfields
    obtain ⟨hkind, htext, hnode, hid, hstart, hduration, hsuccess⟩ := h
    exact ⟨hkind.respelled kind Respells.names_kind, htext.respelled text Respells.names_text,
      hnode.respelled node Respells.names_node, hid.respelled id Respells.names_integer,
      hstart.respelled start Respells.names_integer,
      hduration.respelled duration Respells.names_integer,
      hsuccess.respelled success Respells.names_flag⟩
  | reads r =>
    simp only [Record.sort, RecordSort.layout, List.forall_mem_cons] at hfields
    obtain ⟨reporter, kind, origin, id, logical, physical, -⟩ := hfields
    obtain ⟨hreporter, hkind, horigin, hid, hlogical, hphysical⟩ := h
    exact ⟨hreporter.respelled reporter Respells.names_node,
      hkind.respelled kind Respells.names_kind, horigin.respelled origin Respells.names_node,
      hid.respelled id Respells.names_integer, hlogical.respelled logical Respells.names_integer,
      hphysical.respelled physical Respells.names_integer⟩
  | rows r =>
    simp only [Record.sort, RecordSort.layout, List.forall_mem_cons] at hfields
    obtain ⟨reporter, kind, origin, id, action, rows, -⟩ := hfields
    obtain ⟨hreporter, hkind, horigin, hid, haction, hrows⟩ := h
    exact ⟨hreporter.respelled reporter Respells.names_node,
      hkind.respelled kind Respells.names_kind, horigin.respelled origin Respells.names_node,
      hid.respelled id Respells.names_integer, haction.respelled action Respells.names_text,
      hrows.respelled rows Respells.names_integer⟩
  | property r =>
    simp only [Record.sort, RecordSort.layout, List.forall_mem_cons] at hfields
    obtain ⟨reporter, kind, origin, id, name, value, -⟩ := hfields
    obtain ⟨hreporter, hkind, horigin, hid, hname, hvalue⟩ := h
    exact ⟨hreporter.respelled reporter Respells.names_node,
      hkind.respelled kind Respells.names_kind, horigin.respelled origin Respells.names_node,
      hid.respelled id Respells.names_integer, hname.respelled name Respells.names_text,
      hvalue.respelled value Respells.names_text⟩

end Fields

theorem Payload.decode_respelled {m l : Fields} {r : Record}
    (h : (Payload.mapping m).decode = .ok r) (hr : m.Respelled l) :
    (Payload.mapping l).decode = .ok r := by
  obtain ⟨_, hm, htype, hholds⟩ := (decode_ok_iff _ r).mp h
  cases hm
  have hsort : m.OfSort r.sort := by rw [Fields.OfSort, r.sort_tag, htype]
  exact (decode_ok_iff _ r).mpr ⟨l, rfl, hr.type.trans htype, hholds.respelled hsort hr⟩

/-! ## Streams -/

inductive Event.Respelled : Event → Event → Prop
  | same (e : Event) : Respelled e e
  | mapping {m l : Fields} {r : Record} : (Payload.mapping m).decode = .ok r → m.Respelled l →
      Respelled (.payload (.mapping m)) (.payload (.mapping l))

theorem Event.Respelled.decode_eq {e f : Event} (h : Event.Respelled e f) :
    e.decode = f.decode := by
  cases h with
  | same => rfl
  | mapping hm hr => exact hm.trans (Payload.decode_respelled hm hr).symm

theorem decode_respelled_stream {es fs : List Event} (h : List.Forall₂ Event.Respelled es fs) :
    es.map Event.decode = fs.map Event.decode := by
  induction h with
  | nil => rfl
  | cons hef _ ih => rw [List.map_cons, List.map_cons, hef.decode_eq, ih]

/-! ## Executions -/

def RecordSort.origin : RecordSort → String
  | .completion => "nodeId"
  | .reads | .rows | .property => "queryNodeId"

structure Fields.Executes (m : Fields) (sort : RecordSort) (node : String) (id : Int) : Prop where
  node : m.At sort.origin (·.NamesText node)
  id : m.At "id" (·.NamesInteger id)

theorem Fields.At.unique {m : Fields} {field : String} {P Q : Payload → Prop} (hp : m.At field P)
    (hq : m.At field Q) : ∃ p, P p ∧ Q p := by
  obtain ⟨p, hget, -, hP⟩ := hp
  obtain ⟨q, hget', -, hQ⟩ := hq
  exact ⟨p, hP, Option.some.inj (hget'.symm.trans hget) ▸ hQ⟩

theorem identity_of_executes {m : Fields} {r : Record} (h : (Payload.mapping m).decode = .ok r)
    {node : String} {id : Int} (he : m.Executes r.sort node id) :
    r.identity = ⟨.named node, id⟩ := by
  obtain ⟨_, hm, -, hholds⟩ := (Payload.decode_ok_iff _ r).mp h
  cases hm
  have hpair {n : NodeId} {i : Int} (hn : m.At r.sort.origin (·.NamesNode n))
      (hi : m.At "id" (·.NamesInteger i)) : (⟨n, i⟩ : Identity) = ⟨.named node, id⟩ := by
    obtain ⟨p, ⟨s, hs, rfl⟩, hnode⟩ := hn.unique he.node
    obtain ⟨q, hi, hid⟩ := hi.unique he.id
    rw [Payload.NamesText.unique hs hnode, Payload.NamesInteger.unique hi hid]
  cases r with
  | completion c => exact hpair hholds.2.2.1 hholds.2.2.2.1
  | reads r | rows r | property r => exact hpair hholds.2.2.1 hholds.2.2.2.1

def Record.kind : Record → QueryKind
  | .completion c => c.kind
  | .reads r => r.kind
  | .rows r => r.kind
  | .property r => r.kind

def History.Joins (h : History) (byKind : Bool) (kind : QueryKind) (text : String) :
    Record → Prop
  | .completion c => c.kind = kind ∧ c.identity ∈ h.identities kind text
  | .reads r => r ∈ h.readsOf kind (h.identities kind text)
  | .rows r => r ∈ h.rowsOf byKind kind (h.identities kind text)
  | .property r => r ∈ h.propertiesOf byKind kind (h.identities kind text)

theorem History.joins_of_identity {h : History} {c : Completion} {r : Record}
    (hc : .completion c ∈ h) (hr : r ∈ h) (hid : r.identity = c.identity) (hkind : r.kind = c.kind)
    (byKind : Bool) : c.text ∈ h.texts c.kind ∧ h.Joins byKind c.kind c.text r := by
  have hdone : c ∈ h.completed c.kind :=
    List.mem_filter.mpr ⟨List.mem_filterMap.mpr ⟨_, hc, rfl⟩, decide_eq_true rfl⟩
  have hidentity : r.identity ∈ h.identities c.kind c.text := by
    rw [hid]
    exact List.mem_map_of_mem (List.mem_filter.mpr ⟨hdone, decide_eq_true rfl⟩)
  refine ⟨List.mem_eraseDups.mpr (List.mem_map_of_mem hdone), ?_⟩
  cases r with
  | completion d => exact ⟨hkind, hidentity⟩
  | reads r =>
    have hmem : r ∈ h.reads := List.mem_filterMap.mpr ⟨_, hr, rfl⟩
    exact List.mem_filter.mpr ⟨hmem, decide_eq_true ⟨hkind, hidentity⟩⟩
  | rows r =>
    have hmem : r ∈ h.rows := List.mem_filterMap.mpr ⟨_, hr, rfl⟩
    exact List.mem_filter.mpr ⟨hmem, decide_eq_true ⟨fun _ => hkind, hidentity⟩⟩
  | property r =>
    have hmem : r ∈ h.properties := List.mem_filterMap.mpr ⟨_, hr, rfl⟩
    exact List.mem_filter.mpr ⟨hmem, decide_eq_true ⟨fun _ => hkind, hidentity⟩⟩

theorem mem_deliveries {es : List Event} {p : Payload} {r : Record} (hp : .payload p ∈ es)
    (h : p.decode = .ok r) : r ∈ deliveries es := by
  refine List.mem_filterMap.mpr ⟨_, hp, ?_⟩
  rw [Event.record?, Event.decode, h]
  rfl

/-- The spelling of a mapping does not matter: not to its record, not to a replay of a stream, and
not to the facts that are joined with a completion. -/
theorem spelling_immaterial :
    (∀ (m l : Fields) (r : Record), (Payload.mapping m).decode = .ok r → m.Respelled l →
      (Payload.mapping l).decode = .ok r) ∧
    (∀ (es fs : List Event) (handlers : List Handler), List.Forall₂ Event.Respelled es fs →
      Replay.run handlers fs = Replay.run handlers es ∧
        replay fs handlers = replay es handlers) ∧
    (∀ (s : Settings) (es : List Event) (m l : Fields) (c : Completion) (r : Record)
        (node : String) (id : Int),
      .payload (.mapping m) ∈ es → .payload (.mapping l) ∈ es →
      (Payload.mapping m).decode = .ok (.completion c) → (Payload.mapping l).decode = .ok r →
      r.kind = c.kind → m.Executes .completion node id → l.Executes r.sort node id →
      let h := deliveries es
      (c.text, h.rollupEntry s.rowsByKind c.kind c.text) ∈
          ((Aggregator.start s).run h).rollup c.kind ∧
        h.Joins s.rowsByKind c.kind c.text r) := by
  refine ⟨fun m l r h hr => Payload.decode_respelled h hr, fun es fs handlers h => ?_, ?_⟩
  · have hsame := (decode_respelled_stream h).symm
    exact ⟨Replay.run_congr handlers hsame, replay_congr handlers hsame⟩
  · intro s es m l c r node id hm hl hc hr hkind hcompletes hexecutes h
    have hidentity : r.identity = c.identity :=
      (identity_of_executes hr hexecutes).trans (identity_of_executes hc hcompletes).symm
    obtain ⟨htext, hjoins⟩ := History.joins_of_identity (mem_deliveries hm hc)
      (mem_deliveries hl hr) hidentity hkind s.rowsByKind
    refine ⟨?_, hjoins⟩
    rw [rollup_after_run]
    exact List.mem_map_of_mem htext

theorem Payload.names_read {s : String} {n : Int} (h : Integer.read? s = some n) :
    (Payload.str s).NamesInteger n :=
  .text ((Integer.read_iff s n).mp h)

theorem Payload.spells_digits {n : Int} {s : String} (h : toString n = s) :
    (Payload.str s).SpellsIntegral n :=
  h ▸ .digits n

namespace TwoSpellings

def four : Binary64 := Decimal.toBinary64 false ⟨40, -1⟩

def plain : Fields := [("type", .str "query"), ("kind", .int 3), ("text", .int 42),
  ("nodeId", .str "7"), ("id", .int 10), ("startTime", .str "-0"), ("duration", .int 4),
  ("success", .bool true)]

def loose : Fields := [("type", .str "query"), ("kind", .str " sql_Fields "), ("text", .str "42"),
  ("nodeId", .int 7), ("id", .str " +1_0 "), ("startTime", .str "-0"), ("duration", .float four),
  ("success", .str "YES\n")]

def reads : Fields := [("type", .str "queryReads"), ("nodeId", .str "m"),
  ("kind", .kind .sqlFields), ("queryNodeId", .str "7"), ("id", .str "010"),
  ("logicalReads", .int 5), ("physicalReads", .int 2)]

def completion : Completion := ⟨.sqlFields, "42", .named "7", 10, 0, 4, true⟩

def report : ReadsReport := ⟨.named "m", .sqlFields, .named "7", 10, 5, 2⟩

def events : List Event := [.payload (.mapping plain), .payload .null, .payload (.mapping reads)]

def looseEvents : List Event :=
  [.payload (.mapping loose), .payload .null, .payload (.mapping reads)]

theorem four_named : (Payload.float four).NamesInteger 4 :=
  .float ((Binary64.to_int_iff _ _).mp (by decide +kernel))

theorem ten_named : (Payload.str " +1_0 ").NamesInteger 10 :=
  Payload.names_read (by decide +kernel)

theorem padded_ten_named : (Payload.str "010").NamesInteger 10 :=
  Payload.names_read (by decide +kernel)

theorem plain_decoded : (Payload.mapping plain).decode = .ok (.completion completion) := by
  have htext : (Payload.int 42).text? = some "42" := by decide +kernel
  have hzero : (Payload.str "-0").NamesInteger 0 := Payload.names_read (by decide +kernel)
  exact (Payload.decode_ok_iff _ _).mpr ⟨_, rfl, rfl, ⟨_, rfl, by simp, .ordinal .sqlFields⟩,
    ⟨_, rfl, by simp, htext⟩, ⟨_, rfl, by simp, _, rfl, rfl⟩, ⟨_, rfl, by simp, .integer 10⟩,
    ⟨_, rfl, by simp, hzero⟩, ⟨_, rfl, by simp, .integer 4⟩, ⟨_, rfl, by simp, .flag true⟩⟩

theorem reads_decoded : (Payload.mapping reads).decode = .ok (.reads report) :=
  (Payload.decode_ok_iff _ _).mpr ⟨_, rfl, rfl, ⟨_, rfl, by simp, _, rfl, rfl⟩,
    ⟨_, rfl, by simp, .member .sqlFields⟩, ⟨_, rfl, by simp, _, rfl, rfl⟩,
    ⟨_, rfl, by simp, padded_ten_named⟩, ⟨_, rfl, by simp, .integer 5⟩,
    ⟨_, rfl, by simp, .integer 2⟩⟩

theorem kind_in_other_case : AnyCase "SQL_FIELDS" " sql_Fields " :=
  ⟨[' '], "sql_Fields".toList, [' '], by decide, List.all_eq_true.mp (by decide),
    List.all_eq_true.mp (by decide), by decide⟩

theorem flag_in_other_case : AnyCase "yes" "YES\n" :=
  ⟨[], "YES".toList, ['\n'], by decide, List.all_eq_true.mp (by decide),
    List.all_eq_true.mp (by decide), by decide⟩

theorem loose_respelled : plain.Respelled loose := by
  refine ⟨rfl, fun sort hsort => ?_⟩
  obtain rfl : sort = .completion := Fields.of_sort_unique hsort rfl
  simp only [RecordSort.layout, List.forall_mem_cons]
  refine ⟨?_, ?_, ?_, ?_, ?_, ?_, ?_, by simp⟩ <;> rintro p ⟨⟩
  · exact ⟨_, rfl, .kind (.ordinal .sqlFields) (.name kind_in_other_case)⟩
  · have hdigits := Payload.spells_digits (n := 42) (s := "42") (by decide +kernel)
    exact ⟨_, rfl, .text (.integer (by decide +kernel)) hdigits⟩
  · have hdigits := Payload.spells_digits (n := 7) (s := "7") (by decide +kernel)
    exact ⟨_, rfl, .text hdigits (.integer (by decide +kernel))⟩
  · exact ⟨_, rfl, .integer (.integer 10) ten_named⟩
  · exact ⟨_, rfl, .same _ _⟩
  · exact ⟨_, rfl, .integer (.integer 4) four_named⟩
  · exact ⟨_, rfl, .flag (.flag true) (.yes (by decide) flag_in_other_case)⟩

theorem events_respelled : List.Forall₂ Event.Respelled events looseEvents :=
  .cons (.mapping plain_decoded loose_respelled) (.cons (.same _) (.cons (.same _) .nil))

theorem loose_executes : loose.Executes .completion "7" 10 := by
  have hnode : (Payload.int 7).text? = some "7" := by decide +kernel
  exact ⟨⟨_, rfl, by simp, hnode⟩, ⟨_, rfl, by simp, ten_named⟩⟩

theorem reads_executes : reads.Executes .reads "7" 10 :=
  ⟨⟨_, rfl, by simp, rfl⟩, ⟨_, rfl, by simp, padded_ten_named⟩⟩

end TwoSpellings

/-- A completion in two spellings, and reads that name its execution in a third one. -/
theorem completion_in_two_spellings :
    let aggregator : List Handler := [.aggregator (.start .default)]
    (Payload.mapping TwoSpellings.plain).decode = .ok (.completion TwoSpellings.completion) ∧
    (Payload.mapping TwoSpellings.loose).decode = .ok (.completion TwoSpellings.completion) ∧
    Replay.run aggregator TwoSpellings.looseEvents = Replay.run aggregator TwoSpellings.events ∧
    (deliveries TwoSpellings.looseEvents).Joins false .sqlFields "42"
      (.reads TwoSpellings.report) := by
  intro aggregator
  obtain ⟨hrecord, hstream, hjoin⟩ := spelling_immaterial
  have hplain := TwoSpellings.plain_decoded
  have hloose := hrecord _ _ _ hplain TwoSpellings.loose_respelled
  refine ⟨hplain, hloose, (hstream _ _ aggregator TwoSpellings.events_respelled).1, ?_⟩
  exact (hjoin .default _ _ _ _ _ "7" 10 (by simp [TwoSpellings.looseEvents])
    (by simp [TwoSpellings.looseEvents]) hloose TwoSpellings.reads_decoded rfl
    TwoSpellings.loose_executes TwoSpellings.reads_executes).2

theorem Fields.text_of_long {m : Fields} {field : String} {n : Int}
    (h : m.get? field = some (.int n)) (hn : Integer.text? n = none) :
    m.text field = .error .unwritable := by
  have hrequired : m.required field = .ok (.int n) := required_ok_iff.mpr ⟨h, by simp⟩
  have htext : (Payload.int n).text? = none := (Payload.shown_int n).trans hn
  rw [Fields.text, hrequired]
  simp only [bind, Except.bind, htext]

/-- An action of more digits than the limit allows is accepted as a text. The integer of these
digits has no text, so its mapping is not decoded. -/
theorem long_action_misspelled :
    let n : Int := Integer.ceiling
    let m (action : Payload) : Fields := [("type", .str "queryRows"), ("nodeId", .str "n"),
      ("kind", .str "SQL"), ("queryNodeId", .str "n"), ("id", .int 1), ("action", action),
      ("rows", .int 1)]
    (Payload.mapping (m (.str (toString n)))).decode =
        .ok (.rows ⟨.named "n", .sql, .named "n", 1, toString n, 1⟩) ∧
      (Payload.mapping (m (.int n))).decode = .error .unwritable := by
  intro n m
  have hlong : Integer.text? n = none := by
    rw [Integer.text?, (Integer.chars_none_iff n).mpr (Int.natAbs_natCast _).ge]
    rfl
  clear_value n
  have hkind : (Payload.str "SQL").NamesKind .sql := Payload.names_written_kind .sql
  constructor
  · refine (Payload.decode_ok_iff _ _).mpr ⟨_, rfl, rfl, ?_⟩
    exact ⟨Fields.at_node rfl, ⟨_, rfl, by simp, hkind⟩, Fields.at_node rfl, Fields.at_integer rfl,
      Fields.at_text rfl, Fields.at_integer rfl⟩
  · have hrows : (Payload.mapping (m (.int n))).decode = Fields.rows (m (.int n)) := rfl
    have hnode : Fields.node (m (.int n)) "nodeId" = .ok (.named "n") := rfl
    have hsql : Fields.kind (m (.int n)) = .ok .sql :=
      Fields.kind_ok_iff.mpr ⟨_, rfl, by simp, hkind⟩
    have horigin : Fields.node (m (.int n)) "queryNodeId" = .ok (.named "n") := rfl
    have hid : Fields.integer (m (.int n)) "id" = .ok 1 := rfl
    rw [hrows, Fields.rows, hnode, hsql, horigin, hid, Fields.text_of_long rfl hlong]
    rfl

end QueryTelemetry
