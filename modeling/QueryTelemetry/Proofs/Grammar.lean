import QueryTelemetry.Proofs.Integers
import QueryTelemetry.Proofs.Legible

/-!
# The grammar of payloads

A payload is a record's mapping if its type is one of the four tags and every field of that type
is there and spells a value of the field's sort. The grammar is stated field by field, without the
decoder. A mapping is read as the record whose values its fields name.
-/

set_option autoImplicit false

namespace QueryTelemetry
open QueryTelemetry.Text

namespace Payload

inductive NamesKind : Payload → QueryKind → Prop
  | member (k : QueryKind) : NamesKind (.kind k) k
  | ordinal (k : QueryKind) : NamesKind (.int k.ordinal) k
  | word {s : String} {k : QueryKind} : upperWord s = k.name → NamesKind (.str s) k

inductive NamesInteger : Payload → Int → Prop
  | integer (n : Int) : NamesInteger (.int n) n
  | float {x : Binary64} {n : Int} : x.Equals n → NamesInteger (.float x) n
  | text {s : String} {n : Int} : Integer.Spells s.toList n → NamesInteger (.str s) n

inductive NamesFlag : Payload → Bool → Prop
  | flag (b : Bool) : NamesFlag (.bool b) b
  | zero : NamesFlag (.int 0) false
  | nonzero {n : Int} : n ≠ 0 → NamesFlag (.int n) true
  | yes {s : String} : lowerWord s ∈ ["true", "1", "yes"] → NamesFlag (.str s) true
  | no {s : String} : lowerWord s ∈ ["false", "0", "no"] → NamesFlag (.str s) false

def NamesText (p : Payload) (s : String) : Prop := p.text? = some s

def NamesNode (p : Payload) (n : NodeId) : Prop := ∃ s, p.NamesText s ∧ n = .named s

end Payload

inductive FieldSort where
  | kind | text | integer | flag

/-- Every value has a text. -/
def FieldSort.Accepts : FieldSort → Payload → Prop
  | .kind, p => ∃ k, p.NamesKind k
  | .text, _ => True
  | .integer, p => ∃ n, p.NamesInteger n
  | .flag, p => ∃ b, p.NamesFlag b

inductive RecordSort where
  | completion | reads | rows | property

namespace RecordSort

def tag : RecordSort → String
  | .completion => "query"
  | .reads => "queryReads"
  | .rows => "queryRows"
  | .property => "queryProperty"

def layout : RecordSort → List (String × FieldSort)
  | .completion => [("kind", .kind), ("text", .text), ("nodeId", .text), ("id", .integer),
      ("startTime", .integer), ("duration", .integer), ("success", .flag)]
  | .reads => [("nodeId", .text), ("kind", .kind), ("queryNodeId", .text), ("id", .integer),
      ("logicalReads", .integer), ("physicalReads", .integer)]
  | .rows => [("nodeId", .text), ("kind", .kind), ("queryNodeId", .text), ("id", .integer),
      ("action", .text), ("rows", .integer)]
  | .property => [("nodeId", .text), ("kind", .kind), ("queryNodeId", .text), ("id", .integer),
      ("name", .text), ("value", .text)]

end RecordSort

namespace Fields

def At (m : Fields) (field : String) (P : Payload → Prop) : Prop :=
  ∃ p, m.get? field = some p ∧ p ≠ .null ∧ P p

def Sound (m : Fields) (f : String × FieldSort) : Prop := m.At f.1 f.2.Accepts

inductive Faulty (m : Fields) : String × FieldSort → DecodeError → Prop
  | missing {f : String} {sort : FieldSort} :
      m.get? f = none → Faulty m (f, sort) (.missingField f)
  | null {f : String} {sort : FieldSort} :
      m.get? f = some .null → Faulty m (f, sort) (.nullField f)
  | ordinal {f : String} {n : Int} : m.get? f = some (.int n) →
      ¬ FieldSort.kind.Accepts (.int n) → Faulty m (f, .kind) (.unknownOrdinal n)
  | kind {f : String} {p : Payload} : m.get? f = some p → p ≠ .null → (∀ n, p ≠ .int n) →
      ¬ FieldSort.kind.Accepts p → Faulty m (f, .kind) (.unknownKind p)
  | integer {f : String} {p : Payload} : m.get? f = some p → p ≠ .null →
      ¬ FieldSort.integer.Accepts p → Faulty m (f, .integer) (.notInteger f p)
  | flag {f : String} {p : Payload} : m.get? f = some p → p ≠ .null →
      ¬ FieldSort.flag.Accepts p → Faulty m (f, .flag) (.notBoolean f p)

/-- The first field at fault: all before it are sound, and those after it may be anything. -/
def FirstFault (m : Fields) (layout : List (String × FieldSort)) (cause : DecodeError) : Prop :=
  ∃ before f after, layout = before ++ f :: after ∧ (∀ g ∈ before, m.Sound g) ∧ m.Faulty f cause

def Holds (m : Fields) : Record → Prop
  | .completion c => m.At "kind" (·.NamesKind c.kind) ∧ m.At "text" (·.NamesText c.text) ∧
      m.At "nodeId" (·.NamesNode c.node) ∧ m.At "id" (·.NamesInteger c.id) ∧
      m.At "startTime" (·.NamesInteger c.startTime) ∧
      m.At "duration" (·.NamesInteger c.duration) ∧ m.At "success" (·.NamesFlag c.success)
  | .reads r => m.At "nodeId" (·.NamesNode r.reporter) ∧ m.At "kind" (·.NamesKind r.kind) ∧
      m.At "queryNodeId" (·.NamesNode r.origin) ∧ m.At "id" (·.NamesInteger r.id) ∧
      m.At "logicalReads" (·.NamesInteger r.logical) ∧
      m.At "physicalReads" (·.NamesInteger r.physical)
  | .rows r => m.At "nodeId" (·.NamesNode r.reporter) ∧ m.At "kind" (·.NamesKind r.kind) ∧
      m.At "queryNodeId" (·.NamesNode r.origin) ∧ m.At "id" (·.NamesInteger r.id) ∧
      m.At "action" (·.NamesText r.action) ∧ m.At "rows" (·.NamesInteger r.rows)
  | .property r => m.At "nodeId" (·.NamesNode r.reporter) ∧ m.At "kind" (·.NamesKind r.kind) ∧
      m.At "queryNodeId" (·.NamesNode r.origin) ∧ m.At "id" (·.NamesInteger r.id) ∧
      m.At "name" (·.NamesText r.name) ∧ m.At "value" (·.NamesText r.value)

def OfSort (m : Fields) (sort : RecordSort) : Prop := m.get? "type" = some (.str sort.tag)

end Fields

namespace Payload

def Grammatical (p : Payload) : Prop :=
  ∃ (m : Fields) (sort : RecordSort), p = .mapping m ∧ m.OfSort sort ∧ ∀ f ∈ sort.layout, m.Sound f

def Spells (p : Payload) (r : Record) : Prop :=
  ∃ m : Fields, p = .mapping m ∧ m.get? "type" = some (.str r.typeTag) ∧ m.Holds r

/-- What is wrong with a payload outside the grammar. -/
inductive FirstFault : Payload → DecodeError → Prop
  | notMapping {p : Payload} : (∀ m, p ≠ .mapping m) → FirstFault p (.notMapping p)
  | unknownType {m : Fields} : (∀ sort, ¬ m.OfSort sort) →
      FirstFault (.mapping m) (.unknownType ((m.get? "type").getD .null))
  | field {m : Fields} {sort : RecordSort} {cause : DecodeError} : m.OfSort sort →
      m.FirstFault sort.layout cause → FirstFault (.mapping m) cause

end Payload

/-! ## Values -/

namespace QueryKind

theorem of_name_iff (s : String) (k : QueryKind) : ofName? s = some k ↔ s = k.name := by
  constructor
  · intro h
    have hname := List.find?_some (by rwa [ofName?] at h)
    exact (of_decide_eq_true hname).symm
  · rintro rfl
    exact of_name k

theorem of_ordinal_iff (n : Int) (k : QueryKind) : ofOrdinal? n = some k ↔ n = k.ordinal := by
  constructor
  · intro h
    have hordinal := List.find?_some (by rwa [ofOrdinal?] at h)
    exact (of_decide_eq_true hordinal).symm
  · rintro rfl
    exact of_ordinal k

theorem parse_ok_iff (p : Payload) (k : QueryKind) : parse p = .ok k ↔ p.NamesKind k := by
  constructor
  · intro h
    unfold parse at h
    split at h
    · cases h
      exact .member k
    · split at h
      · rename_i hk
        cases h
        rw [(of_ordinal_iff _ k).mp hk]
        exact .ordinal k
      · exact absurd h (refuse_ne_ok _ _)
    · split at h
      · rename_i hk
        cases h
        exact .word ((of_name_iff _ k).mp hk)
      · exact absurd h (refuse_ne_ok _ _)
    · exact absurd h (refuse_ne_ok _ _)
  · rintro (_ | _ | hs)
    · rfl
    · rw [parse, of_ordinal]
    · rw [parse, hs, of_name]

end QueryKind

namespace Fields

theorem integer_of_iff (p : Payload) (n : Int) : integerOf? p = some n ↔ p.NamesInteger n := by
  constructor
  · intro h
    unfold integerOf? at h
    split at h
    · cases h
      exact .integer n
    · exact .float ((Binary64.to_int_iff _ n).mp h)
    · exact .text ((Integer.read_iff _ n).mp h)
    · cases h
  · rintro (_ | hx | hs)
    · rfl
    · exact (Binary64.to_int_iff _ n).mpr hx
    · exact (Integer.read_iff _ n).mpr hs

theorem boolean_of_iff (p : Payload) (b : Bool) : booleanOf? p = some b ↔ p.NamesFlag b := by
  constructor
  · intro h
    unfold booleanOf? at h
    split at h
    · cases h
      exact .flag b
    · rename_i n
      cases h
      by_cases hn : n = 0
      · subst hn
        exact .zero
      · rw [bne_iff_ne.mpr hn]
        exact .nonzero hn
    · dsimp only at h
      split at h
      · rename_i hyes
        cases h
        exact .yes (List.contains_iff_mem.mp hyes)
      · split at h
        · rename_i hno
          cases h
          exact .no (List.contains_iff_mem.mp hno)
        · cases h
    · cases h
  · rintro (_ | _ | hn | hyes | hno)
    · rfl
    · rfl
    · exact congrArg some (bne_iff_ne.mpr hn)
    · exact if_pos (List.contains_iff_mem.mpr hyes)
    · simp only [List.mem_cons, List.not_mem_nil, or_false] at hno
      rcases hno with hno | hno | hno <;> simp [booleanOf?, hno]

/-! ## Readers -/

variable {m : Fields} {f : String}

theorem at_congr {P Q : Payload → Prop} (h : ∀ p, P p ↔ Q p) : m.At f P ↔ m.At f Q :=
  exists_congr fun p => and_congr_right fun _ => and_congr_right fun _ => h p

theorem required_ok_iff {p : Payload} :
    required m f = .ok p ↔ m.get? f = some p ∧ p ≠ .null := by
  unfold required
  split
  · rename_i hp
    simp [hp, refuse_ne_ok]
  · rename_i hp
    simp only [hp, refuse_ne_ok, Option.some.injEq, false_iff, not_and, not_not]
    exact Eq.symm
  · rename_i q hnull hp
    rw [hp, Except.ok.injEq, Option.some.injEq]
    refine ⟨?_, And.left⟩
    rintro rfl
    exact ⟨rfl, hnull⟩

theorem required_bind_ok_iff {α : Type} {read : Payload → Decoded α} {a : α} :
    required m f >>= read = .ok a ↔ m.At f fun p => read p = .ok a := by
  simp only [bind_ok_iff, required_ok_iff, At, and_assoc]

theorem kind_ok_iff {k : QueryKind} : kind m = .ok k ↔ m.At "kind" (·.NamesKind k) := by
  rw [kind, required_bind_ok_iff]
  exact at_congr fun p => QueryKind.parse_ok_iff p k

theorem text_ok_iff {s : String} : text m f = .ok s ↔ m.At f (·.NamesText s) := by
  rw [text, required_bind_ok_iff]
  refine at_congr fun p => ?_
  rw [Payload.NamesText]
  cases p.text? <;> simp [pure, Except.pure]

theorem node_eq_bind (m : Fields) (f : String) :
    node m f = text m f >>= fun s => .ok (.named s) := by
  unfold node
  cases text m f <;> rfl

theorem node_ok_iff {n : NodeId} : node m f = .ok n ↔ m.At f (·.NamesNode n) := by
  simp only [node_eq_bind, bind_ok_iff, text_ok_iff, Except.ok.injEq, At, Payload.NamesNode]
  constructor
  · rintro ⟨s, ⟨p, hp, hnull, hs⟩, hn⟩
    exact ⟨p, hp, hnull, s, hs, hn.symm⟩
  · rintro ⟨p, hp, hnull, s, hs, hn⟩
    exact ⟨s, ⟨p, hp, hnull, hs⟩, hn.symm⟩

theorem integer_ok_iff {n : Int} : integer m f = .ok n ↔ m.At f (·.NamesInteger n) := by
  rw [integer, required_bind_ok_iff]
  refine at_congr fun p => ?_
  rw [← integer_of_iff]
  cases integerOf? p <;> simp [pure, Except.pure, refuse_ne_ok]

theorem boolean_ok_iff {b : Bool} : boolean m f = .ok b ↔ m.At f (·.NamesFlag b) := by
  rw [boolean, required_bind_ok_iff]
  refine at_congr fun p => ?_
  rw [← boolean_of_iff]
  cases booleanOf? p <;> simp [pure, Except.pure, refuse_ne_ok]

end Fields

def Record.sort : Record → RecordSort
  | .completion _ => .completion
  | .reads _ => .reads
  | .rows _ => .rows
  | .property _ => .property

theorem Record.sort_tag (r : Record) : r.sort.tag = r.typeTag := by cases r <;> rfl

namespace Fields
variable {m : Fields}

def readAs (m : Fields) : RecordSort → Decoded Record
  | .completion => completion m
  | .reads => reads m
  | .rows => rows m
  | .property => property m

theorem record_of_sort {sort : RecordSort} (h : m.OfSort sort) : record m = m.readAs sort := by
  unfold record
  rw [h, Option.getD_some]
  cases sort <;> rfl

theorem record_of_no_sort (h : ∀ sort, ¬ m.OfSort sort) :
    record m = refuse (.unknownType ((m.get? "type").getD .null)) := by
  have htag (sort : RecordSort) : (m.get? "type").getD .null ≠ .str sort.tag := by
    intro ht
    cases hp : m.get? "type" with
    | none =>
      rw [hp] at ht
      cases ht
    | some p => exact h sort (by rw [OfSort, ← ht, hp, Option.getD_some])
  unfold record
  split
  · exact absurd ‹_› (htag .completion)
  · exact absurd ‹_› (htag .reads)
  · exact absurd ‹_› (htag .rows)
  · exact absurd ‹_› (htag .property)
  · rfl

theorem read_as_ok_iff (m : Fields) (sort : RecordSort) (r : Record) :
    m.readAs sort = .ok r ↔ r.sort = sort ∧ m.Holds r := by
  cases sort with
  | completion =>
    simp only [readAs, completion, bind_ok_iff, kind_ok_iff, text_ok_iff, node_ok_iff,
      integer_ok_iff, boolean_ok_iff]
    constructor
    · rintro ⟨_, hkind, _, htext, _, hnode, _, hid, _, hstart, _, hduration, _, hsuccess, h⟩
      cases h
      exact ⟨rfl, hkind, htext, hnode, hid, hstart, hduration, hsuccess⟩
    · cases r with
      | completion c =>
        rintro ⟨-, hkind, htext, hnode, hid, hstart, hduration, hsuccess⟩
        exact ⟨_, hkind, _, htext, _, hnode, _, hid, _, hstart, _, hduration, _, hsuccess, rfl⟩
      | reads _ | rows _ | property _ =>
        rintro ⟨hsort, -⟩
        cases hsort
  | reads =>
    simp only [readAs, reads, bind_ok_iff, kind_ok_iff, node_ok_iff, integer_ok_iff]
    constructor
    · rintro ⟨_, hreporter, _, hkind, _, horigin, _, hid, _, hlogical, _, hphysical, h⟩
      cases h
      exact ⟨rfl, hreporter, hkind, horigin, hid, hlogical, hphysical⟩
    · cases r with
      | reads r =>
        rintro ⟨-, hreporter, hkind, horigin, hid, hlogical, hphysical⟩
        exact ⟨_, hreporter, _, hkind, _, horigin, _, hid, _, hlogical, _, hphysical, rfl⟩
      | completion _ | rows _ | property _ =>
        rintro ⟨hsort, -⟩
        cases hsort
  | rows =>
    simp only [readAs, rows, bind_ok_iff, kind_ok_iff, text_ok_iff, node_ok_iff, integer_ok_iff]
    constructor
    · rintro ⟨_, hreporter, _, hkind, _, horigin, _, hid, _, haction, _, hrows, h⟩
      cases h
      exact ⟨rfl, hreporter, hkind, horigin, hid, haction, hrows⟩
    · cases r with
      | rows r =>
        rintro ⟨-, hreporter, hkind, horigin, hid, haction, hrows⟩
        exact ⟨_, hreporter, _, hkind, _, horigin, _, hid, _, haction, _, hrows, rfl⟩
      | completion _ | reads _ | property _ =>
        rintro ⟨hsort, -⟩
        cases hsort
  | property =>
    simp only [readAs, property, bind_ok_iff, kind_ok_iff, text_ok_iff, node_ok_iff, integer_ok_iff]
    constructor
    · rintro ⟨_, hreporter, _, hkind, _, horigin, _, hid, _, hname, _, hvalue, h⟩
      cases h
      exact ⟨rfl, hreporter, hkind, horigin, hid, hname, hvalue⟩
    · cases r with
      | property r =>
        rintro ⟨-, hreporter, hkind, horigin, hid, hname, hvalue⟩
        exact ⟨_, hreporter, _, hkind, _, horigin, _, hid, _, hname, _, hvalue, rfl⟩
      | completion _ | reads _ | rows _ =>
        rintro ⟨hsort, -⟩
        cases hsort

theorem of_sort_unique {s t : RecordSort} (hs : m.OfSort s) (ht : m.OfSort t) : s = t := by
  have htag := Option.some.inj (hs.symm.trans ht)
  cases s <;> cases t <;> first | rfl | exact absurd (Payload.str.inj htag) (by decide)

theorem record_ok_iff (m : Fields) (r : Record) :
    record m = .ok r ↔ m.OfSort r.sort ∧ m.Holds r := by
  by_cases hknown : ∃ sort, m.OfSort sort
  · obtain ⟨sort, hsort⟩ := hknown
    rw [record_of_sort hsort, read_as_ok_iff]
    exact and_congr_left fun _ => ⟨fun h => h ▸ hsort, fun h => of_sort_unique h hsort⟩
  · rw [record_of_no_sort (not_exists.mp hknown)]
    exact iff_of_false (refuse_ne_ok _ _) fun h => hknown ⟨_, h.1⟩

end Fields

end QueryTelemetry
