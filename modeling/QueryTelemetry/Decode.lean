import QueryTelemetry.Record
import QueryTelemetry.Text.Characters

/-!
# Decoding payloads into records

A payload is a record's mapping in any spelling: numbers as integers, integral floats or
digits, kinds by member, name or ordinal, flags as booleans, words or integers. Each type of
record reads its fields in a fixed order, and the first field at fault is the one reported.
Where the report itself cannot be written, because the value shown in it has an integer past
the digit limit, decoding has failed in another way: the payload is not merely malformed.
-/

set_option autoImplicit false

namespace QueryTelemetry
open QueryTelemetry.Text

inductive DecodeError where
  | missingField (field : String)
  | nullField (field : String)
  | notInteger (field : String) (got : Payload)
  | notBoolean (field : String) (got : Payload)
  | unknownKind (got : Payload)
  | unknownOrdinal (n : Int)
  | notMapping (got : Payload)
  | unknownType (got : Payload)
  | notRecord (got : Payload)

namespace DecodeError

def fieldText (field : String) : String := "Field " ++ String.ofList (quoted field.toList)

def message? : DecodeError → Option String
  | .missingField f => some ("Missing field " ++ String.ofList (quoted f.toList))
  | .nullField f => some (fieldText f ++ " is null")
  | .notInteger f p => p.shown?.map (fieldText f ++ " must be an integer, got " ++ ·)
  | .notBoolean f p => p.shown?.map (fieldText f ++ " must be a boolean, got " ++ ·)
  | .unknownKind p => p.shown?.map ("Unknown query kind: " ++ ·)
  | .unknownOrdinal n => (Integer.text? n).map ("Unknown query kind ordinal: " ++ ·)
  | .notMapping p => some ("Unsupported event payload: " ++ p.typeName)
  | .unknownType p => p.shown?.map ("Unknown event type: " ++ ·)
  | .notRecord p => some ("Unsupported event record: " ++ p.typeName)

end DecodeError

inductive DecodeFailure where
  | malformed (cause : DecodeError) (message : String)
  | unwritable

abbrev Decoded (α : Type) := Except DecodeFailure α

def refuse {α : Type} (cause : DecodeError) : Decoded α :=
  match cause.message? with
  | some m => .error (.malformed cause m)
  | none => .error .unwritable

namespace QueryKind

def parse : Payload → Decoded QueryKind
  | .kind k => .ok k
  | .int n => match ofOrdinal? n with
    | some k => .ok k
    | none => refuse (.unknownOrdinal n)
  | .str s => match ofName? (upperWord s) with
    | some k => .ok k
    | none => refuse (.unknownKind (.str s))
  | p => refuse (.unknownKind p)

end QueryKind

abbrev Fields := Assoc String Payload

namespace Fields

def required (m : Fields) (field : String) : Decoded Payload :=
  match m.get? field with
  | none => refuse (.missingField field)
  | some .null => refuse (.nullField field)
  | some p => .ok p

def integerOf? : Payload → Option Int
  | .int n => some n
  | .float x => x.toInt?
  | .str s => Integer.read? s
  | _ => none

def booleanOf? : Payload → Option Bool
  | .bool b => some b
  | .int n => some (n != 0)
  | .str s =>
    let word := lowerWord s
    if ["true", "1", "yes"].contains word then some true
    else if ["false", "0", "no"].contains word then some false
    else none
  | _ => none

def integer (m : Fields) (field : String) : Decoded Int := do
  let p ← required m field
  match integerOf? p with
  | some n => return n
  | none => refuse (.notInteger field p)

def boolean (m : Fields) (field : String) : Decoded Bool := do
  let p ← required m field
  match booleanOf? p with
  | some b => return b
  | none => refuse (.notBoolean field p)

def text (m : Fields) (field : String) : Decoded String := do
  match (← required m field).text? with
  | some s => return s
  | none => .error .unwritable

def node (m : Fields) (field : String) : Decoded NodeId := NodeId.named <$> text m field

def kind (m : Fields) : Decoded QueryKind := do QueryKind.parse (← required m "kind")

def completion (m : Fields) : Decoded Record := do
  let kind ← kind m
  let text ← text m "text"
  let node ← node m "nodeId"
  let id ← integer m "id"
  let startTime ← integer m "startTime"
  let duration ← integer m "duration"
  let success ← boolean m "success"
  return .completion { kind, text, node, id, startTime, duration, success }

def reads (m : Fields) : Decoded Record := do
  let reporter ← node m "nodeId"
  let kind ← kind m
  let origin ← node m "queryNodeId"
  let id ← integer m "id"
  let logical ← integer m "logicalReads"
  let physical ← integer m "physicalReads"
  return .reads { reporter, kind, origin, id, logical, physical }

def rows (m : Fields) : Decoded Record := do
  let reporter ← node m "nodeId"
  let kind ← kind m
  let origin ← node m "queryNodeId"
  let id ← integer m "id"
  let action ← text m "action"
  let rows ← integer m "rows"
  return .rows { reporter, kind, origin, id, action, rows }

def property (m : Fields) : Decoded Record := do
  let reporter ← node m "nodeId"
  let kind ← kind m
  let origin ← node m "queryNodeId"
  let id ← integer m "id"
  let name ← text m "name"
  let value ← text m "value"
  return .property { reporter, kind, origin, id, name, value }

def record (m : Fields) : Decoded Record :=
  match (m.get? "type").getD .null with
  | .str "query" => completion m
  | .str "queryReads" => reads m
  | .str "queryRows" => rows m
  | .str "queryProperty" => property m
  | tag => refuse (.unknownType tag)

end Fields

def Payload.decode : Payload → Decoded Record
  | .mapping fields => Fields.record fields
  | p => refuse (.notMapping p)

inductive Event where
  | payload (p : Payload)
  | record (r : Record)

def Event.decode : Event → Decoded Record
  | .payload p => p.decode
  | .record r => .ok r

def Event.undecoded : Event → Decoded Record
  | .payload p => refuse (.notRecord p)
  | .record r => .ok r

end QueryTelemetry
